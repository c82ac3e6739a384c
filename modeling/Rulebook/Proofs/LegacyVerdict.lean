/-
Rulebook/Proofs/LegacyVerdict.lean

The verdict of the guard against plain files of earlier layouts.  One listed file passes when its
path leads to nothing, or to something other than a plain file (`LegacyPath.Passes`); if not, it
offends with a failure of its own (`LegacyPath.Offends`), and a file never does both.  Where paths
lead, and with which fault they lead to nothing, is said by relations of their own, which know
nothing of the guard (`Disk.Ends`, `Disk.Refuses`).

Main result `checkLegacy_verdict`: the guard passes a list just if every file on it passes, and
otherwise fails as the first file that offends does, whatever comes after it.  So passing does not
depend on the order of the list, and a list may be checked in parts.
-/
import Mathlib.Data.List.Perm.Basic
import Rulebook.Proofs.Compilation
import Rulebook.Proofs.Disk.Retains
import Rulebook.Proofs.Disk.Stops

namespace Rulebook

variable {d : Disk} {file : LegacyPath} {files : List LegacyPath} {f g : Failure}

/-! ### One file -/

namespace LegacyPath

/-- The failure for a plain file in the way: it names the file, and what to remove. -/
def conflict (file : LegacyPath) : Failure :=
  { cause := .legacyConflict file.path file.name, hints := [.removeLegacy file.name] }

/-- What a listed file may come to without being in the way. -/
inductive Passes (d : Disk) (file : LegacyPath) : Prop
  /-- Nothing has its name, or that of a directory on the way, or a link leads to nothing. -/
  | absent : d.Refuses file.path .notFound → Passes d file
  /-- Something other than a plain file is there. -/
  | other {loc : Location} {e : Entry} :
      d.find file.path = .ok (loc, e) → (∀ bytes, e ≠ .file bytes) → Passes d file

/-- How a listed file is in the way. -/
inductive Offends (d : Disk) (file : LegacyPath) : Failure → Prop
  | plain {loc : Location} {bytes : ByteArray} :
      d.find file.path = .ok (loc, .file bytes) → Offends d file file.conflict
  /-- It cannot be looked at, for another reason than that it is not there. -/
  | fault {fault : Disk.Fault} : d.Refuses file.path fault → fault ≠ .notFound →
      Offends d file (.ofFault (.inspectLegacy file.path) fault)

end LegacyPath

theorem checkLegacyPath_of_passes (h : file.Passes d) : checkLegacyPath d file = .ok () := by
  rw [checkLegacyPath]
  cases h with
  | absent hrefuses => rw [Disk.find_eq_error_iff.2 hrefuses]
  | @other loc e hfind hno =>
    rw [hfind]
    cases e with
    | file bytes => exact absurd rfl (hno bytes)
    | directory | link target => rfl

theorem checkLegacyPath_of_offends (h : file.Offends d f) : checkLegacyPath d file = .error f := by
  rw [checkLegacyPath]
  cases h with
  | plain hfind =>
    rw [hfind]
    rfl
  | @fault fault hrefuses hno =>
    rw [Disk.find_eq_error_iff.2 hrefuses]
    cases fault with
    | notFound => exact absurd rfl hno
    | _ => rfl

/-- Every file passes or offends. -/
theorem LegacyPath.passes_or_offends (d : Disk) (file : LegacyPath) :
    file.Passes d ∨ ∃ f, file.Offends d f := by
  rcases hfind : d.find file.path with fault | ⟨loc, - | bytes | target⟩
  · have hrefuses := Disk.find_eq_error_iff.1 hfind
    by_cases hfault : fault = .notFound
    · exact .inl (.absent (hfault ▸ hrefuses))
    · exact .inr ⟨_, .fault hrefuses hfault⟩
  · exact .inl (.other hfind nofun)
  · exact .inr ⟨_, .plain hfind⟩
  · exact .inl (.other hfind nofun)

theorem checkLegacyPath_eq_ok_iff_passes : checkLegacyPath d file = .ok () ↔ file.Passes d := by
  constructor
  · intro h
    rcases file.passes_or_offends d with hpasses | ⟨f, hoffends⟩
    · exact hpasses
    · cases h.symm.trans (checkLegacyPath_of_offends hoffends)
  · exact checkLegacyPath_of_passes

theorem checkLegacyPath_eq_error_iff : checkLegacyPath d file = .error f ↔ file.Offends d f := by
  constructor
  · intro h
    rcases file.passes_or_offends d with hpasses | ⟨g, hoffends⟩
    · cases h.symm.trans (checkLegacyPath_of_passes hpasses)
    · obtain rfl : f = g := Except.error.inj (h.symm.trans (checkLegacyPath_of_offends hoffends))
      exact hoffends
  · exact checkLegacyPath_of_offends

/-- A file that passes is in nobody's way. -/
theorem LegacyPath.passes_iff_isClear : file.Passes d ↔ file.IsClear d := by
  rw [← checkLegacyPath_eq_ok_iff, checkLegacyPath_eq_ok_iff_passes]

/-! ### One file after the other -/

theorem checkLegacy_append (d : Disk) (files more : List LegacyPath) :
    checkLegacy d (files ++ more) = (checkLegacy d files >>= fun _ => checkLegacy d more) := by
  induction files with
  | nil => rfl
  | cons file files ih =>
    rw [List.cons_append, checkLegacy, checkLegacy, ih]
    rcases checkLegacyPath d file with f | ⟨⟩ <;> rfl

theorem checkLegacy_eq_ok_iff_passes :
    checkLegacy d files = .ok () ↔ ∀ file ∈ files, file.Passes d := by
  rw [checkLegacy_eq_ok_iff]
  apply forall₂_congr
  intro file _
  exact file.passes_iff_isClear.symm

/-- The first file that offends decides the failure. -/
theorem checkLegacy_eq_error_iff : checkLegacy d files = .error f ↔
    ∃ before file after, files = before ++ file :: after ∧ (∀ g ∈ before, g.Passes d) ∧
      file.Offends d f := by
  constructor
  · intro h
    induction files with
    | nil => cases h
    | cons file files ih =>
      rw [checkLegacy] at h
      rcases hfile : checkLegacyPath d file with f' | ⟨⟩
      · rw [hfile, error_bind] at h
        obtain rfl : f' = f := Except.error.inj h
        exact ⟨[], file, files, rfl, by simp, checkLegacyPath_eq_error_iff.1 hfile⟩
      · rw [hfile, ok_bind] at h
        obtain ⟨before, offender, after, rfl, hbefore, hoffends⟩ := ih h
        exact ⟨file :: before, offender, after, rfl,
          List.forall_mem_cons.2 ⟨checkLegacyPath_eq_ok_iff_passes.1 hfile, hbefore⟩, hoffends⟩
  · rintro ⟨before, file, after, rfl, hbefore, hoffends⟩
    rw [checkLegacy_append, checkLegacy_eq_ok_iff_passes.2 hbefore, ok_bind, checkLegacy,
      checkLegacyPath_eq_error_iff.2 hoffends, error_bind]

/-! ### The verdict -/

/-- The guard passes a list just if every file on it passes, and fails as the first file that
offends does; the failure names that file, and a plain file is suggested for removal under its
name.  The order of a list does not decide whether it passes, and a list is checked as its parts
are in turn. -/
theorem checkLegacy_verdict (d : Disk) :
    (∀ files, checkLegacy d files = .ok () ↔ ∀ file ∈ files, file.Passes d) ∧
    (∀ files f, checkLegacy d files = .error f ↔
      ∃ before file after, files = before ++ file :: after ∧ (∀ g ∈ before, g.Passes d) ∧
        file.Offends d f) ∧
    (∀ file : LegacyPath, file.conflict.suggestions = ["Remove the existing " ++ file.name ++
      " file and try again, e.g. `rm " ++ file.name ++ "`"]) ∧
    (∀ p fault, (Failure.ofFault (.inspectLegacy p) fault).chain =
      ["inspect legacy path: " ++ p.quoted, fault.message]) ∧
    (∀ files files' : List LegacyPath, files.Perm files' →
      (checkLegacy d files = .ok () ↔ checkLegacy d files' = .ok ())) ∧
    ∀ files more, checkLegacy d (files ++ more) =
      (checkLegacy d files >>= fun _ => checkLegacy d more) := by
  refine ⟨fun files => checkLegacy_eq_ok_iff_passes, fun files f => checkLegacy_eq_error_iff,
    fun file => rfl, fun p fault => rfl, fun files files' hperm => ?_, checkLegacy_append d⟩
  rw [checkLegacy_eq_ok_iff_passes, checkLegacy_eq_ok_iff_passes]
  apply forall_congr'
  intro file
  rw [hperm.mem_iff]

/-- The names of a link that leads to nothing and of one that leads to itself. -/
def looseName : Disk.Name := ⟨"loose".toUTF8.data.toList, by decide +kernel⟩

@[inherit_doc looseName]
def loopName : Disk.Name := ⟨"loop".toUTF8.data.toList, by decide +kernel⟩

/-- A disk with a plain file and two links in one directory. -/
def crowded : Disk :=
  ((writeAll .empty [⟨"out/plain", "old rules"⟩]).disk.put looseName [outName] (.link "gone")).put
    loopName [outName] (.link "loop")

/-- Files that are in nobody's way there, and two that are. -/
def harmlessFiles : List LegacyPath :=
  [⟨"out/none", "none"⟩, ⟨"out/loose", "loose"⟩, ⟨"out", "out"⟩]

@[inherit_doc harmlessFiles]
def loopFile : LegacyPath := ⟨"out/loop", "loop"⟩

@[inherit_doc harmlessFiles]
def plainFile : LegacyPath := ⟨"out/plain", "plain"⟩

theorem checkLegacy_verdict_crowded :
    harmlessFiles.reverse.Perm harmlessFiles ∧
    checkLegacy crowded harmlessFiles = .ok () ∧
    checkLegacy crowded (harmlessFiles ++ [loopFile, plainFile]) =
      .error (.ofFault (.inspectLegacy "out/loop") .tooManyLinks) ∧
    checkLegacy crowded (harmlessFiles ++ [plainFile, loopFile]) = .error plainFile.conflict := by
  have hperm : harmlessFiles.reverse.Perm harmlessFiles := harmlessFiles.reverse_perm
  have hreverse : checkLegacy crowded harmlessFiles.reverse = .ok () := by decide +kernel
  have hloop : loopFile.Offends crowded (.ofFault (.inspectLegacy "out/loop") .tooManyLinks) :=
    .fault (Disk.find_eq_error_iff.1 (by decide +kernel)) (by decide)
  have hplain : plainFile.Offends crowded plainFile.conflict := by
    obtain ⟨⟨loc, e⟩, hfind, rfl⟩ : ∃ x, crowded.find plainFile.path = .ok x ∧
        x.2 = .file "old rules".toUTF8 := map_eq_ok_iff.1 (by decide +kernel)
    exact .plain hfind
  obtain ⟨hok, herror, -, -, horder, -⟩ := checkLegacy_verdict crowded
  have hharmless : checkLegacy crowded harmlessFiles = .ok () := (horder _ _ hperm).1 hreverse
  have hbefore := (hok _).1 hharmless
  exact ⟨hperm, hharmless, (herror _ _).2 ⟨_, loopFile, [plainFile], rfl, hbefore, hloop⟩,
    (herror _ _).2 ⟨_, plainFile, [loopFile], rfl, hbefore, hplain⟩⟩

end Rulebook
