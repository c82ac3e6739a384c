/-
Rulebook/Proofs/Compilation.lean

The stages of a compile run.  A run plans, looks for legacy files of all assistants,
and then writes; `compile_cases` says how it can end.  The first two stages only look
at the disk, so a run that is stopped there leaves the disk as it was, and a disk that
is not as it was shows that both stages had passed (`compile_untouched`).

A failure tells in which stage it arose: what is refused, and what the run was doing.
Writing fails in two activities of its own (`writeAll_error`), none of which is met
before.
-/
import Rulebook.Compilation
import Rulebook.Proofs.Outcome

namespace Rulebook

/-! ### Legacy files -/

/-- Whether a legacy file is in nobody's way: it is no plain file, and if it cannot be
inspected it is because it is not there. -/
structure LegacyPath.IsClear (d : Disk) (file : LegacyPath) : Prop where
  not_file : ∀ loc bytes, d.find file.path ≠ .ok (loc, .file bytes)
  notFound : ∀ fault, d.find file.path = .error fault → fault = .notFound

theorem checkLegacyPath_eq_ok_iff {d : Disk} {file : LegacyPath} :
    checkLegacyPath d file = .ok () ↔ file.IsClear d := by
  rw [checkLegacyPath]
  constructor
  · intro h
    refine ⟨fun loc bytes hf => by simp [hf] at h, fun fault hf => ?_⟩
    rcases fault <;> simp [hf] at h ⊢
  · rintro ⟨hfile, hfault⟩
    rcases hf : d.find file.path with fault | ⟨loc, - | bytes | target⟩
    · rw [hfault fault hf]
    · rfl
    · exact absurd hf (hfile loc bytes)
    · rfl

/-- The guard lets a run pass when no legacy file is in the way. -/
theorem checkLegacy_eq_ok_iff {d : Disk} {files : List LegacyPath} :
    checkLegacy d files = .ok () ↔ ∀ file ∈ files, file.IsClear d := by
  induction files with
  | nil => simp [checkLegacy]
  | cons file rest ih =>
    rw [checkLegacy, bind_eq_ok_iff, List.forall_mem_cons, ← checkLegacyPath_eq_ok_iff, ← ih]
    exact ⟨fun ⟨⟨⟩, hfile, hrest⟩ => ⟨hfile, hrest⟩, fun ⟨hfile, hrest⟩ => ⟨(), hfile, hrest⟩⟩

theorem generator_eq_ok_iff {r : Registry} {a : Assistant} {g : Generator} :
    r.generator a = .ok g ↔ r.get? a = some g := by
  rw [Registry.generator]
  rcases r.get? a with - | g' <;> simp

/-- The legacy files of some assistants are those of all their generators. -/
theorem mem_legacyPathsFor {r : Registry} {root : Path} {as : List Assistant}
    {files : List LegacyPath} (h : legacyPathsFor r root as = .ok files) {file : LegacyPath} :
    file ∈ files ↔ ∃ a ∈ as, ∃ g, r.get? a = some g ∧ file ∈ g.legacyPaths root := by
  induction as generalizing files with
  | nil =>
    obtain rfl : [] = files := by simpa [legacyPathsFor] using h
    simp
  | cons a rest ih =>
    obtain ⟨g, hg, h⟩ := bind_eq_ok_iff.1 h
    obtain ⟨later, hlater, h⟩ := bind_eq_ok_iff.1 h
    obtain rfl : g.legacyPaths root ++ later = files := by simpa [pure, Except.pure] using h
    have hg : r.get? a = some g := generator_eq_ok_iff.1 hg
    simp [ih hlater, hg]

theorem exists_legacyPathsFor_iff {r : Registry} {root : Path} {as : List Assistant} :
    (∃ files, legacyPathsFor r root as = .ok files) ↔ ∀ a ∈ as, ∃ g, r.get? a = some g := by
  induction as with
  | nil => simp [legacyPathsFor]
  | cons a rest ih =>
    rw [List.forall_mem_cons, ← ih]
    constructor
    · rintro ⟨files, h⟩
      obtain ⟨g, hg, h⟩ := bind_eq_ok_iff.1 h
      obtain ⟨later, hlater, -⟩ := bind_eq_ok_iff.1 h
      exact ⟨⟨g, generator_eq_ok_iff.1 hg⟩, later, hlater⟩
    · rintro ⟨⟨g, hg⟩, later, hlater⟩
      exact ⟨g.legacyPaths root ++ later,
        bind_eq_ok_iff.2 ⟨g, generator_eq_ok_iff.2 hg, bind_eq_ok_iff.2 ⟨later, hlater, rfl⟩⟩⟩

/-- A run passes the guard when every assistant has a generator, and none of the legacy
files of any generator is in the way, whether the generator makes files or not. -/
theorem guardLegacy_eq_ok_iff {d : Disk} {r : Registry} {root : Path} :
    guardLegacy d r root = .ok () ↔
      ∀ a, ∃ g, r.get? a = some g ∧ ∀ file ∈ g.legacyPaths root, file.IsClear d := by
  rw [guardLegacy, bind_eq_ok_iff]
  simp only [mapError_eq_ok_iff, checkLegacy_eq_ok_iff]
  constructor
  · rintro ⟨files, hfiles, hclear⟩ a
    obtain ⟨g, hg⟩ := exists_legacyPathsFor_iff.1 ⟨files, hfiles⟩ a (Assistant.mem_all a)
    exact ⟨g, hg, fun file hf =>
      hclear file ((mem_legacyPathsFor hfiles).2 ⟨a, Assistant.mem_all a, g, hg, hf⟩)⟩
  · intro h
    have hall : ∀ a ∈ Assistant.all, ∃ g, r.get? a = some g := by
      intro a _
      obtain ⟨g, hg, -⟩ := h a
      exact ⟨g, hg⟩
    obtain ⟨files, hfiles⟩ := exists_legacyPathsFor_iff.2 hall
    refine ⟨files, hfiles, fun file hf => ?_⟩
    obtain ⟨a, -, g, hg, hmem⟩ := (mem_legacyPathsFor hfiles).1 hf
    obtain ⟨g', hg', hclear⟩ := h a
    obtain rfl : g = g' := Option.some.inj (hg.symm.trans hg')
    exact hclear file hmem

/-! ### How a run ends -/

/-- A run that has planned and passed the guard ends as the writing does. -/
theorem compile_eq_writeAll {d : Disk} {r : Registry} {input root : Path} {outputs : List Output}
    (hplan : (plan d r input root).result = .ok outputs) (hguard : guardLegacy d r root = .ok ()) :
    (compile d r input root).result = (writeAll d (plannedFiles outputs)).result ∧
      (compile d r input root).disk = (writeAll d (plannedFiles outputs)).disk := by
  simp only [compile, hplan, hguard, ok_bind, pure, Except.pure, and_self]

/-- A run is stopped before it writes, or it has planned and passed the guard, and ends
as the writing does. -/
theorem compile_cases (d : Disk) (r : Registry) (input root : Path) :
    (∃ f, (compile d r input root).result = .error f ∧ (compile d r input root).disk = d) ∨
    (∃ outputs, (plan d r input root).result = .ok outputs ∧ guardLegacy d r root = .ok () ∧
      (compile d r input root).result = (writeAll d (plannedFiles outputs)).result ∧
      (compile d r input root).disk = (writeAll d (plannedFiles outputs)).disk) := by
  rcases hp : (plan d r input root).result with f | outputs
  · refine .inl ⟨f, ?_⟩
    simp only [compile, hp, error_bind, and_self]
  · rcases hg : guardLegacy d r root with f | ⟨⟩
    · refine .inl ⟨f, ?_⟩
      simp only [compile, hp, hg, ok_bind, error_bind, and_self]
    · exact .inr ⟨outputs, rfl, rfl, compile_eq_writeAll hp hg⟩

/-! ### Failures -/

/-- What a run does before it writes anything. -/
def Activity.isLooking : Activity → Bool
  | .listRules _ | .readDocument _ | .readIgnore _ | .inspectLegacy _ => true
  | _ => false

/-- What a run refuses before it writes anything. -/
def Cause.isRefusal : Cause → Bool
  | .missingInput _ | .legacyConflict _ _ | .unregistered _ => true
  | _ => false

/-- Whether a failure is a refusal, or was met while looking at the rules, the ignore
patterns or a legacy file. -/
def Failure.IsEarly (f : Failure) : Prop :=
  f.cause.isRefusal = true ∨ ∃ a ∈ f.during, a.isLooking = true

theorem writeGenerated_error {d : Disk} {file : OutputFile} {f : Failure}
    (h : (writeGenerated d file).2 = .error f) : ¬ f.IsEarly := by
  -- making a directory and writing a file are not done while looking
  have hlate : ∀ (a : Activity) (fault : Disk.Fault), a.isLooking = false →
      ¬ (Failure.ofFault a fault).IsEarly := by
    intro a fault ha
    simp [Failure.IsEarly, Failure.ofFault, Cause.isRefusal, ha]
  rw [writeGenerated] at h
  rcases hm : makeRoom d file with ⟨d', f' | ⟨⟩⟩
  · rw [hm] at h
    obtain rfl : f' = f := by simpa using h
    rw [makeRoom] at hm
    rcases hp : file.path.parent? with - | dir
    · simp [hp] at hm
    · rcases hd : d.makeDirs dir with ⟨d'', fault | ⟨⟩⟩
      · simp only [hp, hd, mapError_error, Prod.mk.injEq, Except.error.injEq] at hm
        exact hm.2 ▸ hlate _ fault rfl
      · simp [hp, hd] at hm
  · rw [hm] at h
    rcases hw : d'.writeText file.path file.content with fault | d''
    · simp only [hw, Except.error.injEq] at h
      exact h ▸ hlate _ fault rfl
    · simp [hw] at h

/-- A failure of writing is none of the stages before. -/
theorem writeAll_error {d : Disk} {files : List OutputFile} {f : Failure}
    (h : (writeAll d files).result = .error f) : ¬ f.IsEarly := by
  induction files generalizing d with
  | nil => simp [writeAll] at h
  | cons file rest ih =>
    rw [writeAll] at h
    rcases hw : writeGenerated d file with ⟨d', f' | ⟨⟩⟩
    · rw [hw] at h
      obtain rfl : f' = f := by simpa using h
      exact writeGenerated_error (by rw [hw])
    · rw [hw] at h
      exact ih (by simpa using h)

/-! ### Untouched disks -/

/-- A run that is stopped by a refusal, or while it looks at the rules, the ignore
patterns or a legacy file, leaves the disk as it was.  Where an entry is not as it was,
whether the run ended well or not, planning had succeeded, and no legacy file of any
assistant's generator was in the way. -/
theorem compile_untouched (d : Disk) (r : Registry) (input root : Path) :
    (∀ f, (compile d r input root).result = .error f → f.IsEarly →
      (compile d r input root).disk = d) ∧
    ∀ loc, (compile d r input root).disk.entryAt loc ≠ d.entryAt loc →
      (∃ outputs, (plan d r input root).result = .ok outputs) ∧
        ∀ a, ∃ g, r.get? a = some g ∧ ∀ file ∈ g.legacyPaths root, file.IsClear d := by
  rcases compile_cases d r input root with ⟨f, -, hdisk⟩ | ⟨outputs, hplan, hguard, hres, -⟩
  · exact ⟨fun _ _ _ => hdisk, fun loc hne => absurd (by rw [hdisk]) hne⟩
  · constructor
    · intro f hf hearly
      exact absurd hearly (writeAll_error (hres ▸ hf))
    · intro loc _
      exact ⟨⟨outputs, hplan⟩, guardLegacy_eq_ok_iff.1 hguard⟩

/-- A disk with one document of rules. -/
def oneRule : Disk := (writeAll .empty [⟨"in/rules/a.md", "text"⟩]).disk

/-- The same disk with a file where a directory is to be made. -/
def oneRuleBlocked : Disk := (writeAll oneRule [⟨"out/.clinerules", "old rules"⟩]).disk

/-- How compiling ends on it. -/
def conflict : Failure where
  during := [.checkLegacy]
  cause := .legacyConflict "out/.clinerules" ".clinerules"
  hints := [.removeLegacy ".clinerules"]

/-- The name of the output directory. -/
def outName : Disk.Name := ⟨"out".toUTF8.data.toList, by decide +kernel⟩

theorem compile_untouched_oneRule :
    (compile oneRuleBlocked .standard "in" "out").disk = oneRuleBlocked ∧
      (∃ outputs, (plan oneRule .standard "in" "out").result = .ok outputs) ∧
      ∀ a, ∃ g, Registry.standard.get? a = some g ∧
        ∀ file ∈ g.legacyPaths "out", file.IsClear oneRule :=
  ⟨(compile_untouched oneRuleBlocked .standard "in" "out").1 conflict
      (by decide +kernel) (.inl rfl),
    (compile_untouched oneRule .standard "in" "out").2 [outName] (by decide +kernel)⟩

end Rulebook
