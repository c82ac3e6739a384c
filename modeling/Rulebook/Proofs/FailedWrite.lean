/-
Rulebook/Proofs/FailedWrite.lean

Compile runs that get as far as writing.  Such a run has planned and passed the guard, and
from there on it ends as the writing does (`compile_eq`), which it tells of file by file:
planning itself tells of nothing that is generated (`count_log_plan`).

Main result `compile_writes_prefix`: whatever is registered and whatever is on the disk,
links included, a run writes the first files of its plan, all of them if it ends well.  If
it does not, new directories on the way to the next file are all that it leaves besides.
Of what was there before nothing is lost, and no file is changed but by a file of the plan
whose path leads there.
-/
import Rulebook.Proofs.Compilation
import Rulebook.Proofs.RulesDirectory
import Rulebook.Proofs.Written

namespace Rulebook

open Disk (DirsMade)

variable {d d' : Disk} {r : Registry} {input root : Path} {outputs : List Output}

/-! ### Events -/

/-- Planning tells of no file. -/
theorem count_log_plan {event : Event} (h : event = .generated ∨ event = .previewed) :
    (plan d r input root).log.count event = 0 := by
  refine List.count_eq_zero.2 fun hmem => ?_
  rcases mem_log_loadRules (show event ∈ (loadRules d (input / rulesDir)).log from hmem) with
    rfl | rfl <;> simp at h

/-- A run that has planned and passed the guard is the writing, after what planning told. -/
theorem compile_eq (hplan : (plan d r input root).result = .ok outputs)
    (hguard : guardLegacy d r root = .ok ()) :
    compile d r input root =
      { writeAll d (plannedFiles outputs) with
        log := (plan d r input root).log ++ (writeAll d (plannedFiles outputs)).log } := by
  simp only [compile, hplan, hguard, ok_bind, pure, Except.pure]

/-- A run that ends well has written its whole plan. -/
theorem compile_eq_complete {paths : List Path} (h : (compile d r input root).result = .ok paths) :
    ∃ outputs d', (plan d r input root).result = .ok outputs ∧ guardLegacy d r root = .ok () ∧
      WroteAll d (plannedFiles outputs) d' ∧
      compile d r input root =
        { complete (plannedFiles outputs) d' with
          log := (plan d r input root).log ++ (complete (plannedFiles outputs) d').log } := by
  rcases compile_cases d r input root with ⟨f, herr, -⟩ | ⟨outputs, hplan, hguard, hresult, -⟩
  · exact absurd (herr.symm.trans h) nofun
  · obtain ⟨d', hwrote, hcomplete⟩ := exists_writeAll_eq_complete (hresult.symm.trans h)
    exact ⟨outputs, d', hplan, hguard, hwrote, by rw [compile_eq hplan hguard, hcomplete]⟩

/-! ### Files written, and what is left besides -/

/-- What was there before a row of files was written, and before directories were made on
the way to one more, is there still, but for bytes of files to which paths of the row
lead. -/
theorem WroteAll.kept_or_written {files : List OutputFile} {ps : List Path} {d'' : Disk}
    {loc : Location} {e : Entry} (h : WroteAll d files d') (hmade : DirsMade d' ps d'')
    (he : d.entryAt loc = some e) :
    d''.entryAt loc = some e ∨ ∃ old, e = .file old ∧ ∃ file ∈ files,
      d''.find file.path = .ok (loc, .file file.content.toUTF8) := by
  have hthere : d'.entryAt loc ≠ none := h.retains.ne_none (by simp [he])
  have hkept : d''.entryAt loc = d'.entryAt loc := hmade.entryAt_of_ne_none hthere
  cases h.fate loc with
  | kept hsame => exact .inl (by rw [hkept, hsame, he])
  | made hnone => simp [he] at hnone
  | @written file hold hfile hreach =>
    obtain ⟨old, rfl⟩ := hold e he
    have hstands : d''.entryAt loc = _ := hkept.trans (Disk.entryAt_of_reach hreach)
    exact .inr ⟨old, rfl, file, hfile,
      Disk.find_of_reach (hmade.retains.reach hreach hstands nofun)⟩

/-- However a run ends, it has written files of its plan, and made directories at most after
that. -/
theorem compile_disk (d : Disk) (r : Registry) (input root : Path) :
    ∃ wrote d' ps, WroteAll d wrote d' ∧ DirsMade d' ps (compile d r input root).disk ∧
      ∀ file ∈ wrote, ∃ outputs, (plan d r input root).result = .ok outputs ∧
        file ∈ plannedFiles outputs := by
  rcases compile_cases d r input root with ⟨f, -, hdisk⟩ | ⟨outputs, hplan, -, -, hdisk⟩
  · exact ⟨[], d, [], .nil, by rw [hdisk]; exact .refl d _, by simp⟩
  · obtain ⟨wrote, d', ps, hsub, hwrote, hmade⟩ := writeAll_disk d (plannedFiles outputs)
    rw [← hdisk] at hmade
    exact ⟨wrote, d', ps, hwrote, hmade, fun file hfile => ⟨outputs, hplan, hsub hfile⟩⟩

/-- How a run over some files can go: it writes the first `k`, with which the disk is `d'`,
and is stopped by the next if there is one. -/
structure StopsAfter (d : Disk) (files : List OutputFile) (run : Outcome (List Path)) (k : Nat)
    (d' : Disk) : Prop where
  le : k ≤ files.length
  /-- Writing no more than the first `k` files ends well, with this disk. -/
  first : writeAll d (files.take k) = complete (files.take k) d'
  /-- What that comes to, file by file. -/
  wrote : WroteAll d (files.take k) d'
  /-- The run ends well when it has written all files. -/
  ok_iff : (∃ paths, run.result = .ok paths) ↔ k = files.length
  disk : k = files.length → run.disk = d'
  /-- Of the file that cannot be written there are directories at most. -/
  left : ∀ file, files[k]? = some file → DirsMade d' file.parents run.disk
  /-- It tells of each file written. -/
  count_log : run.log.count .generated = k
  /-- What was there is there still, but for bytes of files to which paths of files lead
  that were written. -/
  kept : ∀ loc e, d.entryAt loc = some e → run.disk.entryAt loc = some e ∨
    ∃ old, e = .file old ∧ ∃ file ∈ files.take k,
      run.disk.find file.path = .ok (loc, .file file.content.toUTF8)

/-- A run that gets as far as writing writes the first files of its plan, and ends well if
these are all.  If not, new directories on the way to the next file are all that is left
besides. -/
theorem compile_writes_prefix (hplan : (plan d r input root).result = .ok outputs)
    (hguard : guardLegacy d r root = .ok ()) :
    ∃ k d', StopsAfter d (plannedFiles outputs) (compile d r input root) k d' := by
  obtain ⟨k, d', hwrote, hfirst, hlog, hend⟩ := writeAll_cases d (plannedFiles outputs)
  have hcount : (compile d r input root).log.count .generated = k := by
    rw [compile_eq hplan hguard]
    simp [count_log_plan, hlog]
  rw [compile_eq hplan hguard] at hcount ⊢
  rcases hend with rfl | ⟨file, f, hfile, herr, hmade⟩
  · have hrun := hfirst
    rw [List.take_length] at hrun
    rw [hrun] at hcount ⊢
    exact ⟨_, d', {
      le := Nat.le_refl _
      first := hfirst
      wrote := hwrote
      ok_iff := ⟨fun _ => rfl, fun _ => ⟨_, rfl⟩⟩
      disk := fun _ => rfl
      left := by simp
      count_log := hcount
      kept := fun loc e he => hwrote.kept_or_written (.refl _ []) he }⟩
  · have hk : k < (plannedFiles outputs).length := (List.getElem?_eq_some_iff.1 hfile).1
    refine ⟨k, d', {
      le := hk.le
      first := hfirst
      wrote := hwrote
      ok_iff := ⟨?_, fun h => absurd h hk.ne⟩
      disk := fun h => absurd h hk.ne
      left := ?_
      count_log := hcount
      kept := fun loc e he => hwrote.kept_or_written hmade he }⟩
    · rintro ⟨paths, hok⟩
      exact absurd (herr.symm.trans hok) nofun
    · intro file' hfile'
      obtain rfl : file = file' := Option.some.inj (hfile.symm.trans hfile')
      exact hmade

/-- The disk with one document, and a file where the last directory is to be made. -/
def oneRuleStopped : Disk := (writeAll oneRule [⟨"out/.cursor", "text"⟩]).disk

theorem compile_writes_prefix_oneRuleStopped :
    ∃ outputs, (plan oneRuleStopped .standard "in" "out").result = .ok outputs ∧
      guardLegacy oneRuleStopped .standard "out" = .ok () ∧
      ∃ d', StopsAfter oneRuleStopped (plannedFiles outputs)
        (compile oneRuleStopped .standard "in" "out") 2 d' := by
  have hok : (plan oneRuleStopped .standard "in" "out").result.map (fun _ => ()) = .ok () := by
    decide +kernel
  have hguard : guardLegacy oneRuleStopped .standard "out" = .ok () := by decide +kernel
  have hlog : (compile oneRuleStopped .standard "in" "out").log.count .generated = 2 := by
    decide +kernel
  obtain ⟨outputs, hplan, -⟩ := map_eq_ok_iff.1 hok
  obtain ⟨k, d', h⟩ := compile_writes_prefix hplan hguard
  obtain rfl : k = 2 := h.count_log.symm.trans hlog
  exact ⟨outputs, hplan, hguard, d', h⟩

end Rulebook
