/-
Rulebook/Proofs/Planning.lean

When planning succeeds, and how it fails.  Three things have to be there: rule documents that
can be loaded, ignore patterns that can be read unless there are none, and a generator for
every assistant.  `Plans` says what planning should come to: the first of the three that is
wanting decides the failure, and where none is, there is an output for each assistant
(`Output.IsMadeBy`).

Reading patterns is taken apart first (`readIgnore_eq_none_iff`, `readIgnore_eq_error_iff`),
then the row of generators, which fails at the first assistant without one
(`outputsFor_eq_error_iff`).

Main result `plan_comes_to`: planning comes to what `Plans` says, and to nothing else.  Where
it has succeeded, compiling finds the generators again, and is never stopped for want of one.
-/
import Rulebook.Proofs.Layouts
import Rulebook.Proofs.LegacyVerdict
import Rulebook.Proofs.Sources

namespace Rulebook

open Disk (Leads Name Place Step maxLinks origin steps walk)
open Text

variable {d : Disk} {r : Registry} {g : Generator} {input root p : Path} {ds : List Document}
variable {patterns : Option String} {outputs : List Output} {output : Output} {f : Failure}
variable {as : List Assistant} {result : Except Failure (List Output)}

/-! ### Reading patterns -/

/-- What ignore patterns are read at a path. -/
inductive ReadsIgnore (d : Disk) (p : Path) : Option String → Prop
  /-- The text of the file that the path leads to. -/
  | text {loc : Location} {text : String} :
      d.find p = .ok (loc, .file text.toUTF8) → ReadsIgnore d p (some text)
  /-- None, if the path leads to nothing. -/
  | absent : d.find p = .error .notFound → ReadsIgnore d p none

/-- Why ignore patterns cannot be read at a path. -/
inductive RefusesIgnore (d : Disk) (p : Path) : Disk.Fault → Prop
  | unreachable {fault : Disk.Fault} :
      d.find p = .error fault → fault ≠ .notFound → RefusesIgnore d p fault
  | directory {loc : Location} : d.find p = .ok (loc, .directory) → RefusesIgnore d p .isDirectory
  | notText {loc : Location} {bytes : ByteArray} :
      d.find p = .ok (loc, .file bytes) → String.fromUTF8? bytes = none →
        RefusesIgnore d p .notText

/-- A text that is not found is at a path that leads to nothing. -/
theorem readText_eq_notFound_iff :
    d.readText p = .error .notFound ↔ d.find p = .error .notFound := by
  rw [Disk.readText]
  rcases hfind : d.find p with fault | ⟨loc, - | bytes | target⟩
  · simp
  · simp [Disk.Entry.text]
  · rcases hutf : String.fromUTF8? bytes with - | text <;> simp [Disk.Entry.text, hutf]
  · exact absurd hfind (Disk.find_ne_link d p loc target)

theorem readIgnore_eq_none_iff :
    readIgnore d p = .ok none ↔ d.find p = .error .notFound := by
  rw [← readText_eq_notFound_iff, readIgnore]
  rcases d.readText p with fault | text
  · cases fault <;> simp
  · simp

theorem readIgnore_eq_ok_iff : readIgnore d p = .ok patterns ↔ ReadsIgnore d p patterns := by
  rcases patterns with - | text
  · rw [readIgnore_eq_none_iff]
    exact ⟨.absent, fun | .absent h => h⟩
  · rw [readIgnore_eq_some_iff]
    exact ⟨fun ⟨_, h⟩ => .text h, fun | .text h => ⟨_, h⟩⟩

theorem readIgnore_eq_error_iff :
    readIgnore d p = .error f ↔
      ∃ fault, RefusesIgnore d p fault ∧ f = .ofFault (.readIgnore p) fault := by
  constructor
  · intro h
    rcases hfind : d.find p with fault | ⟨loc, - | bytes | target⟩
    · by_cases hfault : fault = .notFound
      · rw [readIgnore_eq_none_iff.2 (hfault ▸ hfind)] at h
        cases h
      · refine ⟨fault, .unreachable hfind hfault, ?_⟩
        rw [readIgnore, Disk.readText, hfind, error_bind] at h
        cases fault with
        | notFound => exact absurd rfl hfault
        | _ => exact (Except.error.inj h).symm
    · rw [readIgnore, Disk.readText, hfind] at h
      exact ⟨_, .directory hfind, (Except.error.inj h).symm⟩
    · rcases hutf : String.fromUTF8? bytes with - | text
      · simp only [readIgnore, Disk.readText, hfind, ok_bind, Disk.Entry.text, hutf] at h
        exact ⟨_, .notText hfind hutf, (Except.error.inj h).symm⟩
      · rw [fromUTF8?_eq_some_iff.1 hutf] at hfind
        rw [readIgnore_eq_ok_iff.2 (.text hfind)] at h
        cases h
    · exact absurd hfind (Disk.find_ne_link d p loc target)
  · rintro ⟨fault, hrefuses, rfl⟩
    rw [readIgnore, Disk.readText]
    cases hrefuses with
    | unreachable hfind hne =>
      rw [hfind, error_bind]
      cases fault with
      | notFound => exact absurd rfl hne
      | _ => rfl
    | directory hfind =>
      rw [hfind]
      rfl
    | notText hfind hutf => simp only [hfind, ok_bind, Disk.Entry.text, hutf]

/-- Whether the ignore file under an input root is a link that leads to nothing. -/
def IgnoreDangles (d : Disk) (input : Path) : Prop :=
  '\x00' ∉ input.chars ∧ ∃ k home target,
    Leads d maxLinks ((steps input).filter (· ≠ .slash)) (origin input d.here) (k + 1) home ∧
    d.entryAt (ignoreName :: home) = some (.link target) ∧
    (walk d .look k (steps target) (origin target home) >>= Place.found) = .error .notFound

/-- A link that leads to nothing is no ignore file. -/
theorem IgnoreDangles.find_eq (h : IgnoreDangles d input) :
    d.find (input / ignoreFile) = .error .notFound := by
  obtain ⟨hnul, k, home, target, hleads, hlink, hnone⟩ := h
  have hreach := hleads.reach_below hnul .look (by simp) spelled_ignore.plain spelled_ignore.nul
  rw [div_ignoreFile, Disk.find, hreach, spelled_ignore.steps, List.map_singleton, Disk.walk_down,
    if_neg (by simp), hlink]
  show (walk d .look k (steps target ++ []) (origin target home) >>= Place.found) = _
  rw [List.append_nil]
  exact hnone

/-! ### Outputs in turn -/

theorem outputsFor_eq_ok_iff {as : List Assistant} :
    outputsFor r ds patterns root as = .ok outputs ↔
      ∃ gs : List Generator, gs.map (·.assistant) = as ∧ (∀ g ∈ gs, r.get? g.assistant = some g) ∧
        outputs = gs.map (·.output ds patterns root) := by
  induction as generalizing outputs with
  | nil =>
    constructor
    · intro h
      obtain rfl : [] = outputs := by simpa [outputsFor] using h
      exact ⟨[], rfl, by simp, rfl⟩
    · rintro ⟨gs, hgs, -, rfl⟩
      rw [List.map_eq_nil_iff.1 hgs]
      rfl
  | cons a as ih =>
    constructor
    · intro h
      obtain ⟨g, hg, h⟩ := bind_eq_ok_iff.1 h
      obtain ⟨rest, hrest, h⟩ := bind_eq_ok_iff.1 h
      obtain rfl : g.output ds patterns root :: rest = outputs := by
        simpa [pure, Except.pure] using h
      obtain ⟨gs, rfl, hgs, rfl⟩ := ih.1 hrest
      have hget := generator_eq_ok_iff.1 hg
      obtain rfl : g.assistant = a := r.assistant_eq _ _ hget
      exact ⟨g :: gs, rfl, List.forall_mem_cons.2 ⟨hget, hgs⟩, rfl⟩
    · rintro ⟨gs, hgs, hget, rfl⟩
      obtain ⟨g, gs, rfl, rfl, hrest⟩ := List.map_eq_cons_iff.1 hgs
      obtain ⟨hg, hget⟩ := List.forall_mem_cons.1 hget
      exact bind_eq_ok_iff.2 ⟨g, generator_eq_ok_iff.2 hg,
        bind_eq_ok_iff.2 ⟨_, ih.2 ⟨gs, hrest, hget, rfl⟩, rfl⟩⟩

/-- The first assistant without a generator decides how making outputs fails. -/
theorem outputsFor_eq_error_iff :
    outputsFor r ds patterns root as = .error f ↔
      ∃ before a after, as = before ++ a :: after ∧ (∀ b ∈ before, ∃ g, r.get? b = some g) ∧
        r.get? a = none ∧ f = { cause := .unregistered a } := by
  induction as with
  | nil => simp [outputsFor]
  | cons a as ih =>
    rw [outputsFor, Registry.generator]
    rcases hget : r.get? a with - | g
    · constructor
      · intro h
        exact ⟨[], a, as, rfl, by simp, hget, (Except.error.inj h).symm⟩
      · rintro ⟨before, b, after, heq, hbefore, hb, rfl⟩
        rcases before with - | ⟨c, before⟩
        · obtain ⟨rfl, -⟩ := List.cons.inj heq
          rfl
        · obtain ⟨rfl, -⟩ := List.cons.inj heq
          obtain ⟨g, hg⟩ := hbefore a List.mem_cons_self
          cases hget.symm.trans hg
    · have hrest : (Except.ok g >>= fun g => outputsFor r ds patterns root as >>= fun rest =>
          Except.ok (g.output ds patterns root :: rest)) = .error f ↔
          outputsFor r ds patterns root as = .error f := by
        rw [ok_bind]
        rcases outputsFor r ds patterns root as with f' | rest <;> simp
      refine hrest.trans (ih.trans ⟨?_, ?_⟩)
      · rintro ⟨before, b, after, rfl, hbefore, hb, hf⟩
        exact ⟨a :: before, b, after, rfl, List.forall_mem_cons.2 ⟨⟨g, hget⟩, hbefore⟩, hb, hf⟩
      · rintro ⟨before, b, after, heq, hbefore, hb, hf⟩
        rcases before with - | ⟨c, before⟩
        · obtain ⟨rfl, -⟩ := List.cons.inj heq
          cases hget.symm.trans hb
        · obtain ⟨rfl, rfl⟩ := List.cons.inj heq
          exact ⟨before, b, after, rfl, (List.forall_mem_cons.1 hbefore).2, hb, hf⟩

/-- Planning succeeds when the rules and the patterns can be read, and there is a generator for
every assistant. -/
theorem plan_eq_ok_iff :
    (plan d r input root).result = .ok outputs ↔
      ∃ ds patterns, (loadRules d (input / rulesDir)).result = .ok ds ∧
        readIgnore d (input / ignoreFile) = .ok patterns ∧
        ∃ gs : List Generator, gs.map (·.assistant) = Assistant.all ∧
          (∀ g ∈ gs, r.get? g.assistant = some g) ∧ outputs = gs.map (·.output ds patterns root) := by
  simp only [plan, bind_eq_ok_iff, Account.inside, mapError_eq_ok_iff, outputsFor_eq_ok_iff]
  constructor
  · rintro ⟨ds, hds, patterns, hpatterns, hgs⟩
    exact ⟨ds, patterns, hds, hpatterns, hgs⟩
  · rintro ⟨ds, patterns, hds, hpatterns, hgs⟩
    exact ⟨ds, hds, patterns, hpatterns, hgs⟩

/-! ### What an output holds -/

/-- Whether an output holds what a generator makes of some documents and patterns. -/
structure Output.IsMadeBy (output : Output) (g : Generator) (ds : List Document)
    (patterns : Option String) (root : Path) : Prop where
  assistant : output.assistant = g.assistant
  files : output.files = g.files ds root
  /-- There are no files just if nothing of any document is left for the assistant. -/
  files_eq_nil_iff : output.files = [] ↔ ∀ doc ∈ ds, doc.excerpt? output.assistant = none
  /-- Whether there are files or not, there is an ignore file if patterns have been read and
  the generator makes one of them, and it holds the patterns as they were read. -/
  ignore_iff : ∀ file, output.ignore = some file ↔
    g.makesIgnore = true ∧ file.path = g.ignorePath root ∧ patterns = some file.content

theorem ignore?_eq_some_iff {text : String} {file : OutputFile} :
    g.ignore? text root = some file ↔
      g.makesIgnore = true ∧ file.path = g.ignorePath root ∧ text = file.content := by
  rcases file with ⟨path, content⟩
  rw [Generator.ignore?]
  by_cases hmakes : g.makesIgnore = true
  · rw [if_pos hmakes, Option.some.injEq, OutputFile.mk.injEq]
    constructor
    · rintro ⟨rfl, rfl⟩
      exact ⟨hmakes, rfl, rfl⟩
    · rintro ⟨-, rfl, rfl⟩
      exact ⟨rfl, rfl⟩
  · simp [hmakes]

/-- An output that holds all this is the one that the generator makes. -/
theorem isMadeBy_iff : output.IsMadeBy g ds patterns root ↔ output = g.output ds patterns root := by
  have hignore : ∀ file, (g.output ds patterns root).ignore = some file ↔
      g.makesIgnore = true ∧ file.path = g.ignorePath root ∧ patterns = some file.content := by
    intro file
    rcases patterns with - | text
    · simp [Generator.output]
    · simpa [Generator.output] using ignore?_eq_some_iff
  constructor
  · intro h
    obtain ⟨assistant, files, ignore⟩ := output
    obtain rfl : assistant = g.assistant := h.assistant
    obtain rfl : files = g.files ds root := h.files
    obtain rfl : ignore = (g.output ds patterns root).ignore :=
      Option.ext fun file => (h.ignore_iff file).trans (hignore file).symm
    rfl
  · rintro rfl
    exact ⟨rfl, rfl, files_eq_nil_iff, hignore⟩

/-- Outputs that generators make are those of a row of generators. -/
theorem exists_generators (h : ∀ output ∈ outputs, ∃ g, r.get? output.assistant = some g ∧
      output.IsMadeBy g ds patterns root) :
    ∃ gs : List Generator, gs.map (·.assistant) = outputs.map (·.assistant) ∧
      (∀ g ∈ gs, r.get? g.assistant = some g) ∧ outputs = gs.map (·.output ds patterns root) := by
  induction outputs with
  | nil => exact ⟨[], rfl, by simp, rfl⟩
  | cons output outputs ih =>
    obtain ⟨⟨g, hget, hmade⟩, hrest⟩ := List.forall_mem_cons.1 h
    obtain ⟨gs, hgs, hget', rfl⟩ := ih hrest
    obtain rfl := isMadeBy_iff.1 hmade
    exact ⟨g :: gs, by rw [List.map_cons, List.map_cons, hgs]; rfl,
      List.forall_mem_cons.2 ⟨hget, hget'⟩, rfl⟩

/-! ### What planning comes to -/

/-- What planning should come to.  Of what is wanting, the first decides. -/
inductive Plans (d : Disk) (r : Registry) (input root : Path) :
    Except Failure (List Output) → Prop
  /-- The rules cannot be loaded. -/
  | noRules {f : Failure} : (loadRules d (input / rulesDir)).result = .error f →
      Plans d r input root (.error (f.inside .loadDocuments))
  /-- The rules can be loaded, but the ignore patterns cannot be read. -/
  | noPatterns {ds : List Document} {fault : Disk.Fault} :
      (loadRules d (input / rulesDir)).result = .ok ds →
      RefusesIgnore d (input / ignoreFile) fault →
        Plans d r input root (.error (.ofFault (.readIgnore (input / ignoreFile)) fault))
  /-- Both can, but there is an assistant without a generator, and the ones before it have
  theirs. -/
  | noGenerator {ds : List Document} {patterns : Option String} {before after : List Assistant}
      {a : Assistant} :
      (loadRules d (input / rulesDir)).result = .ok ds →
      ReadsIgnore d (input / ignoreFile) patterns →
      [.copilot, .cline, .cursor] = before ++ a :: after →
      (∀ b ∈ before, ∃ g, r.get? b = some g) → r.get? a = none →
        Plans d r input root (.error { cause := .unregistered a })
  /-- Nothing is wanting.  There are three outputs, each made by its assistant's generator. -/
  | planned {ds : List Document} {patterns : Option String} {outputs : List Output} :
      (loadRules d (input / rulesDir)).result = .ok ds →
      ReadsIgnore d (input / ignoreFile) patterns →
      outputs.map (·.assistant) = [.copilot, .cline, .cursor] →
      (∀ output ∈ outputs, ∃ g, r.get? output.assistant = some g ∧
        output.IsMadeBy g ds patterns root) →
        Plans d r input root (.ok outputs)

/-- Planning as one stage after the other. -/
theorem plan_result (d : Disk) (r : Registry) (input root : Path) :
    (plan d r input root).result =
      ((loadRules d (input / rulesDir)).result.mapError (·.inside .loadDocuments) >>= fun ds =>
        readIgnore d (input / ignoreFile) >>= fun patterns =>
          outputsFor r ds patterns root Assistant.all) := rfl

theorem Plans.result_eq (h : Plans d r input root result) :
    (plan d r input root).result = result := by
  rw [plan_result]
  cases h with
  | noRules hload => rw [hload, mapError_error, error_bind]
  | noPatterns hload hrefuses =>
    rw [hload, mapError_ok, ok_bind, readIgnore_eq_error_iff.2 ⟨_, hrefuses, rfl⟩, error_bind]
  | noGenerator hload hreads hall hbefore hnone =>
    rw [hload, mapError_ok, ok_bind, readIgnore_eq_ok_iff.2 hreads, ok_bind]
    exact outputsFor_eq_error_iff.2 ⟨_, _, _, hall, hbefore, hnone, rfl⟩
  | planned hload hreads hall hmade =>
    obtain ⟨gs, hgs, hget, rfl⟩ := exists_generators hmade
    rw [hload, mapError_ok, ok_bind, readIgnore_eq_ok_iff.2 hreads, ok_bind]
    exact outputsFor_eq_ok_iff.2 ⟨gs, hgs.trans hall, hget, rfl⟩

theorem plans_plan (d : Disk) (r : Registry) (input root : Path) :
    Plans d r input root (plan d r input root).result := by
  rw [plan_result]
  rcases hload : (loadRules d (input / rulesDir)).result with f | ds
  · exact .noRules hload
  · rw [mapError_ok, ok_bind]
    rcases hread : readIgnore d (input / ignoreFile) with f | patterns
    · obtain ⟨fault, hrefuses, rfl⟩ := readIgnore_eq_error_iff.1 hread
      exact .noPatterns hload hrefuses
    · have hreads := readIgnore_eq_ok_iff.1 hread
      rw [ok_bind]
      rcases hout : outputsFor r ds patterns root Assistant.all with f | outputs
      · obtain ⟨before, a, after, hall, hbefore, hnone, rfl⟩ := outputsFor_eq_error_iff.1 hout
        exact .noGenerator hload hreads hall hbefore hnone
      · obtain ⟨gs, hgs, hget, rfl⟩ := outputsFor_eq_ok_iff.1 hout
        refine .planned hload hreads ?_ fun output houtput => ?_
        · rw [List.map_map]
          exact hgs
        · obtain ⟨g, hg, rfl⟩ := List.mem_map.1 houtput
          exact ⟨g, hget g hg, isMadeBy_iff.2 rfl⟩

theorem plans_iff : Plans d r input root result ↔ (plan d r input root).result = result :=
  ⟨Plans.result_eq, fun h => h ▸ plans_plan d r input root⟩

/-- Planning succeeds when nothing is wanting. -/
theorem exists_plan_iff :
    (∃ outputs, (plan d r input root).result = .ok outputs) ↔
      (∃ ds, (loadRules d (input / rulesDir)).result = .ok ds) ∧
      (∃ patterns, ReadsIgnore d (input / ignoreFile) patterns) ∧
      ∀ a, ∃ g, r.get? a = some g := by
  constructor
  · rintro ⟨outputs, hplan⟩
    cases plans_iff.2 hplan with
    | @planned ds patterns _ hload hreads hall hmade =>
      refine ⟨⟨ds, hload⟩, ⟨patterns, hreads⟩, fun a => ?_⟩
      have ha : a ∈ outputs.map (·.assistant) := hall ▸ Assistant.mem_all a
      obtain ⟨output, houtput, rfl⟩ := List.mem_map.1 ha
      obtain ⟨g, hget, -⟩ := hmade output houtput
      exact ⟨g, hget⟩
  · rintro ⟨⟨ds, hload⟩, ⟨patterns, hreads⟩, hget⟩
    have hplans := plans_plan d r input root
    generalize (plan d r input root).result = result at hplans ⊢
    cases hplans with
    | noRules hno => cases hload.symm.trans hno
    | noPatterns _ hrefuses =>
      cases (readIgnore_eq_ok_iff.2 hreads).symm.trans
        (readIgnore_eq_error_iff.2 ⟨_, hrefuses, rfl⟩)
    | @noGenerator _ _ _ _ a _ _ _ _ hnone =>
      obtain ⟨g, hg⟩ := hget a
      cases hnone.symm.trans hg
    | planned _ _ _ _ => exact ⟨_, rfl⟩

/-! ### Looking generators up again -/

/-- A listed file stops the guard for reasons of its own. -/
theorem checkLegacy_error {files : List LegacyPath} (h : checkLegacy d files = .error f)
    (a : Assistant) : f.cause ≠ .unregistered a := by
  obtain ⟨-, file, -, -, -, hoffends⟩ := checkLegacy_eq_error_iff.1 h
  cases hoffends with
  | plain _ | fault _ _ => nofun

/-- A run that has planned is not stopped for want of a generator. -/
theorem compile_ne_unregistered (hplan : (plan d r input root).result = .ok outputs)
    (h : (compile d r input root).result = .error f) (a : Assistant) :
    f.cause ≠ .unregistered a := by
  intro hcause
  obtain ⟨-, -, hget⟩ := exists_plan_iff.1 ⟨outputs, hplan⟩
  obtain ⟨files, hfiles⟩ := exists_legacyPathsFor_iff.2 fun a (_ : a ∈ Assistant.all) => hget a
  have hguard : guardLegacy d r root = (checkLegacy d files).mapError (·.inside .checkLegacy) := by
    rw [guardLegacy, hfiles, ok_bind]
  rcases hcheck : checkLegacy d files with f' | ⟨⟩
  · rw [hcheck, mapError_error] at hguard
    obtain rfl : f'.inside .checkLegacy = f := by
      simpa only [compile, hplan, hguard, ok_bind, error_bind, Except.error.injEq] using h
    exact checkLegacy_error hcheck a hcause
  · rw [hcheck, mapError_ok] at hguard
    rw [(compile_eq_writeAll hplan hguard).1] at h
    exact writeAll_error h (.inl (by rw [hcause]; rfl))

/-! ### Planning -/

/-- Planning comes to what it should, and succeeds just if nothing is wanting; a link that leads
to nothing will do for no patterns.  Where planning has succeeded, compiling finds every
generator again. -/
theorem plan_comes_to (d : Disk) (r : Registry) (input root : Path) :
    (∀ result, Plans d r input root result ↔ (plan d r input root).result = result) ∧
    ((∃ outputs, (plan d r input root).result = .ok outputs) ↔
      (∃ ds, (loadRules d (input / rulesDir)).result = .ok ds) ∧
      (∃ patterns, ReadsIgnore d (input / ignoreFile) patterns) ∧
      ∀ a, ∃ g, r.get? a = some g) ∧
    (IgnoreDangles d input → ReadsIgnore d (input / ignoreFile) none) ∧
    ∀ outputs, (plan d r input root).result = .ok outputs →
      (∃ files, legacyPathsFor r root Assistant.all = .ok files) ∧
        ∀ f a, (compile d r input root).result = .error f → f.cause ≠ .unregistered a := by
  refine ⟨fun result => plans_iff, exists_plan_iff, fun h => .absent h.find_eq, ?_⟩
  intro outputs hplan
  obtain ⟨-, -, hget⟩ := exists_plan_iff.1 ⟨outputs, hplan⟩
  exact ⟨exists_legacyPathsFor_iff.2 fun a _ => hget a,
    fun f a herr => compile_ne_unregistered hplan herr a⟩

/-- The disk with one document and a file in the way, and a link that leads to nothing in
place of the ignore patterns. -/
def oneRuleDangling : Disk := oneRuleBlocked.put ignoreName [inName] (.link "missing")

theorem ignoreDangles_oneRuleDangling : IgnoreDangles oneRuleDangling "in" := by
  refine ⟨by decide, 39, [inName], "missing", ?_, by decide +kernel, by decide +kernel⟩
  have hsteps : (steps "in").filter (· ≠ .slash) = [.down inName] := by decide +kernel
  rw [hsteps]
  exact .down (by decide +kernel) .here

theorem plan_comes_to_oneRuleDangling :
    IgnoreDangles oneRuleDangling "in" ∧
    ReadsIgnore oneRuleDangling ("in" / ignoreFile) none ∧
    (∃ outputs, (plan oneRuleDangling .standard "in" "out").result = .ok outputs) ∧
    (∃ files, legacyPathsFor .standard "out" Assistant.all = .ok files) ∧
    (compile oneRuleDangling .standard "in" "out").result = .error conflict ∧
    ∀ a, conflict.cause ≠ .unregistered a := by
  obtain ⟨-, -, hdangles, hlater⟩ := plan_comes_to oneRuleDangling .standard "in" "out"
  have hok : (plan oneRuleDangling .standard "in" "out").result.map (fun _ => ()) = .ok () := by
    decide +kernel
  have herr : (compile oneRuleDangling .standard "in" "out").result = .error conflict := by
    decide +kernel
  obtain ⟨outputs, hplan, -⟩ := map_eq_ok_iff.1 hok
  obtain ⟨hfiles, hcause⟩ := hlater outputs hplan
  exact ⟨ignoreDangles_oneRuleDangling, hdangles ignoreDangles_oneRuleDangling,
    ⟨outputs, hplan⟩, hfiles, herr, fun a => hcause conflict a herr⟩

end Rulebook
