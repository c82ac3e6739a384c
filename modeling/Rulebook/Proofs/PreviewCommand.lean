/-
Rulebook/Proofs/PreviewCommand.lean

Showing what would be written, from the command line.  There are four ways to ask for it, and
with the same options they stand for the same command (`ofWords_previewWords`).  The command
looks at the input root first, like the command to compile, and then only plans: it succeeds
where planning does, whatever is in the way of the files, and never touches the disk.

Main result `run_previews`: whichever way a preview is asked for and however its roots are
given, the run comes to what planning comes to and prints the text of the plan (`Previews`).  It
never fails where compiling with the same roots succeeds.
-/
import Rulebook.Proofs.CompileCommand
import Rulebook.Proofs.PreviewAgreement

namespace Rulebook

variable {d : Disk} {r : Registry} {input root : Path}

/-- A plan that fails is what a preview comes to. -/
theorem preview_eq_error {f : Failure} (h : (plan d r input root).result = .error f) (out : Sink) :
    (preview d r input root out).1 = out ∧
      (preview d r input root out).2.result = .error f := by
  rw [preview, h]
  exact ⟨rfl, rfl⟩

/-- What has been compiled has been planned. -/
theorem exists_plan_of_compile {paths : List Path}
    (h : (compile d r input root).result = .ok paths) :
    ∃ outputs, (plan d r input root).result = .ok outputs := by
  obtain ⟨outputs, -, hplan, -⟩ := compile_eq_complete h
  exact ⟨outputs, hplan⟩

namespace Command

variable {roots : Roots} {env : Environment} {words : List String}

/-! ### What is printed -/

/-- The lines printed after the text of a plan. -/
def closingLines (roots : Roots) : List String :=
  "Preview complete. Run `ai-docs compile` to write these files." :: overrideLines roots

theorem linesText_closingLines (roots : Roots) :
    linesText (closingLines roots) =
      "Preview complete. Run `ai-docs compile` to write these files.\n" ++ overrides roots := by
  rw [closingLines, ← List.singleton_append, linesText_append, linesText_singleton, overrides_eq]
  rfl

/-! ### Previewing -/

/-- What a run of the command should come to: what planning comes to, told of in the text of the
plan. -/
structure Previews (d : Disk) (roots : Roots) (run : Run) : Prop where
  /-- The disk is left alone, whether the run succeeds or not. -/
  disk : run.disk = d
  /-- The run succeeds if planning does. -/
  exitCode_iff : run.exitCode = 0 ↔
    ∃ outputs, (plan d .standard roots.input roots.output).result = .ok outputs
  /-- The text of the plan stands between the first line and the last ones, as it is shown on an
  output that takes everything. -/
  succeeded : ∀ outputs, (plan d .standard roots.input roots.output).result = .ok outputs →
    run.failure = none ∧
    run.stdout = "Previewing rules...\n" ++
      (preview d .standard roots.input roots.output {}).1.text ++ linesText (closingLines roots) ∧
    (preview d .standard roots.input roots.output {}).1.text = previewText outputs
  /-- Where the input root is no directory, nothing is printed. -/
  noDirectory : d.hasDir roots.input = false →
    run.exitCode = 1 ∧ run.stdout = "" ∧
      run.failure = some { cause := .missingInput roots.input, hints := [.runInit] }
  /-- After any other failure, which is one of planning, the first line has been printed. -/
  failed : ∀ f, d.hasDir roots.input = true →
    (plan d .standard roots.input roots.output).result = .error f →
      run.exitCode = 1 ∧ run.stdout = "Previewing rules...\n" ∧ run.failure = some f

theorem previews_of_ok {outputs : List Output} (hdir : d.hasDir roots.input = true)
    (hok : (plan d .standard roots.input roots.output).result = .ok outputs) :
    Previews d roots (runPreview d roots) := by
  obtain ⟨htext, hresult, -⟩ := preview_eq hok
  have hrun : runPreview d roots = .done ("Previewing rules...\n" ++
      (preview d .standard roots.input roots.output {}).1.text ++
        linesText (closingLines roots)) d := by
    rw [linesText_closingLines, runPreview, if_pos hdir]
    simp only [hresult, String.append_assoc]
  rw [hrun]
  constructor
  case disk => rfl
  case exitCode_iff => exact iff_of_true rfl ⟨outputs, hok⟩
  case succeeded =>
    intro outputs' hok'
    cases hok.symm.trans hok'
    exact ⟨rfl, rfl, htext⟩
  case noDirectory =>
    intro hno
    cases hno.symm.trans hdir
  case failed =>
    intro f _ herr
    cases hok.symm.trans herr

theorem previews_of_error {f : Failure} (hdir : d.hasDir roots.input = true)
    (herr : (plan d .standard roots.input roots.output).result = .error f) :
    Previews d roots (runPreview d roots) := by
  have hrun : runPreview d roots = .failed "Previewing rules...\n" f d := by
    rw [runPreview, if_pos hdir]
    simp only [(preview_eq_error herr {}).2]
  have hplan : ∀ outputs, (plan d .standard roots.input roots.output).result ≠ .ok outputs := by
    intro outputs hok
    cases hok.symm.trans herr
  rw [hrun]
  constructor
  case disk => rfl
  case exitCode_iff => exact iff_of_false nofun (not_exists.2 hplan)
  case succeeded =>
    intro outputs hok
    exact absurd hok (hplan outputs)
  case noDirectory =>
    intro hno
    cases hno.symm.trans hdir
  case failed =>
    intro f' _ herr'
    cases herr.symm.trans herr'
    exact ⟨rfl, rfl, rfl⟩

/-- Where the input root is no directory, planning would fail as well. -/
theorem previews_of_noDirectory (h : roots.Filled) (hno : d.hasDir roots.input = false) :
    Previews d roots (runPreview d roots) := by
  have hplan : ∀ outputs, (plan d .standard roots.input roots.output).result ≠ .ok outputs := by
    intro outputs hok
    cases hno.symm.trans (hasDir_of_plan h.input hok)
  have hrun : runPreview d roots = .failed "" (noInput roots.input) d := by
    rw [runPreview, hno]
    rfl
  rw [hrun]
  constructor
  case disk => rfl
  case exitCode_iff => exact iff_of_false nofun (not_exists.2 hplan)
  case succeeded =>
    intro outputs hok
    exact absurd hok (hplan outputs)
  case noDirectory =>
    intro _
    exact ⟨rfl, rfl, rfl⟩
  case failed =>
    intro f hdir _
    cases hno.symm.trans hdir

theorem previews_runPreview (d : Disk) (h : roots.Filled) :
    Previews d roots (runPreview d roots) := by
  rcases hdir : d.hasDir roots.input with - | -
  · exact previews_of_noDirectory h hdir
  · rcases hresult : (plan d .standard roots.input roots.output).result with f | outputs
    · exact previews_of_error hdir hresult
    · exact previews_of_ok hdir hresult

theorem run_eq_runPreview (d : Disk) (h : Invocation.ofWords env words = .ok (.preview roots)) :
    run d env words = runPreview d roots := by
  rw [run, h]
  rfl

/-- There are four ways to ask for a preview.  They read options alike, whatever these are, and come
to the same run where the options give roots.  Every two roots that are not empty can be given, and
however they are given, the run comes to what planning with them comes to.  It succeeds wherever
compiling with them does. -/
theorem run_previews (d : Disk) (env : Environment) :
    (∀ start ∈ previewWords, ∀ options,
      Invocation.ofWords env (start ++ options) = Invocation.ofWords env ("preview" :: options) ∧
      ∀ roots, Invocation.ofWords env ("preview" :: options) = .ok (.preview roots) →
        run d env (start ++ options) = run d env ("preview" :: options)) ∧
    (∀ roots : Roots, roots.Filled →
      Invocation.ofWords env ("preview" :: rootWords roots) = .ok (.preview roots)) ∧
    ∀ words roots, Invocation.ofWords env words = .ok (.preview roots) →
      Previews d roots (run d env words) ∧
        ∀ env' words', Invocation.ofWords env' words' = .ok (.compile roots) →
          (run d env' words').exitCode = 0 → (run d env words).exitCode = 0 := by
  refine ⟨?_, fun roots h => ofWords_preview h, ?_⟩
  · intro start hstart options
    have hreads := ofWords_previewWords hstart env options
    refine ⟨hreads, fun roots h => ?_⟩
    rw [run_eq_runPreview d h, run_eq_runPreview d (hreads.trans h)]
  · intro words roots h
    have hpreviews : Previews d roots (run d env words) := by
      rw [run_eq_runPreview d h]
      exact previews_runPreview d (filled_of_preview h)
    refine ⟨hpreviews, ?_⟩
    intro env' words' h' hzero
    have hcompiles : Compiles d roots (run d env' words') := by
      rw [run, h']
      exact compiles_runCompile d (filled_of_compile h')
    -- what has been compiled has been planned, and planning is all that a preview asks for
    obtain ⟨written, hwritten⟩ := hcompiles.exitCode_iff.1 hzero
    apply hpreviews.exitCode_iff.2
    exact exists_plan_of_compile hwritten

/-- What is planned of one document. -/
def oneRuleOutputs : List Output :=
  [⟨.copilot, [⟨"out/.github/copilot-instructions.md", "text\n"⟩], none⟩,
    ⟨.cline, [⟨"out/.clinerules/a.md", "text\n"⟩], none⟩,
    ⟨.cursor, [⟨"out/.cursor/rules/a.mdc",
      "---\ndescription: a\nglobs:\nalwaysApply: false\n---\n\ntext"⟩], none⟩]

theorem run_previews_oneRuleBlocked :
    ["sync", "--plan"] ∈ previewWords ∧
    run oneRuleBlocked [] ["sync", "--plan", "--input=in", "--output=out"] =
      run oneRuleBlocked [] ["preview", "--input=in", "--output=out"] ∧
    (run oneRuleBlocked [] ["preview", "--input=in", "--output=out"]).exitCode = 0 ∧
    (run oneRuleBlocked [] ["preview", "--input=in", "--output=out"]).disk = oneRuleBlocked ∧
    (run oneRuleBlocked [] ["preview", "--input=in", "--output=out"]).stdout = linesText
      ["Previewing rules...", "",
        "=== COPILOT PREVIEW ===", "",
        "--- out/.github/copilot-instructions.md ---", "text", "", "",
        "=== END PREVIEW ===", "", "",
        "=== CLINE PREVIEW ===", "",
        "--- out/.clinerules/a.md ---", "text", "", "",
        "=== END PREVIEW ===", "", "",
        "=== CURSOR PREVIEW ===", "",
        "--- out/.cursor/rules/a.mdc ---",
        "---", "description: a", "globs:", "alwaysApply: false", "---", "", "text", "",
        "=== END PREVIEW ===", "",
        "Preview complete. Run `ai-docs compile` to write these files.",
        "Using output directory: out", "Using input directory: in"] ∧
    (run oneRuleBlocked [("AI_DOCS_INPUT", "docs")] ["plan"]).exitCode = 1 ∧
    (run oneRuleBlocked [("AI_DOCS_INPUT", "docs")] ["plan"]).stdout = "" ∧
    (run oneRule [] ["compile", "--input=in", "--output=out"]).exitCode = 0 ∧
    (run oneRule [] ["preview", "--input=in", "--output=out"]).exitCode = 0 := by
  have hplan : (plan oneRuleBlocked .standard "in" "out").result = .ok oneRuleOutputs := by
    decide +kernel
  have helsewhere : Invocation.ofWords [("AI_DOCS_INPUT", "docs")] ["plan"] =
      .ok (.preview ⟨"docs", "."⟩) := by decide +kernel
  have hcompiled : (run oneRule [] ["compile", "--input=in", "--output=out"]).exitCode = 0 := by
    decide +kernel
  have hfilled : Roots.Filled ⟨"in", "out"⟩ := ⟨by decide, by decide⟩
  have hcompile : Invocation.ofWords [] ("compile" :: rootWords ⟨"in", "out"⟩) =
      .ok (.compile ⟨"in", "out"⟩) := ofWords_compile (.inl rfl) hfilled
  obtain ⟨hsame, hwords, hruns⟩ := run_previews oneRuleBlocked []
  have hin := hwords ⟨"in", "out"⟩ hfilled
  obtain ⟨hpreviews, -⟩ := hruns _ _ hin
  obtain ⟨-, hstdout, htext⟩ := hpreviews.succeeded oneRuleOutputs hplan
  obtain ⟨hnothing, -⟩ := (run_previews oneRuleBlocked _).2.2 _ _ helsewhere
  obtain ⟨hexit, hempty, -⟩ := hnothing.noDirectory (by decide +kernel)
  obtain ⟨-, hsucceeds⟩ := (run_previews oneRule []).2.2 _ _ hin
  obtain ⟨-, hrun⟩ := hsame ["sync", "--plan"] (by decide) ["--input=in", "--output=out"]
  refine ⟨by decide, hrun _ hin, hpreviews.exitCode_iff.2 ⟨_, hplan⟩, hpreviews.disk,
    hstdout.trans ?_, hexit, hempty, hcompiled, hsucceeds [] _ hcompile hcompiled⟩
  rw [htext]
  decide +kernel

end Command

end Rulebook
