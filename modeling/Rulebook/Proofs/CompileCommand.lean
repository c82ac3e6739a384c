/-
Rulebook/Proofs/CompileCommand.lean

Compiling from the command line is compiling, told of in lines.  The command looks at the input
root before anything else, and loading looks at the directory of the rules in it.  The two
agree: nothing is found below a root that is no directory, unless the root is empty
(`hasDir_of_plan`), and a command line gives no empty root.  So the first look never turns
away what could have been compiled.

Main result `run_compiles`: however the two roots are given, a run comes to what compiling comes
to, on the disk as well, and prints the lines that belong to it (`Compiles`).
-/
import Rulebook.Proofs.CommandLine
import Rulebook.Proofs.Disk.Straight
import Rulebook.Proofs.Planning

namespace Rulebook

variable {d : Disk} {r : Registry} {input root : Path} {outputs : List Output}

/-! ### The input root -/

/-- An input root with rules to be loaded is a directory. -/
theorem hasDir_of_plan (hinput : input.chars ≠ [])
    (h : (plan d r input root).result = .ok outputs) : d.hasDir input = true := by
  obtain ⟨ds, -, hload, -, -⟩ := plan_eq_ok_iff.1 h
  obtain ⟨home, hfind, -⟩ := exists_home_of_loadRules hload
  rw [div_rulesDir] at hfind
  exact Disk.hasDir_of_find_below hinput (by simp) spelled_rules.plain hfind

/-- A run whose input root is no directory does not compile anything. -/
theorem exists_compile_error (r : Registry) (hinput : input.chars ≠ [])
    (hno : d.hasDir input = false) (root : Path) :
    ∃ f, (compile d r input root).result = .error f ∧ (compile d r input root).disk = d := by
  rcases compile_cases d r input root with hfail | ⟨outputs, hplan, -⟩
  · exact hfail
  · rw [hasDir_of_plan hinput hplan] at hno
    cases hno

namespace Command

variable {roots : Roots}

/-! ### What is printed -/

/-- The lines printed after compiling: one for each file in the order in which they have been
written, one that says whether there are any, and those that name the roots. -/
def compileLines (roots : Roots) (written : List Path) : List String :=
  ["Compiling rules..."] ++ written.map (fun p => "✓ Generated " ++ p.toString) ++
    [if written = [] then "No rule content found; nothing was written."
      else "\x1b[32mRules compiled successfully!\x1b[39m"] ++
    overrideLines roots

theorem linesText_compileLines (roots : Roots) (written : List Path) :
    linesText (compileLines roots written) =
      "Compiling rules...\n" ++ compileReport written ++ overrides roots := by
  have hstart : linesText ["Compiling rules..."] = "Compiling rules...\n" := by decide
  have hclose : linesText [if written = [] then "No rule content found; nothing was written."
      else "\x1b[32mRules compiled successfully!\x1b[39m"] =
      if written = [] then "No rule content found; nothing was written.\n"
      else green "Rules compiled successfully!" := by
    rw [linesText_singleton]
    split <;> rfl
  rw [compileLines, linesText_append, linesText_append, linesText_append, hstart, hclose,
    overrides_eq, compileReport, pathLines_eq]
  simp only [String.append_assoc]

/-! ### Compiling -/

/-- What a run of the command should come to: what compiling itself comes to, and the lines that
tell of it. -/
structure Compiles (d : Disk) (roots : Roots) (run : Run) : Prop where
  /-- The run succeeds if compiling does. -/
  exitCode_iff : run.exitCode = 0 ↔
    ∃ written, (compile d .standard roots.input roots.output).result = .ok written
  /-- The disk is as compiling leaves it, whether it succeeds or not. -/
  disk : run.disk = (compile d .standard roots.input roots.output).disk
  /-- No input root with which compiling succeeds is turned away. -/
  accepted : ∀ written,
    (compile d .standard roots.input roots.output).result = .ok written →
      d.hasDir roots.input = true
  succeeded : ∀ written,
    (compile d .standard roots.input roots.output).result = .ok written →
      run.stdout = linesText (compileLines roots written) ∧ run.failure = none
  /-- Where the input root is no directory, nothing is printed. -/
  noDirectory : d.hasDir roots.input = false →
    run.exitCode = 1 ∧ run.stdout = "" ∧
      run.failure = some { cause := .missingInput roots.input, hints := [.runInit] }
  /-- After any other failure, the first line has been printed. -/
  failed : ∀ f, d.hasDir roots.input = true →
    (compile d .standard roots.input roots.output).result = .error f →
      run.exitCode = 1 ∧ run.stdout = "Compiling rules...\n" ∧ run.failure = some f

theorem compiles_of_ok {written : List Path} (hdir : d.hasDir roots.input = true)
    (hok : (compile d .standard roots.input roots.output).result = .ok written) :
    Compiles d roots (runCompile d roots) := by
  have hrun : runCompile d roots = .done (linesText (compileLines roots written))
      (compile d .standard roots.input roots.output).disk := by
    rw [linesText_compileLines, runCompile, if_pos hdir]
    simp only [hok]
  rw [hrun]
  exact {
    exitCode_iff := iff_of_true rfl ⟨written, hok⟩
    disk := rfl
    accepted := fun _ _ => hdir
    succeeded := fun written' hok' => by
      cases hok.symm.trans hok'
      exact ⟨rfl, rfl⟩
    noDirectory := fun hno => by cases hno.symm.trans hdir
    failed := fun _ _ herr => by cases hok.symm.trans herr }

theorem compiles_of_error {f : Failure} (hdir : d.hasDir roots.input = true)
    (herr : (compile d .standard roots.input roots.output).result = .error f) :
    Compiles d roots (runCompile d roots) := by
  have hrun : runCompile d roots = .failed "Compiling rules...\n" f
      (compile d .standard roots.input roots.output).disk := by
    rw [runCompile, if_pos hdir]
    simp only [herr]
  rw [hrun]
  exact {
    exitCode_iff := iff_of_false nofun fun ⟨_, hok⟩ => by cases hok.symm.trans herr
    disk := rfl
    accepted := fun _ _ => hdir
    succeeded := fun _ hok => by cases hok.symm.trans herr
    noDirectory := fun hno => by cases hno.symm.trans hdir
    failed := fun f' _ herr' => by
      cases herr.symm.trans herr'
      exact ⟨rfl, rfl, rfl⟩ }

/-- Where the input root is no directory, compiling fails as well, and leaves the disk alone. -/
theorem compiles_of_noDirectory (h : roots.Filled) (hno : d.hasDir roots.input = false) :
    Compiles d roots (runCompile d roots) := by
  obtain ⟨f, herr, hdisk⟩ := exists_compile_error .standard h.input hno roots.output
  have hrun : runCompile d roots = .failed "" (noInput roots.input) d := by
    rw [runCompile, hno]
    rfl
  rw [hrun]
  exact {
    exitCode_iff := iff_of_false nofun fun ⟨_, hok⟩ => by cases hok.symm.trans herr
    disk := hdisk.symm
    accepted := fun _ hok => by cases hok.symm.trans herr
    succeeded := fun _ hok => by cases hok.symm.trans herr
    noDirectory := fun _ => ⟨rfl, rfl, rfl⟩
    failed := fun _ hdir => by cases hno.symm.trans hdir }

theorem compiles_runCompile (d : Disk) (h : roots.Filled) :
    Compiles d roots (runCompile d roots) := by
  rcases hdir : d.hasDir roots.input with - | -
  · exact compiles_of_noDirectory h hdir
  · rcases hresult : (compile d .standard roots.input roots.output).result with f | written
    · exact compiles_of_error hdir hresult
    · exact compiles_of_ok hdir hresult

/-- Every two roots that are not empty can be given to compiling, under both of its names, and
however the roots are given, a run comes to what compiling with them comes to. -/
theorem run_compiles (d : Disk) (env : Environment) :
    (∀ name, name = "compile" ∨ name = "sync" → ∀ roots : Roots, roots.Filled →
      Invocation.ofWords env (name :: rootWords roots) = .ok (.compile roots)) ∧
    ∀ words roots, Invocation.ofWords env words = .ok (.compile roots) →
      Compiles d roots (run d env words) := by
  refine ⟨fun name hname roots h => ofWords_compile hname h, fun words roots h => ?_⟩
  have hrun : run d env words = runCompile d roots := by
    rw [run, h]
    rfl
  rw [hrun]
  exact compiles_runCompile d (filled_of_compile h)

theorem run_compiles_oneRule :
    (run oneRule [("AI_DOCS_INPUT", "in")] ["sync", "--output", "out"]).exitCode = 0 ∧
    (run oneRule [("AI_DOCS_INPUT", "in")] ["sync", "--output", "out"]).stdout = linesText
      ["Compiling rules...", "✓ Generated out/.github/copilot-instructions.md",
        "✓ Generated out/.clinerules/a.md", "✓ Generated out/.cursor/rules/a.mdc",
        "\x1b[32mRules compiled successfully!\x1b[39m", "Using output directory: out",
        "Using input directory: in"] ∧
    (run oneRuleBlocked [] ["compile", "--input=in", "--output=out"]).exitCode = 1 ∧
    (run oneRuleBlocked [] ["compile", "--input=in", "--output=out"]).stdout =
      "Compiling rules...\n" ∧
    (run oneRuleBlocked [] ["compile", "--input=in", "--output=out"]).failure = some conflict := by
  have hgiven : Invocation.ofWords [("AI_DOCS_INPUT", "in")] ["sync", "--output", "out"] =
      .ok (.compile ⟨"in", "out"⟩) := by decide +kernel
  have hok : (compile oneRule .standard "in" "out").result = .ok
      ["out/.github/copilot-instructions.md", "out/.clinerules/a.md",
        "out/.cursor/rules/a.mdc"] := by
    decide +kernel
  have hblocked : (compile oneRuleBlocked .standard "in" "out").result = .error conflict := by
    decide +kernel
  obtain ⟨-, hruns⟩ := run_compiles oneRule [("AI_DOCS_INPUT", "in")]
  obtain ⟨hwords, hruns'⟩ := run_compiles oneRuleBlocked []
  have hdone := hruns _ _ hgiven
  have hfails := hruns' _ _ (hwords "compile" (.inl rfl) ⟨"in", "out"⟩ ⟨by decide, by decide⟩)
  refine ⟨hdone.exitCode_iff.2 ⟨_, hok⟩, ?_, hfails.failed conflict (by decide +kernel) hblocked⟩
  rw [(hdone.succeeded _ hok).1]
  decide +kernel

end Command

end Rulebook
