/-
Rulebook/Command/Run.lean

Running a command: what it prints, what it does to the disk, and how it ends.  A
run that fails has printed what came before the failure; one that was not
understood has printed nothing and done nothing.
-/
import Rulebook.Command.Options
import Rulebook.Compilation
import Rulebook.Preview

namespace Rulebook.Command

/-- A finished run. -/
structure Run where
  exitCode : Nat
  stdout : String
  /-- The failure that ended the run. -/
  failure : Option Failure := none
  disk : Disk

/-- A run that ended well. -/
def Run.done (stdout : String) (d : Disk) : Run := { exitCode := 0, stdout, disk := d }

/-- A run that a failure ended. -/
def Run.failed (stdout : String) (f : Failure) (d : Disk) : Run :=
  { exitCode := 1, stdout, failure := some f, disk := d }

/-! ### Wording -/

/-- A line in green. -/
def green (line : String) : String := "\x1b[32m" ++ line ++ "\x1b[39m\n"

/-- The lines that name the roots other than the usual ones. -/
def overrides (roots : Roots) : String :=
  (if roots.output.agrees "." then ""
    else "Using output directory: " ++ roots.output.toString ++ "\n") ++
  (if roots.input.agrees docsDir then ""
    else "Using input directory: " ++ roots.input.toString ++ "\n")

/-- One line for each path. -/
def pathLines (start : String) (ps : List Path) : String :=
  String.join (ps.map fun p => start ++ p.toString ++ "\n")

/-- What is printed after compiling. -/
def compileReport (written : List Path) : String :=
  pathLines "✓ Generated " written ++
    if written = [] then "No rule content found; nothing was written.\n"
    else green "Rules compiled successfully!"

/-- What is printed after setting up. -/
def setUpReport (r : Report) : String :=
  pathLines "✓ Created directory " r.createdDirs ++
  pathLines "✓ Created file " r.createdFiles ++
  pathLines "- Skipped existing file " r.skippedFiles ++
  "\n" ++ green "ai-docs project initialization complete!" ++
  "\nNext steps:\n" ++
  "1. Edit rules: modify files in ai-docs/rules/\n" ++
  "2. Edit ignore patterns: modify ai-docs/ignore\n" ++
  "3. Compile: ai-docs compile\n" ++
  "4. Preview: ai-docs preview\n"

/-! ### Running -/

/-- The failure of a run whose input root is no directory. -/
def noInput (input : Path) : Failure :=
  { cause := .missingInput input, hints := [.runInit] }

/-- Compile with the assistants' own generators. -/
def runCompile (d : Disk) (roots : Roots) : Run :=
  if d.hasDir roots.input then
    let started := "Compiling rules...\n"
    let outcome := compile d .standard roots.input roots.output
    match outcome.result with
    | .error f => .failed started f outcome.disk
    | .ok written =>
      .done (started ++ compileReport written ++ overrides roots) outcome.disk
  else .failed "" (noInput roots.input) d

/-- Show what compiling would write. -/
def runPreview (d : Disk) (roots : Roots) : Run :=
  if d.hasDir roots.input then
    let started := "Previewing rules...\n"
    let (out, shown) := preview d .standard roots.input roots.output {}
    match shown.result with
    | .error f => .failed started f d
    | .ok () =>
      .done
        (started ++ out.text ++
          "Preview complete. Run `ai-docs compile` to write these files.\n" ++ overrides roots) d
  else .failed "" (noInput roots.input) d

/-- Set up a project. -/
def runSetUp (d : Disk) (root : Path) : Run :=
  let outcome := setUp d root
  match outcome.result with
  | .error f => .failed "" (f.inside .setUp) outcome.disk
  | .ok report => .done (setUpReport report) outcome.disk

/-- Run a command. -/
def Invocation.run (d : Disk) : Invocation → Run
  | .compile roots => runCompile d roots
  | .preview roots => runPreview d roots
  | .setUp root => runSetUp d root

/-- Run what words stand for.  Words that ask for help run nothing; how help reads is left to what
carries the run out. -/
def run (d : Disk) (env : Environment) (words : List String) : Run :=
  match Invocation.ofWords env words with
  | .ok invocation => invocation.run d
  | .error .help => .done "" d
  | .error .version => .done "ai-docs 0.1.0\n" d
  | .error .misuse => { exitCode := 2, stdout := "", disk := d }

end Rulebook.Command
