/-
Rulebook/Starter.lean

Setting up a project: the directory of the rules with two documents to start from,
and a file for ignore patterns.  What is there already is left alone, so setting
up a second time changes nothing.
-/
import Rulebook.Disk.Change
import Rulebook.Plan

namespace Rulebook

/-- The directory of everything, under the project root. -/
def docsDir : Path := "ai-docs"

/-- The content of a new ignore file. -/
def defaultIgnore : String := "# Ignore patterns for AI assistants\n"

/-- The documents to start from. -/
def templates : List Document :=
  [ { filename := "01-general.md"
      content :=
        "# General guidelines\n\n" ++
        "Describe the project, its conventions, and anything an assistant\n" ++
        "should always keep in mind.\n\n" ++
        "## Code style\n\n" ++
        "- Prefer small, focused changes.\n" ++
        "- Follow the existing naming conventions in each module.\n" },
    { filename := "02-assistants.md"
      content :=
        "# Assistant-specific guidance\n\n" ++
        "Headings tagged with an assistant name only appear in that\n" ++
        "assistant's output. Untagged headings are shared.\n\n" ++
        "## Copilot [copilot]\n\n" ++
        "Copilot-only instructions go here.\n\n" ++
        "## Cline [cline]\n\n" ++
        "Cline-only instructions go here.\n\n" ++
        "## Cursor [cursor]\n\n" ++
        "Cursor-only instructions go here.\n" } ]

/-! ### Tasks -/

/-- One thing to be there at the end. -/
inductive Task
  | directory (p : Path)
  | file (p : Path) (content : String)

/-- What setting up has done. -/
structure Report where
  createdDirs : List Path := []
  createdFiles : List Path := []
  skippedFiles : List Path := []
  deriving DecidableEq

/-- What is to be there under a project root. -/
def tasks (root : Path) : List Task :=
  let docs := root / docsDir
  [.directory docs, .directory (docs / rulesDir)]
    ++ templates.map (fun t => .file (docs / rulesDir / Path.ofString t.filename) t.content)
    ++ [.file (docs / ignoreFile) defaultIgnore]

/-- Do one task and the rest after it. -/
def runTasks (d : Disk) : List Task → Outcome Report
  | [] => { log := [], result := .ok {}, disk := d }
  | .directory p :: rest =>
    if d.hasDir p then runTasks d rest
    else
      match d.makeDirs p with
      | (d', .error fault) =>
        { log := [], result := .error (.ofFault (.createDirectory p) fault), disk := d' }
      | (d', .ok ()) =>
        ((runTasks d' rest).map fun r => { r with createdDirs := p :: r.createdDirs }).telling
          .createdDirectory
  | .file p content :: rest =>
    if d.has p then
      (runTasks d rest).map fun r => { r with skippedFiles := p :: r.skippedFiles }
    else
      match d.writeText p content with
      | .error fault => { log := [], result := .error (.ofFault (.writeFile p) fault), disk := d }
      | .ok d' =>
        ((runTasks d' rest).map fun r => { r with createdFiles := p :: r.createdFiles }).telling
          .createdFile

/-- Set up a project under a root. -/
def setUp (d : Disk) (root : Path) : Outcome Report := runTasks d (tasks root)

end Rulebook
