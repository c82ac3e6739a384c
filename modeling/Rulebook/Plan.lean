/-
Rulebook/Plan.lean

What a run would write.  The documents under `rules` and the patterns in `ignore`
are read from the input root, and every assistant's generator makes its files
from them.  Nothing is changed, and the first thing that is missing decides how
planning fails: the documents, then the patterns, then the generators in the
order of the assistants.
-/
import Rulebook.Registry
import Rulebook.RulesDirectory

namespace Rulebook

/-- The directory of the rule documents, under the input root. -/
def rulesDir : Path := "rules"

/-- The file of the ignore patterns, under the input root. -/
def ignoreFile : Path := "ignore"

/-- What is made for one assistant. -/
structure Output where
  assistant : Assistant
  files : List OutputFile
  ignore : Option OutputFile
  deriving DecidableEq

/-- The generator of an assistant. -/
def Registry.generator (r : Registry) (a : Assistant) : Except Failure Generator :=
  match r.get? a with
  | some g => .ok g
  | none => .error { cause := .unregistered a }

/-- The ignore patterns at a path; none if there is nothing. -/
def readIgnore (d : Disk) (p : Path) : Except Failure (Option String) :=
  match d.readText p with
  | .ok patterns => .ok (some patterns)
  | .error .notFound => .ok none
  | .error fault => .error (.ofFault (.readIgnore p) fault)

/-- What one generator makes. -/
def Generator.output (g : Generator) (ds : List Document) (patterns : Option String)
    (root : Path) : Output where
  assistant := g.assistant
  files := g.files ds root
  ignore := patterns.bind (g.ignore? · root)

/-- What is made for some assistants in turn. -/
def outputsFor (r : Registry) (ds : List Document) (patterns : Option String) (root : Path) :
    List Assistant → Except Failure (List Output)
  | [] => .ok []
  | a :: rest => do
    let g ← r.generator a
    return g.output ds patterns root :: (← outputsFor r ds patterns root rest)

/-- What is made of the rules under `input` for the output root `root`. -/
def plan (d : Disk) (r : Registry) (input root : Path) : Account (List Output) :=
  let loaded := (loadRules d (input / rulesDir)).inside .loadDocuments
  { log := loaded.log
    result := do
      let ds ← loaded.result
      let patterns ← readIgnore d (input / ignoreFile)
      outputsFor r ds patterns root Assistant.all }

/-- The files of a plan in the order in which they are written: all rule files, and
then all ignore files. -/
def plannedFiles (outputs : List Output) : List OutputFile :=
  outputs.flatMap (·.files) ++ outputs.filterMap (·.ignore)

end Rulebook
