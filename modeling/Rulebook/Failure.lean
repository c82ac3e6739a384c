/-
Rulebook/Failure.lean

What is reported when a run fails: the activities it was in, outermost first, the
cause, and what the user may try.  The report reads as a chain of messages, one
for each activity and then those of the cause.
-/
import Rulebook.Assistant
import Rulebook.Disk.Fault
import Rulebook.Text.Quoted
import Rulebook.Path

namespace Rulebook

/-- A path in double quotes, as messages show it. -/
def Path.quoted (p : Path) : String := String.ofList (Text.quoted p.chars)

/-- What a run was doing. -/
inductive Activity
  | loadDocuments
  | listRules (dir : Path)
  | readDocument (p : Path)
  | readIgnore (p : Path)
  | checkLegacy
  | inspectLegacy (p : Path)
  | createDirectory (p : Path)
  | writeGenerated (p : Path)
  | writePreview
  | writeFile (p : Path)
  | setUp
  deriving DecidableEq

/-- Why a run failed. -/
inductive Cause
  /-- The system refused an access. -/
  | fault (e : Disk.Fault)
  /-- An entry of a listed directory could not be looked at. -/
  | entry (p : Path) (e : Disk.Fault)
  /-- An entry of a listed directory leads back to that directory. -/
  | cycle (child dir : Path)
  | missingInput (p : Path)
  | legacyConflict (p : Path) (name : String)
  | unregistered (a : Assistant)
  deriving DecidableEq

/-- What the user may try. -/
inductive Hint
  | removeLegacy (name : String)
  | runInit
  deriving DecidableEq

/-- A failed run. -/
structure Failure where
  /-- The activities, outermost first. -/
  during : List Activity := []
  cause : Cause
  hints : List Hint := []
  deriving DecidableEq

/-! ### Wording -/

def Activity.message : Activity → String
  | .loadDocuments => "load rule documents"
  | .listRules dir => "list rules directory: " ++ dir.quoted
  | .readDocument p => "read rule document: " ++ p.quoted
  | .readIgnore p => "read ignore file: " ++ p.quoted
  | .checkLegacy => "check for legacy output files"
  | .inspectLegacy p => "inspect legacy path: " ++ p.quoted
  | .createDirectory p => "create directory: " ++ p.quoted
  | .writeGenerated p => "write generated file: " ++ p.quoted
  | .writePreview => "write preview"
  | .writeFile p => "write file: " ++ p.quoted
  | .setUp => "initialize ai-docs directory"

/-- The messages of a cause; where an entry is at fault, the entry comes before the
fault alone. -/
def Cause.messages : Cause → List String
  | .fault e => [e.message]
  | .entry p e => ["IO error for operation on " ++ p.toString ++ ": " ++ e.message, e.message]
  | .cycle child dir =>
    ["File system loop found: " ++ child.toString ++ " points to an ancestor " ++ dir.toString]
  | .missingInput p => ["input directory not found: " ++ p.quoted]
  | .legacyConflict p name =>
    [name ++ " exists as a file but the current format uses directories: " ++ p.quoted]
  | .unregistered a => ["no generator registered for target: " ++ a.name]

def Hint.message : Hint → String
  | .removeLegacy name =>
    "Remove the existing " ++ name ++ " file and try again, e.g. `rm " ++ name ++ "`"
  | .runInit => "Run `ai-docs init` to create it."

namespace Failure

/-- All messages, outermost first. -/
def chain (f : Failure) : List String := f.during.map Activity.message ++ f.cause.messages

/-- The suggestions. -/
def suggestions (f : Failure) : List String := f.hints.map Hint.message

/-- The failure seen from an activity around it. -/
def inside (f : Failure) (a : Activity) : Failure := { f with during := a :: f.during }

/-- A fault met during an activity. -/
def ofFault (a : Activity) (e : Disk.Fault) : Failure := { during := [a], cause := .fault e }

end Failure

end Rulebook
