/-
Rulebook/Outcome.lean

What a part of a run leaves behind: the events it told of, a value or a failure,
and, if it may change the disk, the disk.
-/
import Rulebook.Disk.Basic
import Rulebook.Failure

namespace Rulebook

/-- Something a run tells of while it goes on. -/
inductive Event
  | generated
  | previewed
  | createdDirectory
  | createdFile
  | skippedName
  | noDocuments
  deriving DecidableEq

/-- An event with its level, as it is logged. -/
def Event.message : Event → String
  | .generated => "INFO generated"
  | .previewed => "INFO previewed"
  | .createdDirectory => "INFO created directory"
  | .createdFile => "INFO created file"
  | .skippedName => "WARN skipping rule with non-UTF-8 file name"
  | .noDocuments => "WARN no rule files found"

/-- The events of a part of a run, and how it ended. -/
structure Account (α : Type) where
  log : List Event
  result : Except Failure α

namespace Account

/-- An account of a failure at once. -/
def failed {α : Type} (f : Failure) : Account α := ⟨[], .error f⟩

/-- The account after one more event at its start. -/
def telling {α : Type} (e : Event) (r : Account α) : Account α := { r with log := e :: r.log }

/-- The account with its value changed. -/
def map {α β : Type} (f : α → β) (r : Account α) : Account β := ⟨r.log, r.result.map f⟩

/-- The account seen from an activity around it. -/
def inside {α : Type} (r : Account α) (a : Activity) : Account α :=
  { r with result := r.result.mapError (·.inside a) }

end Account

/-- The account of a part of a run, and the disk it leaves. -/
structure Outcome (α : Type) extends Account α where
  disk : Disk

namespace Outcome

/-- The outcome with its value changed. -/
def map {α β : Type} (f : α → β) (r : Outcome α) : Outcome β :=
  { toAccount := r.toAccount.map f, disk := r.disk }

/-- The outcome after one more event at its start. -/
def telling {α : Type} (e : Event) (r : Outcome α) : Outcome α :=
  { r with toAccount := r.toAccount.telling e }

end Outcome

end Rulebook
