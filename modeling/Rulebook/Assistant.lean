/-
Rulebook/Assistant.lean

The coding assistants that one set of rules is compiled for.  Every run goes
through them in the order of `Assistant.all`, and a heading that holds an
assistant's tag, such as `[cursor]`, opens a section for that assistant alone.
-/

namespace Rulebook

/-- An assistant with configuration conventions of its own. -/
inductive Assistant
  | copilot
  | cline
  | cursor
  deriving DecidableEq

namespace Assistant

/-- Every assistant, in the order of compilation. -/
def all : List Assistant := [.copilot, .cline, .cursor]

theorem mem_all (a : Assistant) : a ∈ all := by
  cases a <;> decide

/-- The name an assistant is tagged and reported by. -/
def name : Assistant → String
  | .copilot => "copilot"
  | .cline => "cline"
  | .cursor => "cursor"

/-- The name as the titles of a preview show it. -/
def title : Assistant → String
  | .copilot => "COPILOT"
  | .cline => "CLINE"
  | .cursor => "CURSOR"

/-- The tag that gives a heading to this assistant: its name in brackets. -/
def tag (a : Assistant) : List Char := '[' :: (a.name.toList ++ [']'])

end Assistant

end Rulebook
