/-
Rulebook/Excerpt.lean

The excerpt of a text for one assistant: its lines, selected section by section
from a shared start, one below the other and without a newline at the end.
Blank lines never appear in it, so an excerpt of which something is left starts
and ends with text.
-/
import Rulebook.Assistant
import Rulebook.Section
import Rulebook.Text.Lines

namespace Rulebook

open Text

/-- The lines of a text that are shown to an assistant. -/
def excerptLines (a : Assistant) (cs : List Char) : List (List Char) :=
  Section.select a.tag .shared (lines cs)

/-- The part of a text that is for an assistant. -/
def excerpt (a : Assistant) (text : String) : String :=
  String.ofList (unlines (excerptLines a text.toList))

/-- The text left after taking the excerpt for each assistant in turn, from each
result the next; every intermediate result is kept. -/
def excerpts : List Assistant → String → List String
  | [], _ => []
  | a :: as, text => excerpt a text :: excerpts as (excerpt a text)

@[simp] theorem toList_excerpt (a : Assistant) (text : String) :
    (excerpt a text).toList = unlines (excerptLines a text.toList) := by
  simp [excerpt]

end Rulebook
