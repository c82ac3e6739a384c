/-
Rulebook/Document.lean

A rule document: a file name and the text under it.  A document takes part in an
assistant's output only if something of it is left for that assistant.
-/
import Rulebook.Excerpt

namespace Rulebook

open Text

/-- One document of rules. -/
structure Document where
  /-- The name of its file, such as `01-general.md`. -/
  filename : String
  /-- Its whole text, for all assistants. -/
  content : String
  deriving DecidableEq

namespace Document

/-- The part of a document that is for an assistant, if it is not blank. -/
def excerpt? (d : Document) (a : Assistant) : Option String :=
  let text := excerpt a d.content
  if allBlank text.toList then none else some text

/-- The documents with something left for an assistant, each with that text. -/
def excerptsFor (a : Assistant) (ds : List Document) : List (Document × String) :=
  ds.filterMap fun d => (d.excerpt? a).map (d, ·)

end Document

end Rulebook
