/-
Rulebook/Section.lean

Which lines of a rule document an assistant reads.  A line that starts with `#`
is a heading, and a bracket in it gives the section below to one assistant: the
one whose tag the heading holds.  A heading without a bracket, and the lines
before the first heading, are for everyone.

    heading with the own tag     opens an own section      shown without the tag, trimmed
    heading with another bracket opens a foreign section   hidden
    heading without a bracket    opens a shared section    shown as it is
    blank line                   changes nothing           hidden
    any other line               changes nothing           shown unless the section is foreign

A run over the lines carries only the section it is in (`select`).  Own and
shared sections show the same lines, so what a line needs to know of the past is
whether the last heading before it opened a foreign section.
-/
import Rulebook.Text.Blank

namespace Rulebook

open Text

/-! ### Headings and tags -/

/-- A heading is a line that starts with `#`. -/
def isHeading (line : List Char) : Bool := line.head? == some '#'

/-- The text without the first occurrence of `tag`, if there is one. -/
def cutFirst? (tag : List Char) : List Char → Option (List Char)
  | [] => if tag = [] then some [] else none
  | c :: cs =>
    if tag.isPrefixOf (c :: cs) then some ((c :: cs).drop tag.length)
    else (cutFirst? tag cs).map (c :: ·)

/-- What a line is to the assistant with a given tag. -/
inductive LineRole
  /-- A heading with the assistant's tag; `rest` is the heading without it. -/
  | ownHeading (rest : List Char)
  /-- A heading with some other bracket. -/
  | foreignHeading
  /-- A heading without any bracket. -/
  | sharedHeading
  /-- A line of text. -/
  | content
  /-- A line of white space, or of nothing. -/
  | blank
  deriving DecidableEq

/-- The role of a line. -/
def LineRole.ofLine (tag line : List Char) : LineRole :=
  if isHeading line then
    match cutFirst? tag line with
    | some rest => .ownHeading rest
    | none => if '[' ∈ line then .foreignHeading else .sharedHeading
  else if allBlank line then .blank
  else .content

/-! ### Sections -/

/-- Whom the lines under a heading are for, as one assistant sees it. -/
inductive Section
  /-- Everyone. -/
  | shared
  /-- This assistant. -/
  | own
  /-- Another assistant. -/
  | foreign
  deriving DecidableEq

namespace Section

/-- The section that a line leaves the reader in. -/
def next (s : Section) : LineRole → Section
  | .ownHeading _ => .own
  | .foreignHeading => .foreign
  | .sharedHeading => .shared
  | .content | .blank => s

/-- What is shown of a line in this section. -/
def shown? (s : Section) (line : List Char) : LineRole → Option (List Char)
  | .ownHeading rest => some (trim rest)
  | .foreignHeading => none
  | .sharedHeading => some line
  | .content => if s = .foreign then none else some line
  | .blank => none

/-- The lines shown to the assistant with the given tag, starting in section `s`. -/
def select (tag : List Char) (s : Section) : List (List Char) → List (List Char)
  | [] => []
  | line :: ls =>
    let role := LineRole.ofLine tag line
    let later := select tag (s.next role) ls
    match s.shown? line role with
    | some text => text :: later
    | none => later

/-- Own and shared sections show the same lines. -/
theorem select_own (tag : List Char) (ls : List (List Char)) :
    select tag .own ls = select tag .shared ls := by
  induction ls with
  | nil => rfl
  | cons line ls ih =>
    rcases h : LineRole.ofLine tag line with rest | - | - | - | - <;>
      simp [select, h, next, shown?, ih]

end Section

end Rulebook
