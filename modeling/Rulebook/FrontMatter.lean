/-
Rulebook/FrontMatter.lean

A rule file with front matter: a block of settings between two lines of dashes,
one blank line, and the body as it is.  The settings are always the same three,
of which only the description varies, so the block can be taken off again: the
description is what stands before the first newline after `description: `.
-/
import Rulebook.Path

namespace Rulebook.FrontMatter

/-! ### Writing -/

/-- The text before the description. -/
def opening : List Char := "---\ndescription: ".toList

/-- The text between the description and the body. -/
def closing : List Char := "\nglobs:\nalwaysApply: false\n---\n\n".toList

/-- A description and a body, as one text. -/
def encode (description body : List Char) : List Char :=
  opening ++ description ++ closing ++ body

/-- The description of a document: the stem of its file name. -/
def describe (filename : String) : List Char := ((Path.ofString filename).stem?).getD []

/-- The rule file for a document's text. -/
def ofText (filename text : String) : String :=
  String.ofList (encode (describe filename) text.toList)

/-! ### Reading -/

/-- The text after a given beginning. -/
def after? (start cs : List Char) : Option (List Char) :=
  if start.isPrefixOf cs then some (cs.drop start.length) else none

/-- The description and the body of a text with front matter.  What has to stand around the
description is written out here again, as a reader sees it. -/
def decode? (cs : List Char) : Option (List Char × List Char) :=
  match after? "---\ndescription: ".toList cs with
  | none => none
  | some rest =>
    (after? "\nglobs:\nalwaysApply: false\n---\n\n".toList (rest.dropWhile (· ≠ '\n'))).map
      (rest.takeWhile (· ≠ '\n'), ·)

/-! ### Taking the block off again -/

/-- What is required around the description is what is written around it. -/
theorem decode?_eq (cs : List Char) :
    decode? cs = match after? opening cs with
      | none => none
      | some rest =>
        (after? closing (rest.dropWhile (· ≠ '\n'))).map (rest.takeWhile (· ≠ '\n'), ·) := rfl

theorem after?_append (start cs : List Char) : after? start (start ++ cs) = some cs := by
  simp [after?]

/-- Up to its first newline, a text that starts without one is taken as it is. -/
theorem takeWhile_append_newline {l : List Char} (h : '\n' ∉ l) (r : List Char) :
    (l ++ '\n' :: r).takeWhile (· ≠ '\n') = l ∧
      (l ++ '\n' :: r).dropWhile (· ≠ '\n') = '\n' :: r := by
  induction l with
  | nil => simp
  | cons c l ih =>
    obtain ⟨hc, hl⟩ : '\n' ≠ c ∧ '\n' ∉ l := by simpa using h
    simpa [Ne.symm hc] using ih hl

theorem closing_eq : closing = '\n' :: closing.tail := by decide

/-- A description of one line is found again, and so is the body, whatever it is. -/
theorem decode?_encode {description : List Char} (h : '\n' ∉ description) (body : List Char) :
    decode? (encode description body) = some (description, body) := by
  have he : encode description body = opening ++ (description ++ (closing ++ body)) := by
    simp [encode, List.append_assoc]
  have hc : closing ++ body = '\n' :: (closing.tail ++ body) := by
    rw [closing_eq]
    rfl
  obtain ⟨ht, hd⟩ := takeWhile_append_newline h (closing.tail ++ body)
  rw [he, decode?_eq, after?_append]
  dsimp only
  rw [hc, ht, hd, ← hc, after?_append]
  rfl

end Rulebook.FrontMatter
