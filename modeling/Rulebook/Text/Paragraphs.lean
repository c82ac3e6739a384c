/-
Rulebook/Text/Paragraphs.lean

A text as paragraphs, with two newlines between each two.  `paragraphs` cuts at every two
newlines in a row, taken from the left, so that of three the last belongs to what follows; it
always gives at least one piece.  `closeUp` leaves one newline where `paragraphs` cuts.
-/
import Rulebook.Text.Lines

namespace Rulebook.Text

/-- The pieces of a text between every two newlines in a row. -/
def paragraphs : List Char → List (List Char)
  | [] => [[]]
  | '\n' :: '\n' :: cs => [] :: paragraphs cs
  | c :: cs => (paragraphs cs).modifyHead (c :: ·)

/-- The text with one newline in place of every two in a row. -/
def closeUp : List Char → List Char
  | [] => []
  | '\n' :: '\n' :: cs => '\n' :: closeUp cs
  | c :: cs => c :: closeUp cs

theorem paragraphs_ne_nil (cs : List Char) : paragraphs cs ≠ [] := by
  fun_induction paragraphs cs with
  | case1 | case2 => simp
  | case3 c cs _ ih => simpa [List.modifyHead_eq_nil_iff] using ih

/-- A character that does not start a cut stays in front of the first piece. -/
theorem paragraphs_cons {c : Char} {cs : List Char} (h : c = '\n' → cs.head? ≠ some '\n') :
    paragraphs (c :: cs) = (paragraphs cs).modifyHead (c :: ·) := by
  rw [paragraphs]
  rintro rest rfl rfl
  exact h rfl rfl

theorem intercalate_modifyHead (sep : List Char) (c : Char) {pieces : List (List Char)}
    (hne : pieces ≠ []) :
    sep.intercalate (pieces.modifyHead (c :: ·)) = c :: sep.intercalate pieces := by
  rcases pieces with - | ⟨piece, _ | ⟨next, pieces⟩⟩
  · exact absurd rfl hne
  · simp
  · simp

/-- Two newlines put back between the pieces give the text. -/
theorem intercalate_paragraphs (cs : List Char) : ['\n', '\n'].intercalate (paragraphs cs) = cs := by
  fun_induction paragraphs cs with
  | case1 => rfl
  | case2 cs ih => rw [List.intercalate_cons_of_ne_nil (paragraphs_ne_nil cs), ih]; rfl
  | case3 c cs _ ih => rw [intercalate_modifyHead _ c (paragraphs_ne_nil cs), ih]

/-- One newline in their place closes the text up. -/
theorem unlines_paragraphs (cs : List Char) : unlines (paragraphs cs) = closeUp cs := by
  rw [unlines]
  fun_induction paragraphs cs with
  | case1 => rfl
  | case2 cs ih => rw [List.intercalate_cons_of_ne_nil (paragraphs_ne_nil cs), ih]; rfl
  | case3 c cs hno ih =>
    rw [intercalate_modifyHead _ c (paragraphs_ne_nil cs), ih, closeUp]
    exact hno

/-- Of three newlines the first two are a cut. -/
example : unlines (paragraphs "a\n\n\nb".toList) = "a\n\nb".toList := by decide

end Rulebook.Text
