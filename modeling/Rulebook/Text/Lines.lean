/-
Rulebook/Text/Lines.lean

A text as pieces between separators.  `split` cuts at every occurrence of one
character and always gives at least one piece, so that the line after a final
newline is there, and empty; `intercalate` puts it back between them.  Joining
what was split gives the text back, and splitting what was joined gives the
pieces back when none of them holds the separator.
-/

namespace Rulebook.Text

/-- The pieces of a text between the occurrences of `sep`. -/
def split (sep : Char) : List Char → List (List Char)
  | [] => [[]]
  | c :: cs =>
    if c = sep then [] :: split sep cs
    else match split sep cs with
      | [] => [[c]]
      | piece :: pieces => (c :: piece) :: pieces

/-- The lines of a text: its pieces between newlines. -/
def lines (cs : List Char) : List (List Char) := split '\n' cs

/-- One text of the given lines, without a newline at its end. -/
def unlines (ls : List (List Char)) : List Char := ['\n'].intercalate ls

/-! ### Splitting and joining -/

theorem split_ne_nil (sep : Char) (cs : List Char) : split sep cs ≠ [] := by
  induction cs with
  | nil => simp [split]
  | cons c cs ih =>
    rw [split]
    split
    · simp
    · split <;> simp

/-- A text up to a separator is the first piece. -/
theorem split_append_sep {sep : Char} {l : List Char} (h : sep ∉ l) (r : List Char) :
    split sep (l ++ sep :: r) = l :: split sep r := by
  induction l with
  | nil => simp [split]
  | cons c l ih =>
    obtain ⟨hc, hl⟩ : sep ≠ c ∧ sep ∉ l := by simpa using h
    simp [split, Ne.symm hc, ih hl]

/-- A text without the separator is one piece. -/
theorem split_eq_singleton {sep : Char} {l : List Char} (h : sep ∉ l) : split sep l = [l] := by
  induction l with
  | nil => rfl
  | cons c l ih =>
    obtain ⟨hc, hl⟩ : sep ≠ c ∧ sep ∉ l := by simpa using h
    simp [split, Ne.symm hc, ih hl]

theorem not_mem_of_mem_split {sep : Char} {cs l : List Char} (h : l ∈ split sep cs) :
    sep ∉ l := by
  induction cs generalizing l with
  | nil => simp_all [split]
  | cons c cs ih =>
    rw [split] at h
    split at h
    · rcases List.mem_cons.1 h with rfl | h
      · simp
      · exact ih h
    · next hc =>
      split at h
      · obtain rfl := List.mem_singleton.1 h
        simpa using Ne.symm hc
      · next piece pieces heq =>
        rcases List.mem_cons.1 h with rfl | h
        · have : sep ∉ piece := ih (by simp [heq])
          simp [this, Ne.symm hc]
        · exact ih (by simp [heq, h])

/-- The separators put back between the pieces give the text. -/
theorem intercalate_split (sep : Char) (cs : List Char) :
    [sep].intercalate (split sep cs) = cs := by
  induction cs with
  | nil => simp [split]
  | cons c cs ih =>
    rw [split]
    rcases h : split sep cs with - | ⟨piece, pieces⟩
    · exact absurd h (split_ne_nil sep cs)
    · rw [h] at ih
      split
      · next hc => simp [← ih, hc]
      · rw [← ih]
        rcases pieces with - | ⟨next, pieces⟩ <;> simp

/-- Pieces without the separator in them are found again. -/
theorem split_intercalate {sep : Char} {ls : List (List Char)} (hne : ls ≠ [])
    (h : ∀ l ∈ ls, sep ∉ l) : split sep ([sep].intercalate ls) = ls := by
  induction ls with
  | nil => exact absurd rfl hne
  | cons l ls ih =>
    have hl : sep ∉ l := h l (by simp)
    rcases ls with - | ⟨next, ls⟩
    · simpa using split_eq_singleton hl
    · rw [List.intercalate_cons_cons, List.append_assoc, List.singleton_append,
        split_append_sep hl, ih (by simp) (fun x hx => h x (by simp [hx]))]

@[simp] theorem unlines_lines (cs : List Char) : unlines (lines cs) = cs :=
  intercalate_split '\n' cs

theorem lines_unlines {ls : List (List Char)} (hne : ls ≠ []) (h : ∀ line ∈ ls, '\n' ∉ line) :
    lines (unlines ls) = ls :=
  split_intercalate hne h

end Rulebook.Text
