/-
Rulebook/Text/Blank.lean

White space, by the Unicode property White_Space: twenty-five code points,
among them the no-break space and the line and paragraph separators.  A text is
blank when it holds nothing else, and `trim` takes it off both ends.
-/

namespace Rulebook.Text

/-- Whether a character has the Unicode property White_Space. -/
def isBlank (c : Char) : Bool :=
  (0x9 ≤ c.toNat && c.toNat ≤ 0xd) || c.toNat == 0x20 || c.toNat == 0x85 || c.toNat == 0xa0
    || c.toNat == 0x1680 || (0x2000 ≤ c.toNat && c.toNat ≤ 0x200a) || c.toNat == 0x2028
    || c.toNat == 0x2029 || c.toNat == 0x202f || c.toNat == 0x205f || c.toNat == 0x3000

/-- The text without the white space at its start. -/
def trimStart (cs : List Char) : List Char := cs.dropWhile isBlank

/-- The text without the white space at its end. -/
def trimEnd (cs : List Char) : List Char := (cs.reverse.dropWhile isBlank).reverse

/-- The text without the white space at either end. -/
def trim (cs : List Char) : List Char := trimEnd (trimStart cs)

/-- Whether a text is all white space. -/
def allBlank (cs : List Char) : Bool := cs.all isBlank

/-! ### Trimming and blankness -/

theorem trimStart_cons_of_isBlank {c : Char} (h : isBlank c = true) (cs : List Char) :
    trimStart (c :: cs) = trimStart cs := List.dropWhile_cons_of_pos h

theorem allBlank_cons_of_isBlank {c : Char} (h : isBlank c = true) (cs : List Char) :
    allBlank (c :: cs) = allBlank cs := by
  rw [allBlank, List.all_cons, h, Bool.true_and, allBlank]

theorem trimStart_eq_nil_iff (cs : List Char) : trimStart cs = [] ↔ allBlank cs = true := by
  induction cs with
  | nil => simp [trimStart, allBlank]
  | cons c cs ih =>
    rcases h : isBlank c with - | -
    · simp [trimStart, allBlank, h]
    · rw [trimStart_cons_of_isBlank h, allBlank_cons_of_isBlank h]
      exact ih

theorem trimEnd_eq_nil_iff (cs : List Char) : trimEnd cs = [] ↔ allBlank cs = true := by
  rw [trimEnd, List.reverse_eq_nil_iff, ← trimStart, trimStart_eq_nil_iff, allBlank, allBlank,
    List.all_reverse]

theorem allBlank_trimStart (cs : List Char) : allBlank (trimStart cs) = allBlank cs := by
  induction cs with
  | nil => rfl
  | cons c cs ih =>
    rcases h : isBlank c with - | -
    · simp [trimStart, h]
    · rw [trimStart_cons_of_isBlank h, allBlank_cons_of_isBlank h]
      exact ih

/-- Trimming leaves nothing of a blank text, and something of every other. -/
theorem trim_eq_nil_iff (cs : List Char) : trim cs = [] ↔ allBlank cs = true := by
  rw [trim, trimEnd_eq_nil_iff, allBlank_trimStart]

end Rulebook.Text
