/-
Rulebook/Proofs/RepeatedExcerpts.lean

Excerpts taken again and again.  Whoever an excerpt is for, a heading that it shows has lost
the bracket of the tag that was cut out of it, or held none to begin with; headings with
brackets and without that tag are hidden.  So the number of brackets that the headings of a text
hold at most (`headingBrackets`) falls with every excerpt, until there are none
(`headingBrackets_excerpt_le`, and over a whole row of excerpts
`headingBrackets_lastExcerpt_le`).  Lines of text never become headings on the way.

An excerpt without brackets in its headings is its own excerpt for everyone
(`excerpt_excerpt_of_headingBrackets`), and a text with any is its own excerpt for no one
(`excerpt_ne`).  The row `#[cursor][cursor]…#` loses one bracket at a time
(`lastExcerpt_replicate`), so the bound cannot be better.

Main result `excerpts_settle`: after as many excerpts as a heading holds brackets, and at least
one, the text has settled, and fewer excerpts do not suffice.
-/
import Mathlib.Data.List.MinMax
import Mathlib.Order.Nat
import Rulebook.Proofs.ShownLines

namespace Rulebook

open Text

variable {a b : Assistant} {s : Section} {line rest shown cs : List Char} {c : Char}
variable {text : String} {as : List Assistant} {k : Nat}

/-! ### Trimming -/

namespace Text

theorem count_dropWhile_isBlank (h : isBlank c = false) (cs : List Char) :
    (cs.dropWhile isBlank).count c = cs.count c := by
  have htake : (cs.takeWhile isBlank).count c = 0 := by
    rw [List.count_eq_zero]
    intro hmem
    simp [List.mem_takeWhile_imp hmem] at h
  have hall : (cs.takeWhile isBlank ++ cs.dropWhile isBlank).count c = cs.count c := by
    rw [List.takeWhile_append_dropWhile]
  rw [List.count_append, htake, Nat.zero_add] at hall
  exact hall

/-- Trimming takes none of the characters that are no white space. -/
theorem count_trim (h : isBlank c = false) (cs : List Char) : (trim cs).count c = cs.count c := by
  rw [trim, trimEnd, List.count_reverse, count_dropWhile_isBlank h, List.count_reverse, trimStart,
    count_dropWhile_isBlank h]

/-- A text that starts and ends with something else than white space is trimmed already. -/
theorem trim_cons_concat {d : Char} (hc : isBlank c = false) (hd : isBlank d = false)
    (cs : List Char) : trim (c :: (cs ++ [d])) = c :: (cs ++ [d]) := by
  rw [trim_cons hc, trimEnd, List.reverse_concat, List.dropWhile_cons_of_neg (by simp [hd]),
    List.reverse_cons, List.reverse_reverse]

end Text

/-! ### Brackets in headings -/

/-- The number of brackets in the heading of a text that holds the most; none if it has no
heading. -/
def headingBrackets (text : String) : Nat :=
  (((lines text.toList).filter isHeading).map (·.count '[')).foldr max 0

theorem headingBrackets_le_iff : headingBrackets text ≤ k ↔
    ∀ line ∈ lines text.toList, isHeading line = true → line.count '[' ≤ k := by
  constructor
  · intro h line hline hh
    refine le_trans ?_ h
    apply List.le_max_of_le' 0 _ (Nat.le_refl _)
    exact List.mem_map_of_mem (List.mem_filter.2 ⟨hline, hh⟩)
  · intro h
    show List.foldr max ⊥ _ ≤ k
    apply List.max_le_of_forall_le
    intro n hn
    obtain ⟨line, hline, rfl⟩ := List.mem_map.1 hn
    obtain ⟨hline, hh⟩ := List.mem_filter.1 hline
    exact h line hline hh

theorem count_bracket_tag (a : Assistant) : a.tag.count '[' = 1 := by
  cases a <;> decide

theorem IsCut.count_bracket (h : IsCut a.tag line rest) :
    line.count '[' = rest.count '[' + 1 := by
  obtain ⟨before, after, rfl, rfl, -⟩ := h
  simp only [List.count_append, count_bracket_tag]
  omega

/-! ### One excerpt -/

/-- A heading that is shown comes from a heading, and one bracket of that is gone if it held
any. -/
theorem Section.count_bracket_shown (h : s.shown? line (.ofLine a.tag line) = some shown)
    (hh : isHeading shown = true) :
    isHeading line = true ∧ shown.count '[' ≤ line.count '[' - 1 := by
  rcases shown?_cases h with ⟨hline, rest, hcut, rfl⟩ | ⟨rfl, -, hno⟩
  · refine ⟨hline, ?_⟩
    rw [count_trim (by decide), hcut.count_bracket, Nat.add_sub_cancel]
  · refine ⟨hh, ?_⟩
    rw [List.count_eq_zero.2 (hno hh)]

/-- The headings of an excerpt are those among the lines that it shows. -/
theorem mem_lines_excerpt_iff (hh : isHeading line = true) :
    line ∈ lines (excerpt a text).toList ↔ line ∈ excerptLines a text.toList := by
  by_cases hnil : excerptLines a text.toList = []
  · -- a text of no lines has one, which is no heading
    rw [toList_excerpt, hnil]
    refine iff_of_false ?_ List.not_mem_nil
    intro hline
    obtain rfl : line = [] := List.mem_singleton.1 hline
    cases hh
  · rw [lines_excerpt hnil]

/-- An excerpt takes a bracket out of every heading that holds one, or the heading with it. -/
theorem headingBrackets_excerpt_le (a : Assistant) (text : String) :
    headingBrackets (excerpt a text) ≤ headingBrackets text - 1 := by
  rw [headingBrackets_le_iff]
  intro shown hshown hh
  obtain ⟨line, hline, s, hs⟩ :=
    Section.exists_of_mem_select ((mem_lines_excerpt_iff hh).1 hshown)
  obtain ⟨hheading, hcount⟩ := Section.count_bracket_shown hs hh
  have hmost : line.count '[' ≤ headingBrackets text :=
    headingBrackets_le_iff.1 (Nat.le_refl _) line hline hheading
  omega

/-- An excerpt without brackets in its headings is its own excerpt, for whomever. -/
theorem excerpt_excerpt_of_headingBrackets (h : headingBrackets (excerpt a text) = 0)
    (b : Assistant) : excerpt b (excerpt a text) = excerpt a text := by
  have hlines : ∀ line ∈ excerptLines a text.toList, '\n' ∉ line ∧ allBlank line = false :=
    fun line => isLine_of_mem_excerptLines
  have hno : ∀ line ∈ excerptLines a text.toList, isHeading line = true → '[' ∉ line := by
    intro line hline hh
    rw [← List.count_eq_zero, ← Nat.le_zero]
    exact headingBrackets_le_iff.1 (Nat.le_of_eq h) line ((mem_lines_excerpt_iff hh).2 hline) hh
  apply String.toList_inj.1
  rw [toList_excerpt, toList_excerpt, excerptLines_unlines b fun l hl => (hlines l hl).1]
  exact congrArg unlines
    ((Section.select_eq_self_iff (by decide) fun l hl => (hlines l hl).2).2 hno)

/-- A text with a bracket in a heading is its own excerpt for no one. -/
theorem excerpt_ne (h : headingBrackets text ≠ 0) (a : Assistant) : excerpt a text ≠ text := by
  intro heq
  have hless := headingBrackets_excerpt_le a text
  rw [heq] at hless
  omega

/-! ### Excerpts in a row -/

/-- What is left of a text after taking the excerpt for each assistant in turn. -/
def lastExcerpt (as : List Assistant) (text : String) : String := (excerpts as text).getLastD text

@[simp] theorem lastExcerpt_nil (text : String) : lastExcerpt [] text = text := rfl

@[simp] theorem lastExcerpt_cons (a : Assistant) (as : List Assistant) (text : String) :
    lastExcerpt (a :: as) text = lastExcerpt as (excerpt a text) := by
  rw [lastExcerpt, excerpts, List.getLastD_cons]
  rfl

theorem lastExcerpt_concat (as : List Assistant) (a : Assistant) (text : String) :
    lastExcerpt (as ++ [a]) text = excerpt a (lastExcerpt as text) := by
  induction as generalizing text with
  | nil => rfl
  | cons b as ih =>
    rw [List.cons_append, lastExcerpt_cons, lastExcerpt_cons]
    exact ih (excerpt b text)

theorem headingBrackets_lastExcerpt_le (as : List Assistant) (text : String) :
    headingBrackets (lastExcerpt as text) ≤ headingBrackets text - as.length := by
  induction as generalizing text with
  | nil => exact Nat.le_refl _
  | cons a as ih =>
    have hfirst := headingBrackets_excerpt_le a text
    have hlater := ih (excerpt a text)
    rw [lastExcerpt_cons, List.length_cons]
    omega

/-- After as many excerpts as a heading holds brackets, and at least one, a text has settled. -/
theorem excerpt_lastExcerpt (h : max 1 (headingBrackets text) ≤ as.length) (b : Assistant) :
    excerpt b (lastExcerpt as text) = lastExcerpt as text := by
  obtain ⟨hone, hmost⟩ := Nat.max_le.1 h
  have hnone := headingBrackets_lastExcerpt_le as text
  rw [Nat.sub_eq_zero_of_le hmost, Nat.le_zero] at hnone
  -- at least one excerpt has been taken, and what is left is the last of them
  obtain ⟨init, a, rfl⟩ := (List.eq_nil_or_concat' as).resolve_left (List.length_pos_iff.1 hone)
  rw [lastExcerpt_concat] at hnone ⊢
  exact excerpt_excerpt_of_headingBrackets hnone b

/-! ### Tags in a row -/

/-- A heading with nothing but a row of tags in it. -/
def tagRow (a : Assistant) (k : Nat) : List Char := '#' :: ((List.replicate k a.tag).flatten ++ ['#'])

theorem newline_not_mem_tagRow (a : Assistant) (k : Nat) : '\n' ∉ tagRow a k := by
  have htag : '\n' ∉ a.tag := by cases a <;> decide
  simp [tagRow, htag]

theorem lines_tagRow (a : Assistant) (k : Nat) :
    lines (String.ofList (tagRow a k)).toList = [tagRow a k] := by
  rw [String.toList_ofList]
  exact split_eq_singleton (newline_not_mem_tagRow a k)

theorem headingBrackets_tagRow (a : Assistant) (k : Nat) :
    headingBrackets (String.ofList (tagRow a k)) = k := by
  rw [headingBrackets, lines_tagRow]
  simp [tagRow, isHeading, List.count_flatten, count_bracket_tag]

/-- The first tag of the row follows the `#` that opens it. -/
theorem isCut_tagRow (a : Assistant) (k : Nat) : IsCut a.tag (tagRow a (k + 1)) (tagRow a k) := by
  refine ⟨['#'], (List.replicate k a.tag).flatten ++ ['#'], ?_, rfl, ?_⟩
  · rw [tagRow, List.replicate_succ, List.flatten_cons, List.append_assoc, List.append_assoc]
    rfl
  · intro before after heq
    rcases before with - | ⟨c, before⟩
    · cases heq
    · exact Nat.succ_le_succ (Nat.zero_le _)

/-- An excerpt takes one tag of the row. -/
theorem excerpt_tagRow (a : Assistant) (k : Nat) :
    excerpt a (String.ofList (tagRow a (k + 1))) = String.ofList (tagRow a k) := by
  have hrole : LineRole.ofLine a.tag (tagRow a (k + 1)) = .ownHeading (tagRow a k) := by
    have hh : isHeading (tagRow a (k + 1)) = true := rfl
    rw [LineRole.ofLine, if_pos hh, cutFirst?_eq_some_iff.2 (isCut_tagRow a k)]
  have htrim : trim (tagRow a k) = tagRow a k := trim_cons_concat (by decide) (by decide) _
  rw [excerpt, excerptLines, lines_tagRow, Section.select_cons, hrole]
  show String.ofList (unlines [trim (tagRow a k)]) = _
  rw [htrim, unlines, List.intercalate_singleton]

/-- As many excerpts take as many tags. -/
theorem lastExcerpt_replicate (a : Assistant) (n k : Nat) :
    lastExcerpt (List.replicate n a) (String.ofList (tagRow a (k + n))) =
      String.ofList (tagRow a k) := by
  induction n with
  | zero => rfl
  | succ n ih =>
    rw [List.replicate_succ, lastExcerpt_cons, ← Nat.add_assoc, excerpt_tagRow]
    exact ih

/-! ### Settling -/

/-- Once as many excerpts have been taken as one heading of the text holds brackets at most, and
at least one, what is left is its own excerpt for everyone.  For every number of brackets from two
on there is a text for which one excerpt less is not enough. -/
theorem excerpts_settle :
    (∀ (text : String) (as : List Assistant), max 1 (headingBrackets text) ≤ as.length →
      ∀ b, excerpt b (lastExcerpt as text) = lastExcerpt as text) ∧
    ∀ k, 2 ≤ k → ∃ (text : String) (as : List Assistant),
      headingBrackets text = k ∧ as.length = k - 1 ∧
        ∀ b, excerpt b (lastExcerpt as text) ≠ lastExcerpt as text := by
  refine ⟨fun text as h b => excerpt_lastExcerpt h b, fun k hk => ?_⟩
  obtain ⟨n, rfl⟩ : ∃ n, k = 1 + n := Nat.exists_eq_add_of_le (by omega)
  refine ⟨String.ofList (tagRow .cursor (1 + n)), List.replicate n .cursor,
    headingBrackets_tagRow _ _, by simp, ?_⟩
  rw [lastExcerpt_replicate]
  exact excerpt_ne (by simp [headingBrackets_tagRow])

/-- A text with three brackets in a heading, of which two make one tag. -/
def nestedTags : String := "# [cur[cursor]sor] and [cline]\ntext\n## [copilot]\nmore"

theorem excerpts_settle_nestedTags :
    headingBrackets nestedTags = 3 ∧
    lastExcerpt [.cursor, .cursor, .cline] nestedTags = "#  and\ntext" ∧
    (∀ b, excerpt b (lastExcerpt [.cursor, .cursor, .cline] nestedTags) =
      lastExcerpt [.cursor, .cursor, .cline] nestedTags) ∧
    ∃ (text : String) (as : List Assistant), headingBrackets text = 3 ∧ as.length = 2 ∧
      ∀ b, excerpt b (lastExcerpt as text) ≠ lastExcerpt as text := by
  have hbrackets : headingBrackets nestedTags = 3 := by decide +kernel
  obtain ⟨hsettled, hsharp⟩ := excerpts_settle
  exact ⟨hbrackets, by decide +kernel, hsettled _ _ (by rw [hbrackets]; decide),
    hsharp 3 (by decide)⟩

end Rulebook
