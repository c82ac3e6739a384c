/-
Rulebook/Proofs/Stability.lean

Excerpts of excerpts.  An excerpt leaves characters of its text out and does nothing else
(`excerpt_sublist`), so an excerpt that is not the whole text is shorter than it.

What an excerpt shows are lines that are not blank, and splitting it gives these lines back
(`excerptLines_unlines`).  A second excerpt, for whomever, shows them all as they are exactly
when no heading among them holds a bracket (`select_eq_self_iff`).  A heading that still
holds one has come from a heading that held the first assistant's tag and a bracket beside
it, such as `# [cur[cursor]sor]`; all other headings that are shown hold none
(`headings_select_iff`).

Main result `excerpt_excerpt_eq_iff`: a second excerpt gives the first one back if and only
if the tags of the first assistant stand alone in the headings that hold them.
-/
import Mathlib.Data.List.Flatten
import Rulebook.Proofs.Disk.Name
import Rulebook.Proofs.Sections

namespace Rulebook

open Text

variable {a : Assistant} {s : Section} {tag line rest text : List Char} {ls : List (List Char)}

/-! ### Texts with characters left out -/

namespace Text

theorem trim_sublist (cs : List Char) : (trim cs).Sublist cs := by
  have hend : (trimEnd (trimStart cs)).Sublist (trimStart cs) := by
    rw [← List.reverse_sublist, trimEnd, List.reverse_reverse]
    exact List.dropWhile_sublist isBlank
  exact hend.trans (List.dropWhile_sublist isBlank)

/-- Lines that all end in a newline are the text of the lines with one more newline. -/
theorem unlines_append_newline (hne : ls ≠ []) :
    unlines ls ++ ['\n'] = ls.flatMap (· ++ ['\n']) := by
  induction ls with
  | nil => exact absurd rfl hne
  | cons line ls ih =>
    rcases ls with - | ⟨next, ls⟩
    · simp [unlines]
    · rw [List.flatMap_cons, ← ih (by simp), unlines, unlines, List.intercalate_cons_cons]
      simp [List.append_assoc]

/-- A text with some characters left out is shorter, in characters and in bytes. -/
theorem length_lt_of_sublist {t u : String} (h : t.toList.Sublist u.toList) (hne : t ≠ u) :
    t.length < u.length ∧ t.utf8ByteSize < u.utf8ByteSize := by
  have hchars : t.toList ≠ u.toList := fun heq => hne (String.toList_inj.1 heq)
  have hbytes : (utf8 t.toList).Sublist (utf8 u.toList) := h.flatMap _
  constructor
  · rw [← String.length_toList, ← String.length_toList]
    exact Nat.lt_of_le_of_ne h.length_le fun hlen => hchars (h.eq_of_length hlen)
  · rw [← length_utf8, ← length_utf8]
    exact Nat.lt_of_le_of_ne hbytes.length_le fun hlen =>
      hchars (utf8_inj.1 (hbytes.eq_of_length hlen))

/-- Lines that are not blank are known from their text. -/
theorem unlines_inj {ms : List (List Char)}
    (hls : ∀ line ∈ ls, '\n' ∉ line ∧ allBlank line = false)
    (hms : ∀ line ∈ ms, '\n' ∉ line ∧ allBlank line = false) :
    unlines ls = unlines ms ↔ ls = ms := by
  -- a text of no lines has one, which is blank
  have hback : ∀ ls : List (List Char), (∀ line ∈ ls, '\n' ∉ line ∧ allBlank line = false) →
      (lines (unlines ls)).filter (!allBlank ·) = ls := by
    intro ls hls
    by_cases hne : ls = []
    · subst hne
      rfl
    · rw [lines_unlines hne fun line hline => (hls line hline).1]
      exact List.filter_eq_self.2 fun line hline => by simp [(hls line hline).2]
  constructor
  · intro heq
    rw [← hback ls hls, ← hback ms hms, heq]
  · rintro rfl
    rfl

end Text

/-! ### An excerpt as a part of its text -/

theorem IsCut.sublist (h : IsCut tag line rest) : rest.Sublist line := by
  obtain ⟨before, after, rfl, rfl, -⟩ := h
  exact (List.sublist_append_left before tag).append (List.Sublist.refl after)

/-- The lines shown of a list start with what is shown of its first line. -/
theorem Section.select_cons (tag : List Char) (s : Section) (line : List Char)
    (ls : List (List Char)) :
    select tag s (line :: ls) =
      (s.shown? line (.ofLine tag line)).toList ++ select tag (s.next (.ofLine tag line)) ls := by
  rw [select]
  rcases s.shown? line (.ofLine tag line) with - | text <;> rfl

theorem isHeading_iff : isHeading line = true ↔ ∃ cs, line = '#' :: cs := by
  rcases line with - | ⟨c, cs⟩ <;> simp [isHeading]

theorem allBlank_of_isHeading (h : isHeading line = true) : allBlank line = false := by
  obtain ⟨cs, rfl⟩ := isHeading_iff.1 h
  rfl

/-- What is shown of a line is what the tag leaves of a heading, or the line as it is. -/
theorem Section.shown?_cases (h : s.shown? line (.ofLine tag line) = some text) :
    (isHeading line = true ∧ ∃ rest, IsCut tag line rest ∧ text = trim rest) ∨
      (text = line ∧ allBlank line = false ∧ (isHeading line = true → '[' ∉ line)) := by
  rcases hh : isHeading line with - | -
  · rcases hb : allBlank line with - | -
    · have htext : s ≠ .foreign ∧ line = text := by simpa [LineRole.ofLine, hh, hb, shown?] using h
      exact .inr ⟨htext.2.symm, rfl, by simp⟩
    · simp [LineRole.ofLine, hh, hb, shown?] at h
  · rcases hc : cutFirst? tag line with - | rest
    · by_cases hbr : '[' ∈ line
      · simp [LineRole.ofLine, hh, hc, hbr, shown?] at h
      · obtain rfl : line = text := by simpa [LineRole.ofLine, hh, hc, hbr, shown?] using h
        exact .inr ⟨rfl, allBlank_of_isHeading hh, fun _ => hbr⟩
    · obtain rfl : trim rest = text := by simpa [LineRole.ofLine, hh, hc, shown?] using h
      exact .inl ⟨rfl, rest, isCut_of_cutFirst? hc, rfl⟩

theorem Section.shown?_sublist (h : s.shown? line (.ofLine tag line) = some text) :
    text.Sublist line := by
  rcases shown?_cases h with ⟨-, rest, hcut, rfl⟩ | ⟨rfl, -⟩
  · exact (trim_sublist rest).trans hcut.sublist
  · exact List.Sublist.refl _

/-- Each line that is shown is a part of its own line, with its own newline. -/
theorem Section.select_sublist (tag : List Char) (s : Section) (ls : List (List Char)) :
    ((select tag s ls).flatMap (· ++ ['\n'])).Sublist (ls.flatMap (· ++ ['\n'])) := by
  induction ls generalizing s with
  | nil => exact List.Sublist.refl _
  | cons line ls ih =>
    rw [select_cons, List.flatMap_append, List.flatMap_cons]
    apply List.Sublist.append _ (ih _)
    rcases h : s.shown? line (.ofLine tag line) with - | text
    · exact List.nil_sublist _
    · simpa using shown?_sublist h

/-- An excerpt is its text with some characters left out. -/
theorem excerpt_sublist (a : Assistant) (text : String) :
    (excerpt a text).toList.Sublist text.toList := by
  rw [toList_excerpt, excerptLines]
  by_cases hnil : Section.select a.tag .shared (lines text.toList) = []
  · rw [hnil]
    exact List.nil_sublist _
  · -- the newline that the last line lacks is put there, and taken off again at the end
    have hlines : lines text.toList ≠ [] := split_ne_nil _ _
    have h := Section.select_sublist a.tag .shared (lines text.toList)
    rw [← unlines_append_newline hnil, ← unlines_append_newline hlines,
      List.append_sublist_append_right, unlines_lines] at h
    exact h

/-! ### Lines that are shown -/

theorem Section.exists_of_mem_select (h : text ∈ select tag s ls) :
    ∃ line ∈ ls, ∃ s' : Section, s'.shown? line (.ofLine tag line) = some text := by
  induction ls generalizing s with
  | nil => simp [select] at h
  | cons line ls ih =>
    rw [select_cons, List.mem_append, Option.mem_toList] at h
    rcases h with h | h
    · exact ⟨line, List.mem_cons_self, s, h⟩
    · obtain ⟨l, hl, hs⟩ := ih h
      exact ⟨l, List.mem_cons_of_mem _ hl, hs⟩

/-- A text made of lines without newlines has the excerpt that these lines have. -/
theorem excerptLines_unlines (a : Assistant) (hls : ∀ line ∈ ls, '\n' ∉ line) :
    excerptLines a (unlines ls) = Section.select a.tag .shared ls := by
  by_cases hne : ls = []
  · subst hne
    rfl
  · rw [excerptLines, lines_unlines hne hls]

/-! ### Headings that are shown -/

/-- Trimming takes nothing but white space. -/
theorem Text.mem_trim_iff {c : Char} {cs : List Char} (h : isBlank c = false) :
    c ∈ trim cs ↔ c ∈ cs := by
  have hdrop : ∀ cs : List Char, c ∈ cs.dropWhile isBlank ↔ c ∈ cs := by
    intro cs
    constructor
    · exact fun hc => (List.dropWhile_sublist isBlank).subset hc
    · intro hc
      rw [← List.takeWhile_append_dropWhile (p := isBlank) (l := cs), List.mem_append] at hc
      exact hc.resolve_left fun htake => by simp [List.mem_takeWhile_imp htake] at h
  rw [trim, trimEnd, List.mem_reverse, hdrop, List.mem_reverse, trimStart, hdrop]

theorem Text.trim_cons {c : Char} (h : isBlank c = false) (cs : List Char) :
    trim (c :: cs) = c :: trimEnd cs := by
  have hstart : trimStart (c :: cs) = c :: cs := by simp [trimStart, h]
  rw [trim, hstart, trimEnd, List.reverse_cons, List.dropWhile_append]
  split
  · next hnil =>
    rw [List.isEmpty_iff] at hnil
    simp [trimEnd, h, hnil]
  · simp [trimEnd]

/-- What is left of a heading is a heading still: no tag starts with `#`. -/
theorem IsCut.isHeading_trim (h : IsCut a.tag line rest) (hh : isHeading line = true) :
    isHeading (trim rest) = true := by
  obtain ⟨before, after, hline, rfl, -⟩ := h
  obtain ⟨cs, rfl⟩ := isHeading_iff.1 hh
  rcases before with - | ⟨c, before⟩
  · simp [Assistant.tag] at hline
  · obtain rfl : '#' = c := (List.cons.inj hline).1
    exact isHeading_iff.2 ⟨_, trim_cons (by decide) _⟩

/-- A line that is shown is one line still, and not blank. -/
theorem Section.isLine_of_mem_select (hls : ∀ line ∈ ls, '\n' ∉ line)
    (h : text ∈ select a.tag s ls) : '\n' ∉ text ∧ allBlank text = false := by
  obtain ⟨line, hline, s', hs⟩ := exists_of_mem_select h
  refine ⟨fun hmem => hls line hline ((shown?_sublist hs).subset hmem), ?_⟩
  rcases shown?_cases hs with ⟨hh, rest, hcut, rfl⟩ | ⟨rfl, hblank, -⟩
  · exact allBlank_of_isHeading (hcut.isHeading_trim hh)
  · exact hblank

theorem cutFirst?_eq_some_iff : cutFirst? tag line = some rest ↔ IsCut tag line rest := by
  constructor
  · exact isCut_of_cutFirst?
  · intro h
    rcases hc : cutFirst? tag line with - | rest'
    · exact absurd h.isInfix (cutFirst?_eq_none_iff.1 hc)
    · rw [(isCut_of_cutFirst? hc).unique h]

/-- A heading with the assistant's tag is shown in any section. -/
theorem Section.trim_mem_select (s : Section) (hline : line ∈ ls) (hh : isHeading line = true)
    (hcut : IsCut tag line rest) : trim rest ∈ select tag s ls := by
  induction ls generalizing s with
  | nil => exact absurd hline List.not_mem_nil
  | cons l ls ih =>
    rw [select_cons, List.mem_append]
    rcases List.mem_cons.1 hline with rfl | hline
    · left
      simp [LineRole.ofLine, hh, cutFirst?_eq_some_iff.2 hcut, shown?]
    · exact .inr (ih _ hline)

/-- The headings shown hold no bracket when none is left in a heading by its tag. -/
theorem Section.headings_select_iff :
    (∀ text ∈ select a.tag s ls, isHeading text = true → '[' ∉ text) ↔
      ∀ line ∈ ls, isHeading line = true → ∀ rest, IsCut a.tag line rest → '[' ∉ rest := by
  have hbracket : isBlank '[' = false := by decide
  constructor
  · intro h line hline hh rest hcut
    rw [← mem_trim_iff hbracket]
    exact h _ (trim_mem_select s hline hh hcut) (hcut.isHeading_trim hh)
  · intro h text htext
    obtain ⟨line, hline, s', hs⟩ := exists_of_mem_select htext
    rcases shown?_cases hs with ⟨hh, rest, hcut, rfl⟩ | ⟨rfl, -, hno⟩
    · intro _
      rw [mem_trim_iff hbracket]
      exact h line hline hh rest hcut
    · exact hno

/-! ### Lines that are shown as they are -/

theorem Section.length_select_le (tag : List Char) (s : Section) (ls : List (List Char)) :
    (select tag s ls).length ≤ ls.length := by
  induction ls generalizing s with
  | nil => exact Nat.le_refl _
  | cons line ls ih =>
    have hshown : (s.shown? line (.ofLine tag line)).toList.length ≤ 1 :=
      Option.length_toList_le
    rw [select_cons, List.length_append, List.length_cons, Nat.add_comm ls.length]
    exact Nat.add_le_add hshown (ih _)

/-- What a tag leaves of a line is shorter than the line. -/
theorem IsCut.length_trim_lt (h : IsCut a.tag line rest) : (trim rest).length < line.length := by
  have htag : 0 < a.tag.length := List.length_pos_of_mem (bracket_mem_tag a)
  have htrim : (trim rest).length ≤ rest.length := (trim_sublist rest).length_le
  obtain ⟨before, after, rfl, rfl, -⟩ := h
  simp only [List.length_append] at htrim ⊢
  omega

/-- Outside of foreign sections all lines are shown as they are when no heading among them
holds a bracket, and then only. -/
theorem Section.select_eq_self_iff (hs : s ≠ .foreign) (hls : ∀ line ∈ ls, allBlank line = false) :
    select a.tag s ls = ls ↔ ∀ line ∈ ls, isHeading line = true → '[' ∉ line := by
  induction ls generalizing s with
  | nil => simp [select]
  | cons line ls ih =>
    obtain ⟨hblank, hls⟩ := List.forall_mem_cons.1 hls
    rw [select_cons, List.forall_mem_cons]
    rcases hh : isHeading line with - | -
    · simpa [LineRole.ofLine, hh, hblank, shown?, next, hs] using ih hs hls
    · rcases hc : cutFirst? a.tag line with - | rest
      · by_cases hbr : '[' ∈ line
        · -- a foreign heading is hidden, and what follows cannot make up for it
          have hshort : (select a.tag .foreign ls).length ≤ ls.length := length_select_le _ _ _
          have hne : select a.tag .foreign ls ≠ line :: ls := by
            intro heq
            rw [heq, List.length_cons] at hshort
            omega
          simp [LineRole.ofLine, hh, hc, hbr, shown?, next, hne]
        · simpa [LineRole.ofLine, hh, hc, hbr, shown?, next] using ih (s := .shared) (by decide) hls
      · have hcut : IsCut a.tag line rest := isCut_of_cutFirst? hc
        have hbr : '[' ∈ line := hcut.isInfix.subset (bracket_mem_tag a)
        have hne : trim rest ≠ line := by
          intro heq
          exact absurd hcut.length_trim_lt (by simp [heq])
        simp [LineRole.ofLine, hh, hc, hbr, shown?, hne]

/-! ### Excerpts of excerpts -/

/-- Whether the tag of an assistant stands alone in every heading of a text that holds it:
no bracket is left when its first occurrence is cut out. -/
def TagsStandAlone (a : Assistant) (text : String) : Prop :=
  ∀ line ∈ lines text.toList, isHeading line = true →
    ∀ rest, IsCut a.tag line rest → '[' ∉ rest

/-- An excerpt of an excerpt, for the same or another assistant, is that excerpt exactly
when the tags of the first assistant stand alone.  If they do not, it is shorter. -/
theorem excerpt_excerpt_eq_iff (a b : Assistant) (text : String) :
    (excerpt b (excerpt a text) = excerpt a text ↔ TagsStandAlone a text) ∧
      (¬ TagsStandAlone a text →
        (excerpt b (excerpt a text)).length < (excerpt a text).length ∧
          (excerpt b (excerpt a text)).utf8ByteSize < (excerpt a text).utf8ByteSize) := by
  have hshown : ∀ line ∈ excerptLines a text.toList, '\n' ∉ line ∧ allBlank line = false :=
    fun line => Section.isLine_of_mem_select fun line => not_mem_of_mem_split
  have htwice : (excerpt b (excerpt a text)).toList =
      unlines (Section.select b.tag .shared (excerptLines a text.toList)) := by
    rw [toList_excerpt, toList_excerpt, excerptLines_unlines b fun line hl => (hshown line hl).1]
  have hiff : excerpt b (excerpt a text) = excerpt a text ↔ TagsStandAlone a text := by
    have hopen : Section.shared ≠ .foreign := by decide
    rw [← String.toList_inj, htwice, toList_excerpt, unlines_inj _ hshown,
      Section.select_eq_self_iff hopen fun line hl => (hshown line hl).2]
    · exact Section.headings_select_iff
    · exact fun line => Section.isLine_of_mem_select fun line hl => (hshown line hl).1
  refine ⟨hiff, fun hno => ?_⟩
  exact length_lt_of_sublist (excerpt_sublist b _) fun heq => hno (hiff.1 heq)

/-- Cutting a tag out can leave another one, which a second excerpt takes for its own. -/
example : excerpts [.cursor, .cursor] "# [cur[cursor]sor]\ntext" =
    ["# [cursor]\ntext", "#\ntext"] := by
  decide +kernel

end Rulebook
