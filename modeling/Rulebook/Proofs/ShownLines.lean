/-
Rulebook/Proofs/ShownLines.lean

The lines of an excerpt.  What is shown of a text are lines, and none of them is blank: a
heading keeps its `#` when a tag is cut out of it, and blank lines are hidden
(`isLine_of_mem_excerptLines`).

A text has an empty line where two newlines stand in a row, or one stands at its start or its
end, and nowhere else (`isTight_concat_iff`).  So a text of lines that are not blank has no such
newlines.  It gives its lines back when it is cut, and is blank only if there are none
(`isTextOf_unlines`).

Main result `excerpt_isTextOf_shown`: an excerpt is made of what the lines of its text
contribute, and a document is left out just if none of its lines contributes anything, so never
with a line that is shown.
-/
import Mathlib.Data.List.Chain
import Rulebook.Document
import Rulebook.Proofs.Stability

namespace Rulebook

open Text

variable {a : Assistant} {doc : Document} {text : String}
variable {c : Char} {line cs : List Char} {ls : List (List Char)}

namespace Text

/-! ### Newlines in a row -/

/-- Whether no two newlines stand in a row. -/
def IsTight (cs : List Char) : Prop := cs.IsChain fun c d => c = '\n' → d ≠ '\n'

theorem not_isTight (cs : List Char) : ¬ IsTight ('\n' :: '\n' :: cs) :=
  fun h => (List.isChain_cons_cons.1 h).1 rfl rfl

theorem isTight_cons_iff (hc : c ≠ '\n') : IsTight (c :: cs) ↔ IsTight cs := by
  constructor
  · exact fun h => (List.isChain_cons.1 h).2
  · exact fun h => List.isChain_cons.2 ⟨fun _ _ heq => absurd heq hc, h⟩

theorem isTight_newline_cons_iff (hc : c ≠ '\n') :
    IsTight ('\n' :: c :: cs) ↔ IsTight (c :: cs) := by
  constructor
  · exact fun h => (List.isChain_cons_cons.1 h).2
  · exact fun h => List.isChain_cons_cons.2 ⟨fun _ => hc, h⟩

theorem IsTight.no_two_newlines (h : IsTight cs) : ¬ ['\n', '\n'] <:+: cs := by
  intro hrow
  have hpair : IsTight ['\n', '\n'] := List.IsChain.infix h hrow
  exact not_isTight [] hpair

/-- With a newline put behind it, a text has two in a row just if some line but the first is
empty; with another one in front, just if any line is. -/
theorem isTight_concat_iff (cs : List Char) :
    (IsTight (cs ++ ['\n']) ↔ [] ∉ (lines cs).tail) ∧
      (IsTight ('\n' :: (cs ++ ['\n'])) ↔ [] ∉ lines cs) := by
  -- where a line ends, the first half is the second one of what follows
  induction cs with
  | nil =>
    exact ⟨iff_of_true (List.isChain_singleton _) List.not_mem_nil,
      iff_of_false (not_isTight []) fun h => h List.mem_cons_self⟩
  | cons c cs ih =>
    obtain ⟨ihtail, ihall⟩ := ih
    by_cases hc : c = '\n'
    · subst hc
      have hlines : lines ('\n' :: cs) = [] :: lines cs := rfl
      rw [hlines]
      exact ⟨ihall, iff_of_false (not_isTight _) fun h => h List.mem_cons_self⟩
    · obtain ⟨first, rest, hcs⟩ := List.exists_cons_of_ne_nil (split_ne_nil '\n' cs)
      have hlines : lines (c :: cs) = (c :: first) :: rest := by
        rw [lines, split, if_neg hc, hcs]
      rw [lines, hcs, List.tail_cons] at ihtail
      rw [hlines, List.cons_append, isTight_newline_cons_iff hc, isTight_cons_iff hc]
      exact ⟨ihtail, ihtail.trans (by simp)⟩

/-- Whether a text has newlines only between lines that are not empty. -/
structure HasNoLooseNewline (cs : List Char) : Prop where
  /-- There is none at the start, -/
  start : cs.head? ≠ some '\n'
  /-- none at the end, -/
  finish : cs.getLast? ≠ some '\n'
  /-- and no two stand in a row. -/
  inside : ¬ ['\n', '\n'] <:+: cs

theorem IsTight.hasNoLooseNewline (h : IsTight ('\n' :: (cs ++ ['\n']))) :
    HasNoLooseNewline cs := by
  constructor
  case start =>
    intro hhead
    obtain ⟨rest, rfl⟩ := List.head?_eq_some_iff.1 hhead
    exact not_isTight _ h
  case finish =>
    -- a newline at the end meets the one that is put behind it
    intro hlast
    obtain ⟨init, rfl⟩ := List.getLast?_eq_some_iff.1 hlast
    exact h.no_two_newlines ⟨'\n' :: init, [], by simp⟩
  case inside =>
    intro hrow
    have hbehind : ['\n', '\n'] <:+: cs ++ ['\n'] := hrow.trans (List.prefix_append _ _).isInfix
    exact h.no_two_newlines (hbehind.trans (List.suffix_cons _ _).isInfix)

/-! ### Texts of lines that are not blank -/

theorem isTight_unlines (hne : ls ≠ [])
    (hls : ∀ line ∈ ls, '\n' ∉ line ∧ allBlank line = false) :
    IsTight ('\n' :: (unlines ls ++ ['\n'])) := by
  rw [(isTight_concat_iff _).2, lines_unlines hne fun line hline => (hls line hline).1]
  intro hnil
  cases (hls [] hnil).2

/-- A text of lines that are not blank is blank only without lines. -/
theorem allBlank_unlines_iff (hls : ∀ line ∈ ls, allBlank line = false) :
    allBlank (unlines ls) = true ↔ ls = [] := by
  constructor
  · intro hblank
    cases ls with
    | nil => rfl
    | cons line ls =>
      have hline : allBlank line = true := by
        rw [unlines] at hblank
        by_cases hnil : ls = []
        · rwa [hnil, List.intercalate_singleton] at hblank
        · rw [List.intercalate_cons_of_ne_nil hnil, allBlank, List.append_assoc,
            List.all_append, Bool.and_eq_true] at hblank
          exact hblank.1
      rw [hls line List.mem_cons_self] at hline
      cases hline
  · rintro rfl
    rfl

/-- Whether a text is made of some lines that are not blank. -/
structure IsTextOf (text : String) (ls : List (List Char)) : Prop where
  /-- The lines stand one below the other. -/
  joined : text = String.ofList (unlines ls)
  /-- Each of them holds more than white space, -/
  trim_line : ∀ line ∈ ls, trim line ≠ []
  /-- and so does the text, unless there are none. -/
  trim_text : trim text.toList = [] ↔ ls = []
  /-- Then it is empty, and only then. -/
  empty_iff : text = "" ↔ ls = []
  /-- If there are any, the text gives them back when it is cut at its newlines. -/
  lines_eq : ls = [] ∨ lines text.toList = ls
  /-- No newline stands anywhere but between two of them. -/
  newlines : HasNoLooseNewline text.toList

theorem isTextOf_unlines (hls : ∀ line ∈ ls, '\n' ∉ line ∧ allBlank line = false) :
    IsTextOf (String.ofList (unlines ls)) ls := by
  have hblank := allBlank_unlines_iff fun line hline => (hls line hline).2
  constructor
  case joined => rfl
  case trim_line =>
    intro line hline
    rw [ne_eq, trim_eq_nil_iff, (hls line hline).2]
    exact Bool.false_ne_true
  case trim_text => rwa [String.toList_ofList, trim_eq_nil_iff]
  case empty_iff =>
    rw [← hblank]
    constructor
    · intro hempty
      rw [← String.toList_ofList (l := unlines ls), hempty]
      rfl
    · intro hall
      rw [hblank.1 hall]
      rfl
  case lines_eq =>
    by_cases hne : ls = []
    · exact .inl hne
    · right
      rw [String.toList_ofList]
      exact lines_unlines hne fun line hline => (hls line hline).1
  case newlines =>
    rw [String.toList_ofList]
    by_cases hne : ls = []
    · -- a text of no lines is empty, and has one empty line
      subst hne
      exact ⟨nofun, nofun, by decide⟩
    · exact (isTight_unlines hne hls).hasNoLooseNewline

end Text

/-! ### Excerpts -/

/-- What is shown of a text are lines, and none of them is blank. -/
theorem isLine_of_mem_excerptLines {a : Assistant} {cs : List Char} (h : line ∈ excerptLines a cs) :
    '\n' ∉ line ∧ allBlank line = false :=
  Section.isLine_of_mem_select (fun _ => not_mem_of_mem_split) h

theorem isTextOf_excerpt (a : Assistant) (text : String) :
    IsTextOf (excerpt a text) (excerptLines a text.toList) :=
  isTextOf_unlines fun _ => isLine_of_mem_excerptLines

theorem allBlank_excerpt_iff (a : Assistant) (text : String) :
    allBlank (excerpt a text).toList = true ↔ excerptLines a text.toList = [] := by
  rw [← trim_eq_nil_iff]
  exact (isTextOf_excerpt a text).trim_text

theorem excerpt_eq_empty_iff (a : Assistant) (text : String) :
    excerpt a text = "" ↔ excerptLines a text.toList = [] :=
  (isTextOf_excerpt a text).empty_iff

/-- The lines of an excerpt are those that it shows, if it shows any. -/
theorem lines_excerpt (h : excerptLines a text.toList ≠ []) :
    lines (excerpt a text).toList = excerptLines a text.toList :=
  (isTextOf_excerpt a text).lines_eq.resolve_left h

/-! ### Excerpts of documents -/

/-- A document is left out when nothing is shown of it: the test for white space comes to the
same. -/
theorem excerpt?_eq (doc : Document) (a : Assistant) :
    doc.excerpt? a =
      if excerptLines a doc.content.toList = [] then none else some (excerpt a doc.content) := by
  rw [Document.excerpt?]
  simp only [allBlank_excerpt_iff]

theorem excerpt?_eq_some_iff :
    doc.excerpt? a = some text ↔
      text = excerpt a doc.content ∧ excerptLines a doc.content.toList ≠ [] := by
  rw [excerpt?_eq]
  split
  · next hnil => exact iff_of_false nofun fun h => h.2 hnil
  · next hne =>
    rw [Option.some.injEq, eq_comm]
    exact (and_iff_left hne).symm

theorem excerpt?_eq_none_iff : doc.excerpt? a = none ↔ excerptLines a doc.content.toList = [] := by
  rw [excerpt?_eq]
  simp

/-- The lines of what is left of a document are all those that are shown of it. -/
theorem lines_excerpt? (doc : Document) (a : Assistant) :
    (doc.excerpt? a).elim [] (lines ·.toList) = excerptLines a doc.content.toList := by
  rw [excerpt?_eq]
  split
  · next hnil => rw [Option.elim_none, hnil]
  · next hne => rw [Option.elim_some, lines_excerpt hne]

/-! ### What the lines contribute -/

theorem exists_contributions (a : Assistant) (text : String) :
    ∃ shown, Contributions a (lines text.toList) shown ∧
      excerptLines a text.toList = shown.filterMap id := by
  have hstart : Section.shared ≠ .foreign ↔ OpenUnder a (lastHeading? []) := by
    simp [OpenUnder, lastHeading?]
  obtain ⟨shown, hlen, hshown, hsel⟩ := select_contributions hstart (lines text.toList)
  exact ⟨shown, ⟨hlen, by simpa using hshown⟩, hsel⟩

/-- An excerpt is a text of lines that are not blank, and they are what the lines of the whole
text contribute.  Of a document with that text nothing is left just if no line contributes
anything, and just if the excerpt is empty; so no line that is shown is ever taken for blank. -/
theorem excerpt_isTextOf_shown (a : Assistant) (text : String) :
    ∃ shown, Contributions a (lines text.toList) shown ∧
      excerptLines a text.toList = shown.filterMap id ∧
      IsTextOf (excerpt a text) (excerptLines a text.toList) ∧
      ∀ name : String,
        (Document.excerpt? ⟨name, text⟩ a = none ↔ ∀ out ∈ shown, out = none) ∧
        (Document.excerpt? ⟨name, text⟩ a = none ↔ excerpt a text = "") ∧
        (Document.excerpt? ⟨name, text⟩ a).elim [] (lines ·.toList) =
          excerptLines a text.toList := by
  obtain ⟨shown, hshown, hlines⟩ := exists_contributions a text
  have hnone : excerptLines a text.toList = [] ↔ ∀ out ∈ shown, out = none := by
    rw [hlines, List.filterMap_eq_nil_iff]
    rfl
  refine ⟨shown, hshown, hlines, isTextOf_excerpt a text, fun name => ⟨?_, ?_, ?_⟩⟩
  · exact excerpt?_eq_none_iff.trans hnone
  · exact excerpt?_eq_none_iff.trans (excerpt_eq_empty_iff a text).symm
  · exact lines_excerpt? ⟨name, text⟩ a

/-- A carriage return alone makes a blank line, and a null character does not. -/
example : excerpt .cursor "\n#[cursor] \u00a0\r\n\x00\n \t\r\n\u2003\n  text\r\n" =
    "#\n\x00\n  text\r" := by
  decide +kernel

end Rulebook
