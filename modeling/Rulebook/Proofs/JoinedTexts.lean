/-
Rulebook/Proofs/JoinedTexts.lean

Texts one below the other.  A run over their lines is put together from the runs over each,
where every text but the first opens with a heading, up to blank lines: such a text shows the
same in every section (`select_of_opensWithHeading`), so it does not matter in what section
the texts before it end.  The excerpt of the texts as one is then the excerpts of each, one
below the other, without those of which nothing is left (`excerpt_intercalate`).

Main result `excerpt_of_joined`: so it is with two texts, and the documents of a list, joined
to one text, have the excerpt that the one file for all excerpts holds, with one newline where
that has two in a row.
-/
import Rulebook.Proofs.ForeignPassages
import Rulebook.Proofs.MergedFile
import Rulebook.Proofs.Path

namespace Rulebook

open Text

variable {a : Assistant} {text : String}
variable {ds : List Document} {texts : List String} {tag : List Char}
variable {ls ms : List (List Char)} {lss : List (List (List Char))}

/-! ### Lines of joined texts -/

namespace Text

/-- Texts with a separator between each two have the pieces of each. -/
theorem split_intercalate_eq_flatMap {sep : Char} (hne : ls ≠ []) :
    split sep ([sep].intercalate ls) = ls.flatMap (split sep) := by
  induction ls with
  | nil => exact absurd rfl hne
  | cons l ls ih =>
    by_cases hnil : ls = []
    · subst hnil
      simp
    · rw [List.intercalate_cons_of_ne_nil hnil, List.append_assoc, List.flatMap_cons, ← ih hnil]
      exact split_append_cons sep l _

theorem unlines_append (hls : ls ≠ []) (hms : ms ≠ []) :
    unlines (ls ++ ms) = unlines ls ++ '\n' :: unlines ms := by
  -- with one more newline at the end of each side, all lines are alike
  have happend : ls ++ ms ≠ [] := by simp [hls]
  have hnewline : unlines (ls ++ ms) ++ ['\n'] = unlines ls ++ '\n' :: unlines ms ++ ['\n'] := by
    rw [unlines_append_newline happend, List.flatMap_append, ← unlines_append_newline hls,
      ← unlines_append_newline hms]
    simp
  exact List.append_cancel_right hnewline

/-- Lines of several texts, where each has some, are the texts one below the other. -/
theorem unlines_flatten (hlss : ∀ ls ∈ lss, ls ≠ []) :
    unlines lss.flatten = unlines (lss.map unlines) := by
  induction lss with
  | nil => rfl
  | cons ls lss ih =>
    obtain ⟨hls, hlss⟩ := List.forall_mem_cons.1 hlss
    by_cases hnil : lss = []
    · subst hnil
      simp [unlines]
    · have hflat : lss.flatten ≠ [] := by
        obtain ⟨ms, hms⟩ := List.exists_mem_of_ne_nil lss hnil
        simpa using ⟨ms, hms, hlss ms hms⟩
      rw [List.flatten_cons, unlines_append hls hflat, ih hlss, List.map_cons]
      simp [unlines, List.intercalate_cons_of_ne_nil, hnil]

end Text

/-! ### Texts that open with a heading -/

/-- Whether only blank lines come before the first heading of a text, or the text has no other
lines. -/
def OpensWithHeading (text : String) : Prop :=
  ∀ line ∈ (lines text.toList).takeWhile (!isHeading ·), allBlank line = true

instance (text : String) : Decidable (OpensWithHeading text) :=
  inferInstanceAs (Decidable (∀ line ∈ _, _))

theorem passages_fst (ls : List (List Char)) : (passages ls).1 = ls.takeWhile (!isHeading ·) := by
  induction ls with
  | nil => rfl
  | cons line ls ih =>
    rw [passages]
    split
    · next hh => simp [hh]
    · next hh => simpa [hh] using ih

namespace Section

theorem select_of_allBlank (h : ∀ line ∈ ls, allBlank line = true) (s : Section) :
    select tag s ls = [] := by
  induction ls with
  | nil => rfl
  | cons line ls ih =>
    obtain ⟨hb, hls⟩ := List.forall_mem_cons.1 h
    have hh : isHeading line = false := by
      rcases hh : isHeading line with - | -
      · rfl
      · rw [allBlank_of_isHeading hh] at hb
        cases hb
    rw [select_cons]
    simp [LineRole.ofLine, hh, hb, shown?, next, ih hls]

/-- Past its blank lines such a text is whole passages, which show the same in every section. -/
theorem select_of_opensWithHeading (h : OpensWithHeading text) (s : Section) :
    select tag s (lines text.toList) = select tag .shared (lines text.toList) := by
  have hwhole := (isHeading_of_mem_passages (lines text.toList)).2
  have hblank : ∀ line ∈ (passages (lines text.toList)).1, allBlank line = true := by
    rw [passages_fst]
    exact h
  have hselect : ∀ s, select tag s (lines text.toList) =
      (passages (lines text.toList)).2.flatMap fun p => select tag .shared p.lines := by
    intro s
    conv => lhs; rw [← passages_lines (lines text.toList)]
    rw [select_passages hwhole, select_of_allBlank hblank, List.nil_append]
  rw [hselect, hselect]

end Section

/-! ### Excerpts of joined texts -/

/-- What is shown of texts one below the other is what is shown of each. -/
theorem excerptLines_intercalate (a : Assistant)
    (h : ∀ text ∈ texts.tail, OpensWithHeading text) :
    excerptLines a ("\n".intercalate texts).toList =
      (texts.map fun text => excerptLines a text.toList).flatten := by
  rcases texts with - | ⟨text, texts⟩
  · rfl
  · have hrest : ∀ ls ∈ texts.map (lines ·.toList), ∀ s,
        Section.select a.tag s ls = Section.select a.tag .shared ls := by
      intro ls hls s
      obtain ⟨other, hother, rfl⟩ := List.mem_map.1 hls
      exact Section.select_of_opensWithHeading (h other hother) s
    -- the first text alone may start in any way, for the run starts in a shared section
    have hlines : lines ("\n".intercalate (text :: texts)).toList =
        lines text.toList ++ (texts.map (lines ·.toList)).flatten := by
      rw [lines, String.toList_intercalate]
      show split '\n' (['\n'].intercalate _) = _
      rw [split_intercalate_eq_flatMap (by simp), List.map_cons, List.flatMap_cons,
        List.flatMap_def, List.map_map]
      rfl
    rw [excerptLines, hlines, Section.select_flatten hrest, List.map_cons, List.flatten_cons,
      List.flatMap_def, List.map_map]
    rfl

/-- The excerpt of texts one below the other is the excerpts that are not empty, one below the
other. -/
theorem excerpt_intercalate (a : Assistant) (h : ∀ text ∈ texts.tail, OpensWithHeading text) :
    excerpt a ("\n".intercalate texts) =
      "\n".intercalate ((texts.map (excerpt a)).filter (· ≠ "")) := by
  have hkept : ∀ ls ∈ (texts.map fun text => excerptLines a text.toList).filter (· ≠ []),
      ls ≠ [] := by
    intro ls hls
    simpa using List.of_mem_filter hls
  have htexts : ((texts.map (excerpt a)).filter (· ≠ "")).map String.toList =
      ((texts.map fun text => excerptLines a text.toList).filter (· ≠ [])).map unlines := by
    rw [List.filter_map, List.filter_map, List.map_map, List.map_map]
    simp only [Function.comp_def, excerpt_eq_empty_iff, toList_excerpt, ne_eq]
  rw [← String.toList_inj, toList_excerpt, excerptLines_intercalate a h,
    ← List.flatten_filter_ne_nil, unlines_flatten hkept, String.toList_intercalate, htexts]
  rfl

/-! ### Joined documents -/

/-- The contents of documents as one text. -/
def Document.joined (ds : List Document) : String := "\n".intercalate (ds.map (·.content))

theorem opensWithHeading_of_mem_tail (h : ∀ doc ∈ ds.tail, OpensWithHeading doc.content) :
    ∀ text ∈ (ds.map (·.content)).tail, OpensWithHeading text := by
  rw [← List.map_tail]
  exact List.forall_mem_map.2 h

/-- The excerpt of documents as one text has the excerpts of those with something left. -/
theorem excerpt_joined (a : Assistant) (h : ∀ doc ∈ ds.tail, OpensWithHeading doc.content) :
    excerpt a (Document.joined ds) =
      "\n".intercalate ((Document.excerptsFor a ds).map (·.2)) := by
  have hleft : ∀ doc : Document,
      (doc.excerpt? a).isSome = decide (excerpt a doc.content ≠ "") := by
    intro doc
    rw [Bool.eq_iff_iff, Option.isSome_iff_ne_none, ne_eq, excerpt?_eq_none_iff,
      ← excerpt_eq_empty_iff, decide_eq_true_iff]
  rw [Document.joined, excerpt_intercalate a (opensWithHeading_of_mem_tail h),
    map_snd_excerptsFor, List.map_map, List.filter_map]
  simp only [hleft, Function.comp_def]

theorem excerpt_joined_eq_empty_iff (a : Assistant)
    (h : ∀ doc ∈ ds.tail, OpensWithHeading doc.content) :
    excerpt a (Document.joined ds) = "" ↔ Document.excerptsFor a ds = [] := by
  rw [excerpt_eq_empty_iff, Document.joined,
    excerptLines_intercalate a (opensWithHeading_of_mem_tail h), List.flatten_eq_nil_iff,
    excerptsFor_eq_nil_iff]
  simp [excerpt?_eq_none_iff]

/-- Closed up, the excerpts in one file stand one below the other. -/
theorem closeUp_excerptsFor (hne : Document.excerptsFor a ds ≠ []) :
    closeUp ("\n\n".intercalate ((Document.excerptsFor a ds).map (·.2))).toList =
      ("\n".intercalate ((Document.excerptsFor a ds).map (·.2))).toList := by
  rw [← unlines_paragraphs, paragraphs_excerptsFor hne, String.toList_intercalate]
  rfl

/-- The excerpt of two texts, of which the second opens with a heading, is that of each, one
below the other, or that of one if nothing is left of the other.  Where all documents but the
first open so, the excerpt of them all, joined to one text, is what the one file for them
holds, with one newline for every two in a row.  It is empty just if there is no such file. -/
theorem excerpt_of_joined (a : Assistant) :
    (∀ text more : String, OpensWithHeading more → excerpt a (text ++ "\n" ++ more) =
      "\n".intercalate ([excerpt a text, excerpt a more].filter (· ≠ ""))) ∧
    ∀ (g : Generator) (file : Path), g.assistant = a → g.layout = .merged file →
      ∀ (ds : List Document) (root : Path), (∀ doc ∈ ds.tail, OpensWithHeading doc.content) →
        (excerpt a (Document.joined ds) = "" ↔ g.files ds root = []) ∧
        (g.files ds root ≠ [] → ∃ content, g.files ds root = [⟨root / file, content ++ "\n"⟩] ∧
          (excerpt a (Document.joined ds)).toList = closeUp content.toList) := by
  constructor
  · intro text more hmore
    have htail : ∀ text ∈ [text, more].tail, OpensWithHeading text := by simpa using hmore
    have hjoin : "\n".intercalate [text, more] = text ++ "\n" ++ more := by
      rw [String.intercalate_cons_cons, String.intercalate_singleton]
    rw [← hjoin]
    exact excerpt_intercalate a htail
  · rintro g file rfl hg ds root h
    constructor
    · exact (excerpt_joined_eq_empty_iff g.assistant h).trans files_eq_nil_iff_excerptsFor.symm
    · intro hfiles
      have hne : Document.excerptsFor g.assistant ds ≠ [] :=
        mt files_eq_nil_iff_excerptsFor.2 hfiles
      refine ⟨_, files_of_merged hg hne root, ?_⟩
      rw [closeUp_excerptsFor hne, excerpt_joined g.assistant h]

/-- Documents that end in sections for one assistant, and one that is left out for copilot. -/
def endingInSections : List Document :=
  [⟨"a.md", "start\n# [cline]\nnotes"⟩, ⟨"b.md", " \n# Use [copilot]\nown\n"⟩,
    ⟨"c.md", "# [cursor]\nrules"⟩, ⟨"d.md", "\n\t\n"⟩, ⟨"e.md", "# All\nend"⟩]

theorem excerpt_of_joined_endingInSections :
    (OpensWithHeading " \n# Use [copilot]\nown\n" ∧
      excerpt .copilot ("start\n# [cline]\nnotes" ++ "\n" ++ " \n# Use [copilot]\nown\n") =
        "start\n# Use\nown") ∧
    (Generator.copilot.assistant = .copilot ∧
      Generator.copilot.layout = .merged ".github/copilot-instructions.md") ∧
    (∀ doc ∈ endingInSections.tail, OpensWithHeading doc.content) ∧
    Generator.copilot.files endingInSections "out" =
      [⟨"out/.github/copilot-instructions.md", "start\n\n# Use\nown\n\n# All\nend" ++ "\n"⟩] ∧
    (excerpt .copilot (Document.joined endingInSections)).toList =
      closeUp "start\n\n# Use\nown\n\n# All\nend".toList := by
  obtain ⟨htwo, hlist⟩ := excerpt_of_joined .copilot
  have hopens : OpensWithHeading " \n# Use [copilot]\nown\n" := by decide +kernel
  have hall : ∀ doc ∈ endingInSections.tail, OpensWithHeading doc.content := by decide +kernel
  have hfiles : Generator.copilot.files endingInSections "out" =
      [⟨"out/.github/copilot-instructions.md",
        "start\n\n# Use\nown\n\n# All\nend" ++ "\n"⟩] := by decide +kernel
  obtain ⟨-, hfile⟩ := hlist .copilot ".github/copilot-instructions.md" rfl rfl endingInSections
    "out" hall
  obtain ⟨content, hcontent, hclose⟩ := hfile (by simp [hfiles])
  obtain rfl : "start\n\n# Use\nown\n\n# All\nend" = content := by
    rw [hfiles, List.singleton_inj, OutputFile.mk.injEq] at hcontent
    exact (String.append_left_inj "\n").1 hcontent.2
  refine ⟨⟨hopens, ?_⟩, ⟨rfl, rfl⟩, hall, hfiles, hclose⟩
  rw [htwo _ _ hopens]
  decide +kernel

end Rulebook
