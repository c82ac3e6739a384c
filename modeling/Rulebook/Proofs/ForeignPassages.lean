/-
Rulebook/Proofs/ForeignPassages.lean

What is written for others.  A text falls into the lines before its first heading and its
passages, each a heading with the lines up to the next one (`passages`).  A passage whose
heading holds a bracket, but not the tag of an assistant, is foreign to that assistant, and
`withoutForeign` is the text without such passages.

A heading ends whatever section it is met in, so a passage shows the same wherever it stands,
and a run over a text is put together from runs over its passages (`select_passages`).
Foreign passages show nothing.  So the excerpt of a text is that of the text without them
(`excerpt_withoutForeign`), and it is blank if nothing else is left.

Main result `files_eq_of_editsForOthers`: documents may be rewritten in their foreign
passages, and documents with nothing else in them may come and go, without any change in the
files of the assistant, in whichever layout.
-/
import Mathlib.Data.List.Infix
import Mathlib.Logic.Relation
import Rulebook.Proofs.Layouts
import Rulebook.Proofs.Stability

namespace Rulebook

open Text

variable {a : Assistant} {s : Section} {tag line : List Char} {ls more : List (List Char)}

/-! ### Passages -/

/-- A heading with the lines under it. -/
structure Passage where
  heading : List Char
  under : List (List Char)

namespace Passage

/-- The lines of a passage. -/
def lines (p : Passage) : List (List Char) := p.heading :: p.under

/-- Whether a passage starts with a heading and holds no other. -/
structure IsWhole (p : Passage) : Prop where
  heading : isHeading p.heading = true
  under : ∀ line ∈ p.under, isHeading line = false

/-- Whether a passage is for other assistants: its heading holds a bracket, but not the
tag. -/
def IsForeign (a : Assistant) (p : Passage) : Prop := '[' ∈ p.heading ∧ ¬ a.tag <:+: p.heading

instance (a : Assistant) (p : Passage) : Decidable (p.IsForeign a) :=
  inferInstanceAs (Decidable (_ ∧ _))

end Passage

/-- The lines before the first heading, and the passages after them. -/
def passages : List (List Char) → List (List Char) × List Passage
  | [] => ([], [])
  | line :: ls =>
    if isHeading line then ([], ⟨line, (passages ls).1⟩ :: (passages ls).2)
    else (line :: (passages ls).1, (passages ls).2)

/-- The lines that are left without the passages that are foreign to an assistant. -/
def dropForeign (a : Assistant) (ls : List (List Char)) : List (List Char) :=
  (passages ls).1 ++ ((passages ls).2.filter fun p => ¬ p.IsForeign a).flatMap Passage.lines

/-- A text without the passages that are foreign to an assistant. -/
def withoutForeign (a : Assistant) (text : String) : String :=
  String.ofList (unlines (dropForeign a (lines text.toList)))

/-- Nothing is lost when lines are told apart by passages. -/
theorem passages_lines (ls : List (List Char)) :
    (passages ls).1 ++ (passages ls).2.flatMap Passage.lines = ls := by
  induction ls with
  | nil => rfl
  | cons line ls ih =>
    rw [passages]
    split
    · simpa [Passage.lines] using ih
    · simpa using ih

theorem isHeading_of_mem_passages (ls : List (List Char)) :
    (∀ line ∈ (passages ls).1, isHeading line = false) ∧
      ∀ p ∈ (passages ls).2, p.IsWhole := by
  induction ls with
  | nil => simp [passages]
  | cons line ls ih =>
    obtain ⟨hfirst, hwhole⟩ := ih
    rw [passages]
    split
    · next hh => exact ⟨by simp, List.forall_mem_cons.2 ⟨⟨hh, hfirst⟩, hwhole⟩⟩
    · next hh => exact ⟨List.forall_mem_cons.2 ⟨by simpa using hh, hfirst⟩, hwhole⟩

/-! ### Runs over passages -/

namespace Section

/-- A heading is met in every section alike. -/
theorem select_of_isHeading (hh : isHeading line = true) (s : Section) :
    select tag s (line :: ls) = select tag .shared (line :: ls) := by
  rw [select_cons, select_cons, LineRole.ofLine, if_pos hh]
  rcases cutFirst? tag line with - | rest
  · by_cases hbr : '[' ∈ line <;> simp [hbr, shown?, next]
  · rfl

/-- A run goes on as from the start where the section does not matter. -/
theorem select_append (h : ∀ s, select tag s more = select tag .shared more) (s : Section)
    (ls : List (List Char)) :
    select tag s (ls ++ more) = select tag s ls ++ select tag .shared more := by
  induction ls generalizing s with
  | nil => exact h s
  | cons line ls ih => rw [List.cons_append, select_cons, select_cons, ih, List.append_assoc]

/-- A run over several lists is put together from the runs over each, where all but the first
show the same in every section. -/
theorem select_flatten {lss : List (List (List Char))}
    (h : ∀ ls ∈ lss, ∀ s, select tag s ls = select tag .shared ls) (s : Section)
    (ls : List (List Char)) :
    select tag s (ls ++ lss.flatten) = select tag s ls ++ lss.flatMap (select tag .shared) := by
  induction lss generalizing s ls with
  | nil => simp
  | cons first lss ih =>
    obtain ⟨hfirst, hlss⟩ := List.forall_mem_cons.1 h
    have hrest : ∀ s, select tag s (first ++ lss.flatten) =
        select tag .shared (first ++ lss.flatten) := by
      intro s
      rw [ih hlss, ih hlss, hfirst]
    rw [List.flatten_cons, List.flatMap_cons, select_append hrest, ih hlss]

/-- What is shown of lines with passages after them is what each of these shows. -/
theorem select_passages {ps : List Passage} (h : ∀ p ∈ ps, p.IsWhole) (s : Section)
    (ls : List (List Char)) :
    select tag s (ls ++ ps.flatMap Passage.lines) =
      select tag s ls ++ ps.flatMap fun p => select tag .shared p.lines := by
  have hps : ∀ ls ∈ ps.map Passage.lines, ∀ s, select tag s ls = select tag .shared ls := by
    intro ls hls s
    obtain ⟨p, hp, rfl⟩ := List.mem_map.1 hls
    exact select_of_isHeading (h p hp).heading s
  rw [List.flatMap_def, select_flatten hps, List.flatMap_map]

/-- Nothing is shown of a foreign section. -/
theorem select_foreign (h : ∀ line ∈ ls, isHeading line = false) : select tag .foreign ls = [] := by
  induction ls with
  | nil => rfl
  | cons line ls ih =>
    obtain ⟨hh, hls⟩ := List.forall_mem_cons.1 h
    rw [select_cons]
    rcases hb : allBlank line with - | - <;>
      simp [LineRole.ofLine, hh, hb, shown?, next, ih hls]

theorem select_of_isForeign {p : Passage} (hp : p.IsWhole) (hforeign : p.IsForeign a) :
    select a.tag .shared p.lines = [] := by
  have hcut : cutFirst? a.tag p.heading = none := cutFirst?_eq_none_iff.2 hforeign.2
  rw [Passage.lines, select_cons]
  simp [LineRole.ofLine, hp.heading, hcut, hforeign.1, shown?, next, select_foreign hp.under]

/-- Passages that are foreign may be left out where only counts what passages show. -/
theorem flatMap_select_filter {ps : List Passage} (h : ∀ p ∈ ps, p.IsWhole) :
    (ps.filter fun p => ¬ p.IsForeign a).flatMap (fun p => select a.tag .shared p.lines) =
      ps.flatMap fun p => select a.tag .shared p.lines := by
  induction ps with
  | nil => rfl
  | cons p ps ih =>
    obtain ⟨hp, hps⟩ := List.forall_mem_cons.1 h
    by_cases hforeign : p.IsForeign a
    · rw [List.filter_cons_of_neg (by simpa using hforeign), ih hps, List.flatMap_cons,
        select_of_isForeign hp hforeign, List.nil_append]
    · rw [List.filter_cons_of_pos (by simpa using hforeign), List.flatMap_cons, List.flatMap_cons,
        ih hps]

/-- A run over lines shows what it shows over those that are not foreign. -/
theorem select_dropForeign (a : Assistant) (s : Section) (ls : List (List Char)) :
    select a.tag s (dropForeign a ls) = select a.tag s ls := by
  have hwhole := (isHeading_of_mem_passages ls).2
  have hkept : ∀ p ∈ (passages ls).2.filter fun p => ¬ p.IsForeign a, p.IsWhole :=
    fun p hp => hwhole p (List.mem_of_mem_filter hp)
  calc select a.tag s (dropForeign a ls)
      = select a.tag s (passages ls).1 ++ ((passages ls).2.filter fun p => ¬ p.IsForeign a).flatMap
          fun p => select a.tag .shared p.lines := select_passages hkept s _
    _ = select a.tag s (passages ls).1 ++
          (passages ls).2.flatMap fun p => select a.tag .shared p.lines := by
        rw [flatMap_select_filter hwhole]
    _ = select a.tag s ls := by
        rw [← select_passages hwhole, passages_lines]

end Section

theorem dropForeign_sublist (a : Assistant) (ls : List (List Char)) :
    (dropForeign a ls).Sublist ls := by
  conv => rhs; rw [← passages_lines ls]
  exact (List.Sublist.refl _).append (List.filter_sublist.flatMap Passage.lines)

/-- The excerpt of a text comes from what is not foreign in it. -/
theorem excerpt_withoutForeign (a : Assistant) (text : String) :
    excerpt a (withoutForeign a text) = excerpt a text := by
  have hlines : ∀ line ∈ dropForeign a (lines text.toList), '\n' ∉ line :=
    fun line hline => not_mem_of_mem_split ((dropForeign_sublist a _).subset hline)
  rw [← String.toList_inj, toList_excerpt, toList_excerpt, withoutForeign, String.toList_ofList,
    excerptLines_unlines a hlines, Section.select_dropForeign, excerptLines]

/-- Nothing is left of a document for an assistant if it is blank but for foreign passages. -/
theorem excerpt?_eq_none {doc : Document}
    (h : allBlank (withoutForeign a doc.content).toList = true) : doc.excerpt? a = none := by
  have hsub := excerpt_sublist a (withoutForeign a doc.content)
  have hblank : allBlank (excerpt a doc.content).toList = true := by
    rw [excerpt_withoutForeign] at hsub
    exact List.all_eq_true.2 fun c hc => List.all_eq_true.1 h c (hsub.subset hc)
  rw [Document.excerpt?]
  exact if_pos hblank

theorem excerptsFor_of_blank {doc : Document} (before after : List Document)
    (h : allBlank (withoutForeign a doc.content).toList = true) :
    Document.excerptsFor a (before ++ doc :: after) = Document.excerptsFor a (before ++ after) := by
  rw [excerptsFor_append, excerptsFor_append, Document.excerptsFor, Document.excerptsFor,
    Document.excerptsFor, List.filterMap_cons, excerpt?_eq_none h]
  rfl

/-! ### Edits for others -/

/-- A change of the documents that is no concern of an assistant. -/
inductive EditForOthers (a : Assistant) : List Document → List Document → Prop
  /-- A document is rewritten in its foreign passages. -/
  | rewrite (before after : List Document) (doc : Document) (content : String) :
      withoutForeign a content = withoutForeign a doc.content →
        EditForOthers a (before ++ doc :: after) (before ++ { doc with content } :: after)
  /-- A document comes in that is blank but for foreign passages. -/
  | insert (before after : List Document) (doc : Document) :
      allBlank (withoutForeign a doc.content).toList = true →
        EditForOthers a (before ++ after) (before ++ doc :: after)
  /-- Such a document is taken out. -/
  | delete (before after : List Document) (doc : Document) :
      allBlank (withoutForeign a doc.content).toList = true →
        EditForOthers a (before ++ doc :: after) (before ++ after)

/-- One edit for others leaves the names and the excerpts of all documents that take part. -/
theorem EditForOthers.named_excerpts {ds ds' : List Document} (h : EditForOthers a ds ds') :
    (Document.excerptsFor a ds).map (fun x => (x.1.filename, x.2)) =
      (Document.excerptsFor a ds').map (fun x => (x.1.filename, x.2)) := by
  cases h with
  | rewrite before after doc content hsame =>
    have hexcerpt : Document.excerpt? { doc with content } a = doc.excerpt? a := by
      rw [Document.excerpt?, Document.excerpt?, ← excerpt_withoutForeign, hsame,
        excerpt_withoutForeign]
    rw [excerptsFor_append, excerptsFor_append, List.map_append, List.map_append,
      Document.excerptsFor, Document.excerptsFor, Document.excerptsFor, List.filterMap_cons,
      List.filterMap_cons, hexcerpt]
    rcases doc.excerpt? a with - | text <;> rfl
  | insert before after doc hblank => rw [excerptsFor_of_blank before after hblank]
  | delete before after doc hblank => rw [excerptsFor_of_blank before after hblank]

/-- However the documents are edited for others, the files of an assistant stay the same. -/
theorem files_eq_of_editsForOthers {g : Generator} {ds ds' : List Document}
    (h : Relation.ReflTransGen (EditForOthers g.assistant) ds ds') (root : Path) :
    g.files ds root = g.files ds' root := by
  induction h with
  | refl => rfl
  | tail _ hstep ih => rw [ih, files_congr hstep.named_excerpts]

/-- Documents with passages for cline, and the same after edits for others than cursor. -/
def clineDocuments : List Document :=
  [⟨"a.md", "shared\n# Memory [cline]\nnotes"⟩, ⟨"b.md", "# [cline]\nmore notes"⟩]

def editedDocuments : List Document :=
  [⟨"a.md", "shared\n# [copilot]\nother\n# [cline]"⟩, ⟨"c.md", "\n# See [the notes]\nlinked"⟩]

theorem files_eq_of_editsForOthers_edited :
    Relation.ReflTransGen (EditForOthers Generator.cursor.assistant) clineDocuments
      editedDocuments ∧
    Generator.cursor.files clineDocuments "out" = Generator.cursor.files editedDocuments "out" ∧
    (Generator.cursor.files editedDocuments "out").length = 1 := by
  have hrewrite : EditForOthers .cursor clineDocuments
      [⟨"a.md", "shared\n# [copilot]\nother\n# [cline]"⟩, ⟨"b.md", "# [cline]\nmore notes"⟩] :=
    .rewrite [] _ ⟨"a.md", _⟩ _ (by decide +kernel)
  have hdelete : EditForOthers .cursor
      [⟨"a.md", "shared\n# [copilot]\nother\n# [cline]"⟩, ⟨"b.md", "# [cline]\nmore notes"⟩]
      [⟨"a.md", "shared\n# [copilot]\nother\n# [cline]"⟩] :=
    .delete [_] [] ⟨"b.md", _⟩ (by decide +kernel)
  have hinsert : EditForOthers .cursor [⟨"a.md", "shared\n# [copilot]\nother\n# [cline]"⟩]
      editedDocuments :=
    .insert [_] [] ⟨"c.md", _⟩ (by decide +kernel)
  have hedits := ((Relation.ReflTransGen.single hrewrite).tail hdelete).tail hinsert
  exact ⟨hedits, files_eq_of_editsForOthers (g := .cursor) hedits "out", by decide +kernel⟩

end Rulebook
