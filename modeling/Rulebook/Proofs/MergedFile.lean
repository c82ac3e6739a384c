/-
Rulebook/Proofs/MergedFile.lean

The one file for all excerpts, taken apart again.  No two newlines stand in a row in an
excerpt, and it ends in none (`isTight_of_excerpt?`), so two newlines between excerpts are
found again (`paragraphs_intercalate`).

Main result `paragraphs_merged`: the paragraphs of the file are the excerpts of the documents
with something left, each whole and in the order of the documents.  There is no file just if
there is no such document.
-/
import Rulebook.Proofs.Layouts
import Rulebook.Proofs.ShownLines
import Rulebook.Text.Paragraphs

namespace Rulebook

open Text

variable {a : Assistant} {g : Generator} {file : Path} {doc : Document} {text : String}
variable {ds : List Document} {root : Path}
variable {cs : List Char} {pieces : List (List Char)}

/-! ### Paragraphs without empty lines -/

namespace Text

theorem paragraphs_eq_singleton (h : IsTight cs) : paragraphs cs = [cs] := by
  induction cs with
  | nil => rfl
  | cons c cs ih =>
    obtain ⟨hfirst, hrest⟩ := List.isChain_cons.1 h
    rw [paragraphs_cons fun hc hhead => hfirst _ hhead hc rfl, ih hrest]
    rfl

/-- The first two newlines in a row end the first piece. -/
theorem paragraphs_append (h : IsTight (cs ++ ['\n'])) (rest : List Char) :
    paragraphs (cs ++ '\n' :: '\n' :: rest) = cs :: paragraphs rest := by
  induction cs with
  | nil => rfl
  | cons c cs ih =>
    obtain ⟨hfirst, hrest⟩ := List.isChain_cons.1 h
    -- what the first character meets is the same as in the piece with its newline
    have hhead : (cs ++ '\n' :: '\n' :: rest).head? = (cs ++ ['\n']).head? := by
      simp [List.head?_append]
    rw [List.cons_append, paragraphs_cons fun hc hhead' => hfirst _ (hhead ▸ hhead') hc rfl,
      ih hrest]
    rfl

/-- Pieces without two newlines in a row, and without one at the end, are found again. -/
theorem paragraphs_intercalate (hne : pieces ≠ [])
    (h : ∀ piece ∈ pieces, IsTight (piece ++ ['\n'])) :
    paragraphs (['\n', '\n'].intercalate pieces) = pieces := by
  induction pieces with
  | nil => exact absurd rfl hne
  | cons piece pieces ih =>
    obtain ⟨hpiece, hpieces⟩ := List.forall_mem_cons.1 h
    by_cases hnil : pieces = []
    · subst hnil
      rw [List.intercalate_singleton]
      exact paragraphs_eq_singleton (List.isChain_append.1 hpiece).1
    · rw [List.intercalate_cons_of_ne_nil hnil, List.append_assoc]
      exact (paragraphs_append hpiece _).trans (congrArg _ (ih hnil hpieces))

end Text

/-! ### Excerpts that take part -/

/-- The documents that take part go along with their excerpts. -/
theorem map_snd_excerptsFor (a : Assistant) (ds : List Document) :
    (Document.excerptsFor a ds).map (·.2) =
      (ds.filter fun doc => (doc.excerpt? a).isSome).map fun doc => excerpt a doc.content := by
  induction ds with
  | nil => rfl
  | cons doc ds ih =>
    rw [Document.excerptsFor] at ih ⊢
    rcases h : doc.excerpt? a with - | text
    · simpa [h] using ih
    · simpa [h, (excerpt?_eq_some_iff.1 h).1] using ih

/-- What is left of a document for an assistant ends in no newline, nor has it an empty line. -/
theorem isTight_of_excerpt? (h : doc.excerpt? a = some text) : IsTight (text.toList ++ ['\n']) := by
  obtain ⟨rfl, hne⟩ := excerpt?_eq_some_iff.1 h
  rw [toList_excerpt]
  exact (isTight_unlines hne fun line => isLine_of_mem_excerptLines).tail

/-! ### The one file -/

theorem files_of_merged (hg : g.layout = .merged file)
    (hne : Document.excerptsFor g.assistant ds ≠ []) (root : Path) :
    g.files ds root = [⟨root / file,
      "\n\n".intercalate ((Document.excerptsFor g.assistant ds).map (·.2)) ++ "\n"⟩] := by
  simp only [Generator.files, hg]
  rw [if_neg (mt List.isEmpty_iff.1 hne)]
  rfl

/-- The excerpts in one file are found again in it. -/
theorem paragraphs_excerptsFor (hne : Document.excerptsFor a ds ≠ []) :
    paragraphs ("\n\n".intercalate ((Document.excerptsFor a ds).map (·.2))).toList =
      ((Document.excerptsFor a ds).map (·.2)).map String.toList := by
  rw [String.toList_intercalate]
  refine paragraphs_intercalate (by simpa using hne) ?_
  intro piece hpiece
  rw [List.map_map] at hpiece
  obtain ⟨⟨doc, text⟩, hmem, rfl⟩ := List.mem_map.1 hpiece
  exact isTight_of_excerpt? (mem_excerptsFor.1 hmem).2

/-- There is one file for all documents, unless nothing of any is left.  Its paragraphs are then
the excerpts of the documents with something left, and none of them is blank. -/
theorem paragraphs_merged (hg : g.layout = .merged file) (ds : List Document) (root : Path) :
    (g.files ds root = [] ↔ ∀ doc ∈ ds, doc.excerpt? g.assistant = none) ∧
    (g.files ds root ≠ [] → ∃ content, g.files ds root = [⟨root / file, content ++ "\n"⟩] ∧
      paragraphs content.toList =
        ((ds.filter fun doc => (doc.excerpt? g.assistant).isSome).map
          fun doc => (excerpt g.assistant doc.content).toList) ∧
      ∀ piece ∈ paragraphs content.toList, allBlank piece = false) := by
  constructor
  · exact files_eq_nil_iff
  · intro hfiles
    have hne : Document.excerptsFor g.assistant ds ≠ [] := mt files_eq_nil_iff_excerptsFor.2 hfiles
    refine ⟨_, files_of_merged hg hne root, ?_, ?_⟩
    · rw [paragraphs_excerptsFor hne, map_snd_excerptsFor, List.map_map]
      rfl
    · intro piece hpiece
      rw [paragraphs_excerptsFor hne, List.map_map] at hpiece
      obtain ⟨⟨doc, text⟩, hmem, rfl⟩ := List.mem_map.1 hpiece
      obtain ⟨rfl, hlines⟩ := excerpt?_eq_some_iff.1 (mem_excerptsFor.1 hmem).2
      apply Bool.eq_false_iff.2
      exact mt (allBlank_excerpt_iff _ _).1 hlines

/-- Documents of which the second has nothing left for copilot, and the last has empty lines. -/
theorem paragraphs_merged_fourDocuments :
    Generator.copilot.layout = .merged ".github/copilot-instructions.md" ∧
    Generator.copilot.files fourDocuments "out" ≠ [] ∧
    ∃ content, Generator.copilot.files fourDocuments "out" =
        [⟨"out/.github/copilot-instructions.md", content ++ "\n"⟩] ∧
      paragraphs content.toList = ["# A\nfirst".toList, "fourth".toList] := by
  obtain ⟨hnil, hfile⟩ := paragraphs_merged (g := .copilot) rfl fourDocuments "out"
  have hne : Generator.copilot.files fourDocuments "out" ≠ [] := by decide +kernel
  obtain ⟨content, hcontent, hparagraphs, -⟩ := hfile hne
  refine ⟨rfl, hne, content, hcontent, hparagraphs.trans ?_⟩
  decide +kernel

end Rulebook
