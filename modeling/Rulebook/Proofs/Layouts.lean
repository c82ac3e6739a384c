/-
Rulebook/Proofs/Layouts.lean

The three layouts beside each other.  All of them start from the documents with something
left for the assistant, in their order, and go by the names and the excerpts of these
(`files_congr`).  Two layouts make a file for each such document, whatever the others are:
the files of a list of documents are those of its parts, one after the other
(`files_append`).  The third makes one file of all excerpts, and it reads like the copied
files with an empty line between each two (`mergeTexts_eq_intercalate`).

Main result `layouts_agree`: the three show the same excerpts of the same documents, and in
the layouts with a file for each document no document has a part in the file of another.
-/
import Rulebook.Generator

namespace Rulebook

variable {a : Assistant} {g : Generator} {ds ds' : List Document}

/-! ### Documents that take part -/

/-- The documents that take part are those with something left, in their order. -/
theorem map_fst_excerptsFor (a : Assistant) (ds : List Document) :
    (Document.excerptsFor a ds).map (·.1) = ds.filter fun doc => (doc.excerpt? a).isSome := by
  induction ds with
  | nil => rfl
  | cons doc ds ih =>
    rw [Document.excerptsFor] at ih ⊢
    rcases h : doc.excerpt? a with - | text <;> simp [h, ih]

/-- The documents that take part are those with an excerpt, and it goes along. -/
theorem mem_excerptsFor {doc : Document} {text : String} :
    (doc, text) ∈ Document.excerptsFor a ds ↔ doc ∈ ds ∧ doc.excerpt? a = some text := by
  simp only [Document.excerptsFor, List.mem_filterMap, Option.map_eq_some_iff, Prod.mk.injEq]
  constructor
  · rintro ⟨doc', hmem, text', htext, rfl, rfl⟩
    exact ⟨hmem, htext⟩
  · rintro ⟨hmem, htext⟩
    exact ⟨doc, hmem, text, htext, rfl, rfl⟩

theorem excerptsFor_append (a : Assistant) (ds ds' : List Document) :
    Document.excerptsFor a (ds ++ ds') =
      Document.excerptsFor a ds ++ Document.excerptsFor a ds' :=
  List.filterMap_append

/-- A generator goes by the names and the excerpts of the documents that take part. -/
theorem files_congr (h : (Document.excerptsFor g.assistant ds).map (fun x => (x.1.filename, x.2)) =
      (Document.excerptsFor g.assistant ds').map (fun x => (x.1.filename, x.2))) (root : Path) :
    g.files ds root = g.files ds' root := by
  have hmap : ∀ {α : Type} (f : String × String → α),
      (Document.excerptsFor g.assistant ds).map (fun x => f (x.1.filename, x.2)) =
        (Document.excerptsFor g.assistant ds').map (fun x => f (x.1.filename, x.2)) := by
    intro α f
    simpa [List.map_map, Function.comp_def] using congrArg (List.map f) h
  rw [Generator.files, Generator.files]
  cases g.layout with
  | merged file =>
    have hempty := congrArg List.isEmpty h
    rw [List.isEmpty_map, List.isEmpty_map] at hempty
    dsimp only
    rw [hempty, hmap (·.2)]
  | perDocument dir =>
    exact hmap fun x : String × String =>
      (⟨root / dir / Path.ofString x.1, x.2 ++ "\n"⟩ : OutputFile)
  | frontMatter dir legacy =>
    exact hmap fun x : String × String =>
      (⟨root / dir / (Path.ofString x.1).withExtension ['m', 'd', 'c'],
        FrontMatter.ofText x.1 x.2⟩ : OutputFile)

theorem excerptsFor_eq_nil_iff :
    Document.excerptsFor a ds = [] ↔ ∀ doc ∈ ds, doc.excerpt? a = none := by
  simp [Document.excerptsFor, List.filterMap_eq_nil_iff]

theorem files_eq_nil_iff_excerptsFor {root : Path} :
    g.files ds root = [] ↔ Document.excerptsFor g.assistant ds = [] := by
  rw [Generator.files]
  cases g.layout with
  | merged file => simp
  | perDocument dir | frontMatter dir legacy => simp

/-- A generator makes no files just if nothing of any document is left for its assistant. -/
theorem files_eq_nil_iff {root : Path} :
    g.files ds root = [] ↔ ∀ doc ∈ ds, doc.excerpt? g.assistant = none :=
  files_eq_nil_iff_excerptsFor.trans excerptsFor_eq_nil_iff

/-! ### A file for each document -/

/-- Where each document has a file of its own, it does not matter what documents there are
besides. -/
theorem files_append (hlayout : ∀ file, g.layout ≠ .merged file) (ds ds' : List Document)
    (root : Path) : g.files (ds ++ ds') root = g.files ds root ++ g.files ds' root := by
  simp only [Generator.files, excerptsFor_append]
  cases hg : g.layout with
  | merged file => exact absurd hg (hlayout file)
  | perDocument dir | frontMatter dir legacy => exact List.map_append

theorem files_eq_flatMap (hlayout : ∀ file, g.layout ≠ .merged file) (ds : List Document)
    (root : Path) : g.files ds root = ds.flatMap fun doc => g.files [doc] root := by
  induction ds with
  | nil =>
    rw [Generator.files]
    cases hg : g.layout with
    | merged file => exact absurd hg (hlayout file)
    | perDocument dir | frontMatter dir legacy => rfl
  | cons doc ds ih =>
    rw [List.flatMap_cons, ← ih]
    exact files_append hlayout [doc] ds root

/-! ### One file for all -/

/-- The one file for all excerpts is made of the excerpts as they are copied, with an empty
line between each two. -/
theorem mergeTexts_eq_intercalate {texts : List String} (hne : texts ≠ []) :
    Generator.mergeTexts texts = "\n".intercalate (texts.map (· ++ "\n")) := by
  induction texts with
  | nil => exact absurd rfl hne
  | cons text texts ih =>
    rcases texts with - | ⟨next, texts⟩
    · simp [Generator.mergeTexts]
    · have hcons : Generator.mergeTexts (text :: next :: texts) =
          text ++ "\n" ++ "\n" ++ Generator.mergeTexts (next :: texts) := by
        rw [Generator.mergeTexts, Generator.mergeTexts, String.intercalate_cons_cons,
          show "\n\n" = "\n" ++ "\n" from rfl]
        simp only [String.append_assoc]
      rw [hcons, ih (by simp)]
      simp only [List.map_cons, String.intercalate_cons_cons]

/-! ### The three layouts -/

/-- What an assistant is shown in the three layouts: by a generator `m` for one file, by `p`
for copies and by `f` for files with front matter. -/
structure ShowSame (a : Assistant) (m p f : Generator) (file dir dir' : Path)
    (ds : List Document) (root : Path) (kept : List (Document × String)) : Prop where
  /-- The documents with something left are kept, in their order. -/
  documents : kept.map (·.1) = ds.filter fun doc => (doc.excerpt? a).isSome
  /-- Each is kept with its excerpt. -/
  excerpts : ∀ x ∈ kept, x.1.excerpt? a = some x.2
  /-- Each has a copy of its excerpt, with a newline at the end. -/
  copied : p.files ds root = kept.map fun x =>
    ⟨root / dir / Path.ofString x.1.filename, x.2 ++ "\n"⟩
  /-- Each has its excerpt under front matter. -/
  reformatted : f.files ds root = kept.map fun x =>
    ⟨root / dir' / (Path.ofString x.1.filename).withExtension ['m', 'd', 'c'],
      FrontMatter.ofText x.1.filename x.2⟩
  /-- There is one file for all unless nothing is kept. -/
  merged_nil_iff : m.files ds root = [] ↔ kept = []
  /-- It holds what the copies hold, with a newline between each two. -/
  merged : kept ≠ [] → m.files ds root =
    [⟨root / file, "\n".intercalate ((p.files ds root).map (·.content))⟩]

/-- Whether the files of documents stay the same whatever becomes of the documents between
them: some may be added, edited or removed. -/
def KeepsApart (g : Generator) (root : Path) : Prop :=
  ∀ before changed after : List Document, g.files (before ++ changed ++ after) root =
    g.files before root ++ g.files changed root ++ g.files after root

/-- The three layouts of one assistant show the same.  Where each document has a file of its
own, no document has a part in the path or the content of another's. -/
theorem layouts_agree {m p f : Generator} {file dir dir' : Path} {legacy : List Path}
    (hm : m.assistant = a ∧ m.layout = .merged file)
    (hp : p.assistant = a ∧ p.layout = .perDocument dir)
    (hf : f.assistant = a ∧ f.layout = .frontMatter dir' legacy) (ds : List Document)
    (root : Path) :
    (∃ kept, ShowSame a m p f file dir dir' ds root kept) ∧
      KeepsApart p root ∧ KeepsApart f root := by
  obtain ⟨rfl, hm⟩ := hm
  obtain ⟨hpa, hp⟩ := hp
  obtain ⟨hfa, hf⟩ := hf
  have hcopied : p.files ds root = (Document.excerptsFor m.assistant ds).map fun x =>
      ⟨root / dir / Path.ofString x.1.filename, x.2 ++ "\n"⟩ := by
    simp only [Generator.files, hp, hpa]
  have hmerged : m.files ds root = if (Document.excerptsFor m.assistant ds).isEmpty then [] else
      [⟨root / file, Generator.mergeTexts ((Document.excerptsFor m.assistant ds).map (·.2))⟩] := by
    simp only [Generator.files, hm]
  constructor
  · refine ⟨Document.excerptsFor m.assistant ds, ?_⟩
    constructor
    case documents => exact map_fst_excerptsFor _ _
    case excerpts => exact fun x hx => (mem_excerptsFor.1 hx).2
    case copied => exact hcopied
    case reformatted => simp only [Generator.files, hf, hfa]
    case merged_nil_iff =>
      rw [hmerged]
      split <;> simp_all
    case merged =>
      intro hne
      have htexts : (Document.excerptsFor m.assistant ds).map (·.2) ≠ [] := by simpa using hne
      rw [hmerged, if_neg (by simpa using hne), mergeTexts_eq_intercalate htexts, hcopied]
      simp only [List.map_map, Function.comp_def]
  · constructor
    · intro before changed after
      rw [files_append (by simp [hp]), files_append (by simp [hp])]
    · intro before changed after
      rw [files_append (by simp [hf]), files_append (by simp [hf])]

/-- Documents of which two have something left for copilot. -/
def fourDocuments : List Document :=
  [⟨"a.md", "# A\nfirst"⟩, ⟨"b.md", "## Memory [cline]\nskipped"⟩, ⟨"c.md", "\n  \n"⟩,
    ⟨"d.md", "\nfourth\n"⟩]

/-- Copilot's documents as copies, and with front matter. -/
def copilotCopies : Generator := { Generator.cline with assistant := .copilot }

def copilotReformatted : Generator := { Generator.cursor with assistant := .copilot }

theorem layouts_agree_fourDocuments :
    ((∃ kept, ShowSame .copilot .copilot copilotCopies copilotReformatted
        ".github/copilot-instructions.md" ".clinerules" ".cursor/rules" fourDocuments "out" kept) ∧
      KeepsApart copilotCopies "out" ∧ KeepsApart copilotReformatted "out") ∧
    Generator.copilot.files fourDocuments "out" =
      [⟨"out/.github/copilot-instructions.md", "# A\nfirst\n\nfourth\n"⟩] := by
  constructor
  · exact layouts_agree (m := .copilot) (p := copilotCopies) (f := copilotReformatted)
      ⟨rfl, rfl⟩ ⟨rfl, rfl⟩ ⟨rfl, rfl⟩ fourDocuments "out"
  · decide +kernel

end Rulebook
