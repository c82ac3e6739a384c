/-
Rulebook/Proofs/PlannedPaths.lean

Where the files of a plan go.  All of them go below the output root, with segments that do
not depend on it (`Generator.trails`, `map_path_plannedFiles`): one file for all documents,
a file under the name of each document, a file under the name of each document with
another extension, and the ignore files.  Different segments say different files, so that
the paths differ when the trails do.

The trails of different assistants differ, and so do those of different documents, except
that `.md` and `.md.md` get one and the same name with the other extension.  A plan has two
files at one path exactly if both of these have something left for the assistant that is
served so (`planned_paths_differ_iff`).
-/
import Mathlib.Data.List.Nodup
import Mathlib.Data.List.Pairwise
import Rulebook.Proofs.Compilation
import Rulebook.Proofs.Extension
import Rulebook.Proofs.Layouts
import Rulebook.Proofs.RulesDirectory

namespace Rulebook

open Disk (Name)
open Rulebook.Path (Segment)
open Text

/-! ### Paths of one generator -/

namespace Path

/-- Every path joined to a root goes on from it with its own pieces. -/
theorem div_eq_below (root p : Path) : root / p = root.below (split '/' p.chars) := by
  rw [below, assemble, intercalate_split]

/-- A path that goes on from a root goes on with one segment more. -/
theorem below_div (root : Path) {trail : List Segment} {name : Segment} (hne : trail ≠ [])
    (htrail : ∀ s ∈ trail, s.IsPlain) (hname : name.IsPlain) :
    root.below trail / (⟨name⟩ : Path) = root.below (trail ++ [name]) := by
  have hone : (⟨name⟩ : Path) = assemble .bare [name] := by simp [assemble]
  rw [hone]
  exact below_below root hne (by simp) htrail (by simpa using hname)

theorem div_div_eq_below (root : Path) {dir : Path} {name : Segment}
    (hdir : ∀ s ∈ split '/' dir.chars, Segment.IsPlain s) (hname : name.IsPlain) :
    root / dir / (⟨name⟩ : Path) = root.below (split '/' dir.chars ++ [name]) := by
  rw [div_eq_below root dir]
  exact below_div root (split_ne_nil _ _) hdir hname

end Path

/-! ### Names of documents -/

/-- The name of a document with the extension `mdc`, as its text is cut and joined. -/
def Document.cursorName (doc : Document) : Segment :=
  ((Path.ofString doc.filename).withExtension ['m', 'd', 'c']).chars

theorem Document.withExtension_eq (doc : Document) :
    (Path.ofString doc.filename).withExtension ['m', 'd', 'c'] = ⟨doc.cursorName⟩ := by
  rw [cursorName]

namespace AreNamed

variable {ds : List Document} {doc : Document}

theorem isPlain (h : AreNamed ds) (hdoc : doc ∈ ds) : Segment.IsPlain doc.filename.toList := by
  obtain ⟨n, hn⟩ := h.text doc hdoc
  exact (Name.segment_of_text? hn).1

theorem exists_cursorName_eq (h : AreNamed ds) (hdoc : doc ∈ ds) :
    ∃ stem, doc.filename.toList = stem ++ ['.', 'm', 'd'] ∧
      doc.cursorName = Path.reformatted stem ∧ '/' ∉ stem := by
  obtain ⟨stem, hstem⟩ := h.md doc hdoc
  have hslash : '/' ∉ stem := by
    have := (h.isPlain hdoc).slash
    rw [hstem] at this
    exact fun hmem => this (List.mem_append_left _ hmem)
  refine ⟨stem, hstem, ?_, hslash⟩
  rw [Document.cursorName, Path.ofString, hstem, Path.withExtension_md hslash]

theorem isPlain_cursorName (h : AreNamed ds) (hdoc : doc ∈ ds) : doc.cursorName.IsPlain := by
  obtain ⟨stem, -, hname, hslash⟩ := h.exists_cursorName_eq hdoc
  rw [hname]
  exact Path.isPlain_reformatted hslash

end AreNamed

/-! ### Trails -/

namespace Generator

/-- The segments of the place where the rule files go. -/
def placeTrail (g : Generator) : List Segment := split '/' g.layout.place.chars

/-- The segments with which the rule files of a generator go on from the output root. -/
def trails (g : Generator) (ds : List Document) : List (List Segment) :=
  let kept := Document.excerptsFor g.assistant ds
  match g.layout with
  | .merged _ => if kept.isEmpty then [] else [g.placeTrail]
  | .perDocument _ => kept.map fun (doc, _) => g.placeTrail ++ [doc.filename.toList]
  | .frontMatter _ _ => kept.map fun (doc, _) => g.placeTrail ++ [doc.cursorName]

/-- The segments with which its ignore file goes on, if there are patterns. -/
def ignoreTrail? (g : Generator) (patterns : Option String) : Option (List Segment) :=
  patterns.bind fun _ => if g.makesIgnore then some (split '/' g.ignoreFile.chars) else none

variable {g : Generator} {ds : List Document}

theorem map_path_files (hplace : ∀ s ∈ g.placeTrail, s.IsPlain) (hds : AreNamed ds) (root : Path) :
    (g.files ds root).map (·.path) = (g.trails ds).map root.below := by
  rw [files, trails]
  cases hlayout : g.layout with
  | merged file =>
    dsimp only
    split
    · rfl
    · rw [List.map_singleton, List.map_singleton, placeTrail, hlayout, Path.div_eq_below]
      rfl
  | perDocument dir =>
    have htrail : g.placeTrail = split '/' dir.chars := by rw [placeTrail, hlayout, Layout.place]
    rw [htrail] at hplace ⊢
    dsimp only
    rw [List.map_map, List.map_map]
    refine List.map_congr_left ?_
    rintro ⟨doc, text⟩ hmem
    exact Path.div_div_eq_below root hplace (hds.isPlain (mem_excerptsFor.1 hmem).1)
  | frontMatter dir legacy =>
    have htrail : g.placeTrail = split '/' dir.chars := by rw [placeTrail, hlayout, Layout.place]
    rw [htrail] at hplace ⊢
    dsimp only
    rw [List.map_map, List.map_map]
    refine List.map_congr_left ?_
    rintro ⟨doc, text⟩ hmem
    show root / dir / (Path.ofString doc.filename).withExtension ['m', 'd', 'c'] = _
    rw [doc.withExtension_eq]
    exact Path.div_div_eq_below root hplace (hds.isPlain_cursorName (mem_excerptsFor.1 hmem).1)

theorem map_path_ignore? (g : Generator) (patterns : Option String) (root : Path) :
    (patterns.bind (g.ignore? · root)).map (·.path) = (g.ignoreTrail? patterns).map root.below := by
  cases patterns with
  | none => rfl
  | some patterns =>
    by_cases hmakes : g.makesIgnore = true <;>
      simp [ignore?, ignoreTrail?, hmakes, ignorePath, Path.div_eq_below]

end Generator

/-- The segments with which the files of a plan go on from the output root, in the order
of the files. -/
def plannedTrails (gs : List Generator) (ds : List Document) (patterns : Option String) :
    List (List Segment) :=
  gs.flatMap (·.trails ds) ++ gs.filterMap (·.ignoreTrail? patterns)

theorem map_path_plannedFiles {gs : List Generator} {ds : List Document}
    (hplace : ∀ g ∈ gs, ∀ s ∈ g.placeTrail, s.IsPlain) (hds : AreNamed ds)
    (patterns : Option String) (root : Path) :
    (plannedFiles (gs.map (·.output ds patterns root))).map (·.path) =
      (plannedTrails gs ds patterns).map root.below := by
  have hfiles : (gs.map (·.output ds patterns root)).flatMap (fun o => o.files.map (·.path)) =
      gs.flatMap fun g => (g.trails ds).map root.below := by
    rw [List.flatMap_map]
    exact List.flatMap_congr fun g hg => Generator.map_path_files (hplace g hg) hds root
  have hignore : (gs.map (·.output ds patterns root)).filterMap (fun o => o.ignore.map (·.path)) =
      gs.filterMap fun g => (g.ignoreTrail? patterns).map root.below := by
    rw [List.filterMap_map]
    exact List.filterMap_congr fun g _ => g.map_path_ignore? patterns root
  rw [plannedFiles, plannedTrails, List.map_append, List.map_append, List.map_flatMap, hfiles,
    List.map_filterMap, hignore, List.map_flatMap, List.map_filterMap]

/-! ### The assistants' own generators -/

/-- The assistants' own generators, in the order of the assistants. -/
def ownGenerators : List Generator := [.copilot, .cline, .cursor]

/-- Planning with the assistants' own generators succeeds when the rules and the patterns
can be read, and every generator makes its files. -/
theorem plan_standard_eq_ok_iff {d : Disk} {input root : Path} {outputs : List Output} :
    (plan d .standard input root).result = .ok outputs ↔
      ∃ ds patterns, (loadRules d (input / rulesDir)).result = .ok ds ∧
        readIgnore d (input / ignoreFile) = .ok patterns ∧
        outputs = ownGenerators.map (·.output ds patterns root) := by
  have hall : ∀ ds patterns, outputsFor .standard ds patterns root Assistant.all =
      .ok (ownGenerators.map (·.output ds patterns root)) := fun _ _ => rfl
  simp only [plan, bind_eq_ok_iff, Account.inside, mapError_eq_ok_iff, hall, Except.ok.injEq]
  constructor
  · rintro ⟨ds, hds, patterns, hpatterns, rfl⟩
    exact ⟨ds, patterns, hds, hpatterns, rfl⟩
  · rintro ⟨ds, patterns, hds, hpatterns, rfl⟩
    exact ⟨ds, hds, patterns, hpatterns, rfl⟩

instance : DecidablePred Path.Segment.IsPlain := fun s =>
  decidable_of_iff ('/' ∉ s ∧ s.isIdle = false) ⟨fun ⟨h, h'⟩ => ⟨h, h'⟩, fun ⟨h, h'⟩ => ⟨h, h'⟩⟩

theorem isPlain_placeTrail {g : Generator} (hg : g ∈ ownGenerators) :
    ∀ s ∈ g.placeTrail, s.IsPlain := by
  revert g
  decide

theorem trails_copilot (ds : List Document) : Generator.copilot.trails ds =
    if (Document.excerptsFor .copilot ds).isEmpty then []
    else [[".github".toList, "copilot-instructions.md".toList]] := rfl

theorem trails_cline (ds : List Document) : Generator.cline.trails ds =
    (Document.excerptsFor .cline ds).map fun (doc, _) => [".clinerules".toList, doc.filename.toList] := rfl

theorem trails_cursor (ds : List Document) : Generator.cursor.trails ds =
    (Document.excerptsFor .cursor ds).map fun (doc, _) =>
      [".cursor".toList, "rules".toList, doc.cursorName] := rfl

theorem ignoreTrails_own (patterns : Option String) :
    ownGenerators.filterMap (·.ignoreTrail? patterns) =
      if patterns.isSome then
        [[".copilotignore".toList], [".clineignore".toList], [".cursor".toList, "ignore".toList]]
      else [] := by
  rcases patterns with - | patterns <;> rfl

/-- The trails that do not depend on the names of documents. -/
def fixedTrails : List (List Segment) :=
  [[".github".toList, "copilot-instructions.md".toList], [".copilotignore".toList],
    [".clineignore".toList], [".cursor".toList, "ignore".toList]]

/-- What the trails of the rule files can be. -/
theorem mem_flatMap_trails {ds : List Document} {trail : List Segment}
    (h : trail ∈ ownGenerators.flatMap (·.trails ds)) :
    trail = [".github".toList, "copilot-instructions.md".toList] ∨
      (∃ x ∈ Document.excerptsFor .cline ds,
        trail = [".clinerules".toList, x.1.filename.toList]) ∨
      ∃ x ∈ Document.excerptsFor .cursor ds,
        trail = [".cursor".toList, "rules".toList, x.1.cursorName] := by
  obtain ⟨g, hg, htrail⟩ := List.mem_flatMap.1 h
  simp only [ownGenerators, List.mem_cons, List.not_mem_nil, or_false] at hg
  rcases hg with rfl | rfl | rfl
  · left
    rw [trails_copilot] at htrail
    split at htrail
    · exact absurd htrail List.not_mem_nil
    · exact List.mem_singleton.1 htrail
  · rw [trails_cline] at htrail
    obtain ⟨x, hx, rfl⟩ := List.mem_map.1 htrail
    exact .inr (.inl ⟨x, hx, rfl⟩)
  · rw [trails_cursor] at htrail
    obtain ⟨x, hx, rfl⟩ := List.mem_map.1 htrail
    exact .inr (.inr ⟨x, hx, rfl⟩)

/-- What the trails of a plan can be. -/
theorem mem_plannedTrails {ds : List Document} {patterns : Option String} {trail : List Segment}
    (h : trail ∈ plannedTrails ownGenerators ds patterns) :
    trail ∈ fixedTrails ∨
      (∃ x ∈ Document.excerptsFor .cline ds,
        trail = [".clinerules".toList, x.1.filename.toList]) ∨
      ∃ x ∈ Document.excerptsFor .cursor ds,
        trail = [".cursor".toList, "rules".toList, x.1.cursorName] := by
  rcases List.mem_append.1 h with h | h
  · refine (mem_flatMap_trails h).imp_left ?_
    rintro rfl
    decide
  · left
    rw [ignoreTrails_own] at h
    split at h
    · have hfixed : ∀ trail ∈ [[".copilotignore".toList], [".clineignore".toList],
          [".cursor".toList, "ignore".toList]], trail ∈ fixedTrails := by decide
      exact hfixed trail h
    · exact absurd h List.not_mem_nil

/-- All segments of the trails say something. -/
theorem isPlain_plannedTrails {ds : List Document} {patterns : Option String}
    (hds : AreNamed ds) {trail : List Segment}
    (h : trail ∈ plannedTrails ownGenerators ds patterns) : trail ≠ [] ∧ ∀ s ∈ trail, s.IsPlain := by
  rcases mem_plannedTrails h with h | ⟨x, hx, rfl⟩ | ⟨x, hx, rfl⟩
  · have hfixed : ∀ trail ∈ fixedTrails, trail ≠ [] ∧ ∀ s ∈ trail, s.IsPlain := by decide
    exact hfixed trail h
  · have hname := hds.isPlain (mem_excerptsFor.1 hx).1
    have hdir : Segment.IsPlain ".clinerules".toList := by decide
    simp only [List.forall_mem_cons]
    exact ⟨by simp, hdir, hname, by simp⟩
  · have hname := hds.isPlain_cursorName (mem_excerptsFor.1 hx).1
    have hdirs : Segment.IsPlain ".cursor".toList ∧ Segment.IsPlain "rules".toList := by decide
    simp only [List.forall_mem_cons]
    exact ⟨by simp, hdirs.1, hdirs.2, hname, by simp⟩

/-! ### Different trails -/

/-- Whether something of the document of this name is left for an assistant. -/
def Keeps (ds : List Document) (a : Assistant) (name : String) : Prop :=
  ∃ doc ∈ ds, doc.filename = name ∧ doc.excerpt? a ≠ none

section Different

variable {ds : List Document}

theorem keeps_of_mem {a : Assistant} {x : Document × String}
    (h : x ∈ Document.excerptsFor a ds) : Keeps ds a x.1.filename := by
  obtain ⟨hdoc, htext⟩ := mem_excerptsFor.1 h
  exact ⟨x.1, hdoc, rfl, by simp [htext]⟩

theorem excerptsFor_sublist (a : Assistant) (ds : List Document) :
    ((Document.excerptsFor a ds).map (·.1)).Sublist ds := by
  induction ds with
  | nil => exact .slnil
  | cons doc ds ih =>
    rcases he : doc.excerpt? a with - | text
    · simpa [Document.excerptsFor, he] using ih.cons doc
    · simpa [Document.excerptsFor, he] using ih.cons_cons doc

theorem AreNamed.pairwise_excerptsFor (h : AreNamed ds) (a : Assistant) :
    (Document.excerptsFor a ds).Pairwise fun x y => x.1.filename ≠ y.1.filename := by
  have hnodup := h.nodup.sublist ((excerptsFor_sublist a ds).map (·.filename))
  rwa [List.map_map, List.Nodup, List.pairwise_map] at hnodup

theorem nodup_trails_cline (h : AreNamed ds) : (Generator.cline.trails ds).Nodup := by
  rw [trails_cline, List.Nodup, List.pairwise_map]
  refine (h.pairwise_excerptsFor .cline).imp fun {x y} hne heq => hne ?_
  simpa [String.toList_inj] using heq

/-- Two documents get the same name only if they are `.md` and `.md.md`. -/
theorem nodup_trails_cursor_iff (h : AreNamed ds) : (Generator.cursor.trails ds).Nodup ↔
    ¬ (Keeps ds .cursor ".md" ∧ Keeps ds .cursor ".md.md") := by
  rw [trails_cursor, List.Nodup, List.pairwise_map]
  constructor
  · -- `.md` keeps its letters, and `.md.md` loses its last ones: both come to `.md.mdc`
    rintro hpairwise ⟨⟨doc, hdoc, hname, hkept⟩, ⟨doc', hdoc', hname', hkept'⟩⟩
    obtain ⟨text, htext⟩ := Option.ne_none_iff_exists'.1 hkept
    obtain ⟨text', htext'⟩ := Option.ne_none_iff_exists'.1 hkept'
    have hne : (doc, text) ≠ (doc', text') := by
      intro heq
      have := congrArg (fun x => x.1.filename) heq
      simp [hname, hname'] at this
    have hsymm : Std.Symm fun x y : Document × String =>
        [".cursor".toList, "rules".toList, x.1.cursorName] ≠
          [".cursor".toList, "rules".toList, y.1.cursorName] := ⟨fun _ _ => Ne.symm⟩
    have hsame : [".cursor".toList, "rules".toList, doc.cursorName] =
        [".cursor".toList, "rules".toList, doc'.cursorName] := by
      rw [Document.cursorName, Document.cursorName, hname, hname']
      rfl
    exact hpairwise.forall (mem_excerptsFor.2 ⟨hdoc, htext⟩) (mem_excerptsFor.2 ⟨hdoc', htext'⟩) hne
      hsame
  · intro hno
    refine (h.pairwise_excerptsFor .cursor).imp_of_mem fun {x y} hx hy hne heq => ?_
    obtain ⟨stemx, hstemx, hnamex, -⟩ := h.exists_cursorName_eq (mem_excerptsFor.1 hx).1
    obtain ⟨stemy, hstemy, hnamey, -⟩ := h.exists_cursorName_eq (mem_excerptsFor.1 hy).1
    have heq' : Path.reformatted stemx = Path.reformatted stemy := by simpa [hnamex, hnamey] using heq
    rcases Path.reformatted_inj.1 heq' with hstem | ⟨rfl, rfl⟩ | ⟨rfl, rfl⟩
    · exact hne (String.toList_inj.1 (by rw [hstemx, hstemy, hstem]))
    · have hmd : x.1.filename = ".md" := String.toList_inj.1 hstemx
      have hmdmd : y.1.filename = ".md.md" := String.toList_inj.1 hstemy
      exact hno ⟨hmd ▸ keeps_of_mem hx, hmdmd ▸ keeps_of_mem hy⟩
    · have hmdmd : x.1.filename = ".md.md" := String.toList_inj.1 hstemx
      have hmd : y.1.filename = ".md" := String.toList_inj.1 hstemy
      exact hno ⟨hmd ▸ keeps_of_mem hy, hmdmd ▸ keeps_of_mem hx⟩

/-- The files of an assistant start with the segments of its place. -/
theorem starts_with_placeTrail {g : Generator} {trail : List Segment} (h : trail ∈ g.trails ds) :
    g.placeTrail <+: trail := by
  rw [Generator.trails] at h
  cases hlayout : g.layout with
  | merged file =>
    simp only [hlayout] at h
    split at h
    · exact absurd h List.not_mem_nil
    · obtain rfl : trail = g.placeTrail := List.mem_singleton.1 h
      exact List.prefix_rfl
  | perDocument dir | frontMatter dir legacy =>
    simp only [hlayout] at h
    obtain ⟨x, -, rfl⟩ := List.mem_map.1 h
    exact List.prefix_append _ _

/-- Assistants whose places are not below one another are not in each other's way. -/
theorem nodup_flatMap_trails_iff {gs : List Generator}
    (h : gs.Pairwise fun g g' => ¬ g.placeTrail <+: g'.placeTrail ∧ ¬ g'.placeTrail <+: g.placeTrail) :
    (gs.flatMap (·.trails ds)).Nodup ↔ ∀ g ∈ gs, (g.trails ds).Nodup := by
  rw [List.nodup_flatMap]
  refine and_iff_left (h.imp fun {g g'} hapart trail htrail htrail' => ?_)
  exact (List.prefix_or_prefix_of_prefix (starts_with_placeTrail htrail)
    (starts_with_placeTrail htrail')).elim hapart.1 hapart.2

/-- The files of different assistants, and the ignore files, are never in the way of each
other. -/
theorem nodup_plannedTrails_iff (h : AreNamed ds) (patterns : Option String) :
    (plannedTrails ownGenerators ds patterns).Nodup ↔ (Generator.cursor.trails ds).Nodup := by
  -- none of the three places lies below another one, and no ignore file in any of them
  have hapart : ownGenerators.Pairwise fun g g' =>
      ¬ g.placeTrail <+: g'.placeTrail ∧ ¬ g'.placeTrail <+: g.placeTrail := by decide
  have hignore : (ownGenerators.filterMap (·.ignoreTrail? patterns)).Nodup := by
    rw [ignoreTrails_own]
    split <;> decide
  have hplaces : ∀ trail ∈ ownGenerators.filterMap (·.ignoreTrail? patterns),
      ∀ g ∈ ownGenerators, ¬ g.placeTrail <+: trail := by
    rw [ignoreTrails_own]
    split <;> decide
  have hcopilot : (Generator.copilot.trails ds).Nodup := by
    rw [trails_copilot]
    split <;> simp
  rw [plannedTrails, List.nodup_append, nodup_flatMap_trails_iff hapart]
  constructor
  · rintro ⟨hfiles, -, -⟩
    exact hfiles .cursor (by simp [ownGenerators])
  · intro hcursor
    refine ⟨?_, hignore, ?_⟩
    · simp only [ownGenerators, List.forall_mem_cons]
      exact ⟨hcopilot, nodup_trails_cline h, hcursor, by simp⟩
    · rintro trail htrail other hother rfl
      obtain ⟨g, hg, htrail⟩ := List.mem_flatMap.1 htrail
      exact hplaces trail hother g hg (starts_with_placeTrail htrail)

end Different

/-! ### Different paths -/

/-- The files of a plan have different paths unless something of both `.md` and `.md.md` is
left for the assistant whose files are reformatted; each document with something left for
an assistant that gets a file for each document has one. -/
theorem planned_paths_differ_iff {d : Disk} {input root : Path} {outputs : List Output}
    (h : (plan d .standard input root).result = .ok outputs) :
    ∃ ds, (loadRules d (input / rulesDir)).result = .ok ds ∧
      (∀ a, a ≠ .copilot → ∃ output ∈ outputs, output.assistant = a ∧
        output.files.length = (Document.excerptsFor a ds).length) ∧
      (((plannedFiles outputs).map (·.path)).Pairwise (fun p q => p.agrees q = false) ↔
        ¬ (Keeps ds .cursor ".md" ∧ Keeps ds .cursor ".md.md")) := by
  obtain ⟨ds, patterns, hds, -, rfl⟩ := plan_standard_eq_ok_iff.1 h
  have hnamed : AreNamed ds := areNamed_of_loadRules hds
  refine ⟨ds, hds, ?_, ?_⟩
  · intro a ha
    cases a with
    | copilot => exact absurd rfl ha
    | cline =>
      exact ⟨Generator.cline.output ds patterns root, by simp [ownGenerators], rfl, List.length_map _⟩
    | cursor =>
      exact ⟨Generator.cursor.output ds patterns root, by simp [ownGenerators], rfl, List.length_map _⟩
  · rw [map_path_plannedFiles (fun g => isPlain_placeTrail) hnamed, List.pairwise_map,
      ← nodup_trails_cursor_iff hnamed, ← nodup_plannedTrails_iff hnamed patterns]
    -- below one root, only equal trails say the same
    refine List.Pairwise.iff_of_mem fun {trail other} htrail hother => ?_
    obtain ⟨hne, hplain⟩ := isPlain_plannedTrails hnamed htrail
    obtain ⟨hne', hplain'⟩ := isPlain_plannedTrails hnamed hother
    rw [← Bool.not_eq_true, Path.agrees_below_iff hne hne' hplain hplain']

/-- A disk with two documents that get the same name. -/
def twoOfAName : Disk :=
  (writeAll .empty [⟨"in/rules/.md", "one"⟩, ⟨"in/rules/.md.md", "two"⟩]).disk

/-- Two planned files can have the same path. -/
theorem planned_paths_agree_twoOfAName :
    ∃ outputs, (plan twoOfAName .standard "in" "out").result = .ok outputs ∧
      ¬ ((plannedFiles outputs).map (·.path)).Pairwise (fun p q => p.agrees q = false) := by
  have hpaths : (plan twoOfAName .standard "in" "out").result.map
      (fun outputs => (plannedFiles outputs).map (·.path)) =
        .ok ["out/.github/copilot-instructions.md", "out/.clinerules/.md", "out/.clinerules/.md.md",
          "out/.cursor/rules/.md.mdc", "out/.cursor/rules/.md.mdc"] := by
    decide +kernel
  obtain ⟨outputs, hplan, houtputs⟩ := map_eq_ok_iff.1 hpaths
  refine ⟨outputs, hplan, ?_⟩
  rw [houtputs]
  decide

theorem planned_paths_differ_iff_oneRule :
    ∃ outputs, (plan oneRule .standard "in" "out").result = .ok outputs ∧
      (plannedFiles outputs).map (·.path) =
        ["out/.github/copilot-instructions.md", "out/.clinerules/a.md",
          "out/.cursor/rules/a.mdc"] ∧
      (loadRules oneRule ("in" / rulesDir)).result = .ok [⟨"a.md", "text"⟩] ∧
      (∀ a, a ≠ .copilot → ∃ output ∈ outputs, output.assistant = a ∧ output.files.length = 1) ∧
      ¬ (Keeps [⟨"a.md", "text"⟩] .cursor ".md" ∧ Keeps [⟨"a.md", "text"⟩] .cursor ".md.md") ∧
      ((plannedFiles outputs).map (·.path)).Pairwise (fun p q => p.agrees q = false) := by
  have hpaths : (plan oneRule .standard "in" "out").result.map
      (fun outputs => (plannedFiles outputs).map (·.path)) =
        .ok ["out/.github/copilot-instructions.md", "out/.clinerules/a.md",
          "out/.cursor/rules/a.mdc"] := by
    decide +kernel
  have hload : (loadRules oneRule ("in" / rulesDir)).result = .ok [⟨"a.md", "text"⟩] := by
    decide +kernel
  have hkeeps : ¬ (Keeps [⟨"a.md", "text"⟩] .cursor ".md" ∧
      Keeps [⟨"a.md", "text"⟩] .cursor ".md.md") := by simp [Keeps]
  have hone : ∀ a, (Document.excerptsFor a [⟨"a.md", "text"⟩]).length = 1 := by
    intro a
    cases a <;> decide +kernel
  obtain ⟨outputs, hplan, houtputs⟩ := map_eq_ok_iff.1 hpaths
  obtain ⟨ds, hds, hown, hdiffer⟩ := planned_paths_differ_iff hplan
  obtain rfl : [⟨"a.md", "text"⟩] = ds := Except.ok.inj (hload.symm.trans hds)
  refine ⟨outputs, hplan, houtputs, hload, fun a ha => ?_, hkeeps, hdiffer.2 hkeeps⟩
  rw [← hone a]
  exact hown a ha

end Rulebook
