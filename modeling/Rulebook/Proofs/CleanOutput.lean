/-
Rulebook/Proofs/CleanOutput.lean

Compiling into an empty directory.  The guard finds nothing there (`guardLegacy_clean`),
and the trails of a plan are filed in a small layout of directories (`filed_plannedTrails`),
so that a run ends well if all trails end in names, and else fails at one that does not
(`compile_clean_cases`).  All do but those that documents get with another extension, which
is one letter longer than the old one: a document of 255 bytes has no such name, and nor has
`..md`, of whose name only `..` is left (`exists_ofSegment_cursorName_iff`).

Main result `compile_clean`: without `..md`, a run ends well exactly when no document has a name
of 255 bytes, and else it fails at the file of such a document, whose name would be too long.
-/
import Rulebook.Proofs.Disk.Straight
import Rulebook.Proofs.PlannedPaths
import Rulebook.Proofs.Writing

namespace Rulebook

open Disk (Grown IsLayout Name Spelled Step)
open Rulebook.Path (Segment)
open Text

variable {d : Disk} {root : Path} {home : Location} {ds : List Document}

/-! ### The layout -/

/-- The names that the segments of a trail are the text of. -/
def namesOf (trail : List Segment) : List Name := trail.filterMap Name.ofChars?

/-- The directories that compiling makes, by the segments that lead to them. -/
def dirTrails : List (List Segment) :=
  [[], [".github".toList], [".clinerules".toList], [".cursor".toList],
    [".cursor".toList, "rules".toList]]

/-- The directories that compiling makes, with the output root. -/
def ownLayout : List (List Name) := dirTrails.map namesOf

theorem isLayout_ownLayout : IsLayout ownLayout := by
  have hlayout : [] ∈ ownLayout ∧ ∀ way ∈ ownLayout, way.dropLast ∈ ownLayout := by decide +kernel
  refine ⟨hlayout.1, fun way n hway => ?_⟩
  have hupper := hlayout.2 _ hway
  rwa [List.dropLast_concat] at hupper

theorem spelled_dirTrails {trail : List Segment} (h : trail ∈ dirTrails) :
    Spelled trail (namesOf trail) := by
  have hall : ∀ trail ∈ dirTrails, (∀ s ∈ trail, s.IsPlain) ∧ (∀ s ∈ trail, '\x00' ∉ s) ∧
      trail.map Step.ofSegment = (namesOf trail).map .down := by decide +kernel
  obtain ⟨hplain, hnul, hsteps⟩ := hall trail h
  exact ⟨hplain, hnul, hsteps⟩

theorem filed_append {init : List Segment} {last : Segment} (hinit : init ∈ dirTrails)
    (hlast : last.IsPlain) (hnul : '\x00' ∉ last)
    (hfree : ∀ n, Step.ofSegment last = .down n → namesOf init ++ [n] ∉ ownLayout) :
    Filed ownLayout (init ++ [last]) :=
  ⟨init, last, namesOf init, rfl, spelled_dirTrails hinit, List.mem_map_of_mem hinit, hlast, hnul,
    hfree⟩

/-! ### Names with another extension -/

theorem AreNamed.nul_not_mem (h : AreNamed ds) {doc : Document} (hdoc : doc ∈ ds) :
    '\x00' ∉ doc.filename.toList ∧ '\x00' ∉ doc.cursorName := by
  obtain ⟨n, hn⟩ := h.text doc hdoc
  obtain ⟨stem, hstem, hname, -⟩ := h.exists_cursorName_eq hdoc
  have hnul : '\x00' ∉ doc.filename.toList := (Name.segment_of_text? hn).2.1
  refine ⟨hnul, fun hmem => ?_⟩
  rw [hname] at hmem
  rw [hstem] at hnul
  rcases Path.mem_reformatted hmem with hmem | hmem
  · exact hnul (List.mem_append_left _ hmem)
  · exact absurd hmem (by decide)

/-- The extension `mdc` is one letter longer than `md`, so that the longest names are too
long with it. -/
theorem exists_ofSegment_cursorName_iff (h : AreNamed ds) {doc : Document} (hdoc : doc ∈ ds) :
    (∃ n, Step.ofSegment doc.cursorName = .down n) ↔
      doc.filename ≠ "..md" ∧ doc.filename.utf8ByteSize ≤ 254 := by
  obtain ⟨stem, hstem, hname, -⟩ := h.exists_cursorName_eq hdoc
  rw [Disk.exists_ofSegment_eq_down_iff (h.isPlain_cursorName hdoc) (h.nul_not_mem hdoc).2, hname]
  have hsize : doc.filename.utf8ByteSize = (utf8 stem).length + 3 := by
    rw [← length_utf8, hstem, utf8_append, List.length_append]
    rfl
  have hdots : doc.filename = "..md" ↔ stem = ['.'] := by
    rw [← String.toList_inj, hstem]
    show stem ++ ['.', 'm', 'd'] = ['.'] ++ ['.', 'm', 'd'] ↔ stem = ['.']
    exact List.append_left_inj _
  rw [hsize, Ne, Ne, hdots, Path.reformatted]
  by_cases hone : stem = ['.']
  · simp [hone]
  · have hne : ∀ s : Segment, s ++ ['.', 'm', 'd', 'c'] ≠ ['.', '.'] := by
      intro s hs
      have hlength := congrArg List.length hs
      simp at hlength
    have hmdc : ∀ s : Segment, (utf8 (s ++ ['.', 'm', 'd', 'c'])).length = (utf8 s).length + 4 := by
      intro s
      rw [utf8_append, List.length_append]
      rfl
    rw [if_neg hone]
    -- `.md` gets two extensions, and is short enough for that
    by_cases hnil : stem = []
    · subst hnil
      decide
    · rw [if_neg hnil, hmdc]
      simp only [hne, hone, not_false_eq_true, true_and]
      omega

/-! ### Where the files go -/

theorem namesOf_append_of_down {init : List Segment} {last : Segment} {n : Name}
    (h : Step.ofSegment last = .down n) : namesOf (init ++ [last]) = namesOf init ++ [n] := by
  simp [namesOf, Name.ofChars?_of_down h]

/-- The files whose names are fixed are where they can be written. -/
theorem filed_fixedTrails {trail : List Segment} (h : trail ∈ fixedTrails) :
    Filed ownLayout trail ∧ EndsInName trail := by
  have hall : ∀ trail ∈ fixedTrails, trail ≠ [] ∧ trail.dropLast ∈ dirTrails ∧
      namesOf trail ∉ ownLayout ∧ ∀ s ∈ trail, s.IsPlain ∧ '\x00' ∉ s ∧ s ≠ ['.', '.'] ∧
        (utf8 s).length ≤ 255 := by decide +kernel
  obtain ⟨hne, hinit, hfree, hsegments⟩ := hall trail h
  obtain ⟨init, last, rfl⟩ := (List.eq_nil_or_concat' trail).resolve_left hne
  obtain ⟨hplain, hnul, hdots, hlength⟩ := hsegments last (by simp)
  rw [List.dropLast_concat] at hinit
  refine ⟨filed_append hinit hplain hnul fun n hn => ?_, endsInName_append.2 ?_⟩
  · rwa [← namesOf_append_of_down hn]
  · exact (Disk.exists_ofSegment_eq_down_iff hplain hnul).2 ⟨hdots, hlength⟩

/-- All files of a plan go into the layout. -/
theorem filed_plannedTrails (h : AreNamed ds) {patterns : Option String} {trail : List Segment}
    (htrail : trail ∈ plannedTrails ownGenerators ds patterns) : Filed ownLayout trail := by
  rcases mem_plannedTrails htrail with hfixed | ⟨⟨doc, text⟩, hx, rfl⟩ | ⟨⟨doc, text⟩, hx, rfl⟩
  · exact (filed_fixedTrails hfixed).1
  · have hdoc := (mem_excerptsFor.1 hx).1
    show Filed ownLayout ([".clinerules".toList] ++ [doc.filename.toList])
    refine filed_append (by decide) (h.isPlain hdoc) (h.nul_not_mem hdoc).1 fun n _ hmem => ?_
    -- the only directory of the layout that is as deep has another name first
    have hlayout : (namesOf [".clinerules".toList]).length = 1 ∧ ∀ way ∈ ownLayout,
        way.length ≤ 1 ∨ way.take 1 ≠ namesOf [".clinerules".toList] := by decide +kernel
    obtain ⟨m, hm⟩ := List.length_eq_one_iff.1 hlayout.1
    rw [hm] at hlayout hmem
    rcases hlayout.2 _ hmem with hlength | hfirst
    · simp at hlength
    · exact hfirst rfl
  · have hdoc := (mem_excerptsFor.1 hx).1
    show Filed ownLayout ([".cursor".toList, "rules".toList] ++ [doc.cursorName])
    refine filed_append (by decide) (h.isPlain_cursorName hdoc) (h.nul_not_mem hdoc).2
      fun n _ hmem => ?_
    have hlayout : (namesOf [".cursor".toList, "rules".toList]).length = 2 ∧
        ∀ way ∈ ownLayout, way.length ≤ 2 := by decide +kernel
    have hlength := hlayout.2 _ hmem
    rw [List.length_append, hlayout.1, List.length_singleton] at hlength
    omega

/-- A trail of a plan that ends in no name is that of a document with another extension. -/
theorem exists_of_not_endsInName (h : AreNamed ds) {patterns : Option String}
    {trail : List Segment} (htrail : trail ∈ plannedTrails ownGenerators ds patterns)
    (hno : ¬ EndsInName trail) :
    ∃ doc ∈ ds, doc.excerpt? .cursor ≠ none ∧
      trail = [".cursor".toList, "rules".toList, doc.cursorName] ∧
      ¬ (doc.filename ≠ "..md" ∧ doc.filename.utf8ByteSize ≤ 254) := by
  rcases mem_plannedTrails htrail with hfixed | ⟨⟨doc, text⟩, hx, rfl⟩ | ⟨⟨doc, text⟩, hx, rfl⟩
  · exact absurd (filed_fixedTrails hfixed).2 hno
  · obtain ⟨n, hn⟩ := h.text doc (mem_excerptsFor.1 hx).1
    exact absurd ⟨[".clinerules".toList], _, n, rfl, (Name.segment_of_text? hn).2.2⟩ hno
  · obtain ⟨hdoc, htext⟩ := mem_excerptsFor.1 hx
    refine ⟨doc, hdoc, by simp [htext], rfl, fun hname => hno ?_⟩
    obtain ⟨n, hn⟩ := (exists_ofSegment_cursorName_iff h hdoc).2 hname
    exact ⟨[".cursor".toList, "rules".toList], _, n, rfl, hn⟩

/-- All trails of a plan end in names if the names with another extension do. -/
theorem endsInName_plannedTrails_iff (h : AreNamed ds) (patterns : Option String) :
    (∀ trail ∈ plannedTrails ownGenerators ds patterns, EndsInName trail) ↔
      ∀ doc ∈ ds, doc.excerpt? .cursor ≠ none →
        doc.filename ≠ "..md" ∧ doc.filename.utf8ByteSize ≤ 254 := by
  constructor
  · intro hall doc hdoc hkept
    obtain ⟨text, htext⟩ := Option.ne_none_iff_exists'.1 hkept
    have hmem : [".cursor".toList, "rules".toList] ++ [doc.cursorName] ∈
        plannedTrails ownGenerators ds patterns := by
      refine List.mem_append_left _ (List.mem_flatMap.2 ⟨.cursor, by simp [ownGenerators], ?_⟩)
      rw [trails_cursor]
      exact List.mem_map.2 ⟨(doc, text), mem_excerptsFor.2 ⟨hdoc, htext⟩, rfl⟩
    exact (exists_ofSegment_cursorName_iff h hdoc).1 (endsInName_append.1 (hall _ hmem))
  · intro hall trail htrail
    by_contra hno
    obtain ⟨doc, hdoc, hkept, -, hname⟩ := exists_of_not_endsInName h htrail hno
    exact hname (hall doc hdoc hkept)

theorem AreNamed.size_filename_le (h : AreNamed ds) {doc : Document} (hdoc : doc ∈ ds) :
    doc.filename.utf8ByteSize ≤ 255 := by
  obtain ⟨n, hn⟩ := h.text doc hdoc
  rw [← length_utf8, Name.text?_eq_some_iff.1 hn]
  exact (Disk.isName_iff.1 n.usable).1

/-- A long name is neither `.md` nor `..md`, so that the new extension is put after its stem. -/
theorem exists_cursorName_of_long (h : AreNamed ds) {doc : Document} (hdoc : doc ∈ ds)
    (hlong : 254 < doc.filename.utf8ByteSize) :
    ∃ stem, doc.filename = stem ++ ".md" ∧ doc.cursorName = (stem ++ ".mdc").toList := by
  obtain ⟨stem, hstem, hname, -⟩ := h.exists_cursorName_eq hdoc
  have hfile : doc.filename = String.ofList stem ++ ".md" := by
    rw [← String.toList_inj, hstem]
    simp
  have hne : ∀ short ∈ [[], ['.']], stem ≠ short := by
    rintro short hshort rfl
    have hsmall : ∀ s ∈ [[], ['.']], (String.ofList s ++ ".md").utf8ByteSize ≤ 254 := by decide
    exact Nat.not_le_of_lt hlong (hfile ▸ hsmall _ hshort)
  refine ⟨String.ofList stem, hfile, ?_⟩
  rw [hname, Path.reformatted, if_neg (hne _ (by simp)), if_neg (hne _ (by simp))]
  simp

/-- The longest names have 255 bytes, and with another extension such a name is refused. -/
theorem refusal_of_long (h : AreNamed ds) {doc : Document} (hdoc : doc ∈ ds)
    (hlong : 254 < doc.filename.utf8ByteSize) (root : Path) :
    ∃ stem, doc.filename = stem ++ ".md" ∧ doc.filename.utf8ByteSize = 255 ∧
      refusal root [".cursor".toList, "rules".toList, doc.cursorName] =
        .ofFault
          (.writeGenerated (root / (".cursor/rules" : Path) / Path.ofString (stem ++ ".mdc")))
          .nameTooLong := by
  obtain ⟨stem, hfile, hcursor⟩ := exists_cursorName_of_long h hdoc hlong
  have hplain : Segment.IsPlain (stem ++ ".mdc").toList := hcursor ▸ h.isPlain_cursorName hdoc
  have hdir : ∀ s ∈ split '/' (Path.ofString ".cursor/rules").chars, Segment.IsPlain s := by decide
  have hpath := Path.div_div_eq_below root hdir hplain
  have hup : (stem ++ ".mdc").toList ≠ ['.', '.'] := by
    intro hlast
    have hlength := congrArg List.length hlast
    simp at hlength
  refine ⟨stem, hfile, Nat.le_antisymm (h.size_filename_le hdoc) hlong, ?_⟩
  rw [hcursor, refusal, if_neg (by simpa using hup)]
  exact congrArg (fun p => Failure.ofFault (.writeGenerated p) .nameTooLong) hpath.symm

/-! ### The guard -/

/-- The segments under which the legacy files lie below the output root. -/
def legacySegments : List Segment :=
  [".clinerules".toList, ".cursorrules".toList, ".cursorignore".toList]

/-- With the assistants' own generators, the guard looks directly below the output root. -/
theorem guardLegacy_own_iff : guardLegacy d .standard root = .ok () ↔
    ∀ s ∈ legacySegments, LegacyPath.IsClear d ⟨root.below [s], String.ofList s⟩ := by
  have hpaths : legacyPathsFor .standard root Assistant.all =
      .ok (legacySegments.map fun s => ⟨root.below [s], String.ofList s⟩) := rfl
  rw [guardLegacy, hpaths, ok_bind, mapError_eq_ok_iff, checkLegacy_eq_ok_iff, List.forall_mem_map]

theorem exists_spelled_legacySegments {s : Segment} (hs : s ∈ legacySegments) :
    ∃ n, Spelled [s] [n] := by
  have hall : ∀ s ∈ legacySegments,
      Segment.IsPlain s ∧ '\x00' ∉ s ∧ s ≠ ['.', '.'] ∧ (utf8 s).length ≤ 255 := by decide +kernel
  obtain ⟨hplain, hnul, hdots, hlength⟩ := hall s hs
  obtain ⟨n, hn⟩ := (Disk.exists_ofSegment_eq_down_iff hplain hnul).2 ⟨hdots, hlength⟩
  exact ⟨n, by simpa using hplain, by simpa using hnul, by simp [hn]⟩

/-- What lies directly below a root, and is no link, is clear when it is no file. -/
theorem isClear_below_iff {s : Segment} {n : Name} {name : String} (hbased : Disk.Based d root home)
    (hspelled : Spelled [s] [n]) (hlink : ∀ target, d.entryAt (n :: home) ≠ some (.link target)) :
    LegacyPath.IsClear d ⟨root.below [s], name⟩ ↔
      ∀ bytes, d.entryAt (n :: home) ≠ some (.file bytes) := by
  have hfind := hbased.find_child hspelled hlink
  rcases he : d.entryAt (n :: home) with - | e <;> rw [he] at hfind <;> dsimp only at hfind
  · refine ⟨by simp, fun _ => ⟨by simp [hfind], fun fault hfault => ?_⟩⟩
    exact (Except.error.inj (hfind.symm.trans hfault)).symm
  · constructor
    · rintro hclear bytes ⟨⟩
      exact hclear.not_file _ _ hfind
    · intro hfile
      refine ⟨fun loc bytes hfound => ?_, by simp [hfind]⟩
      obtain ⟨-, rfl⟩ : _ ∧ e = .file bytes := by simpa [hfind] using hfound
      exact hfile bytes rfl

/-- The guard lets a run pass that goes into an empty directory. -/
theorem guardLegacy_clean (hroot : d.find root = .ok (home, .directory))
    (hempty : d.children home = []) : guardLegacy d .standard root = .ok () := by
  refine guardLegacy_own_iff.2 fun s hs => ?_
  obtain ⟨n, hspelled⟩ := exists_spelled_legacySegments hs
  have hnone := Disk.entryAt_eq_none_of_children hempty n
  exact (isClear_below_iff (Disk.based_of_find hroot) hspelled (by simp [hnone])).2 (by simp [hnone])

/-! ### Clean outputs -/

/-- What is planned for an empty directory is written there if the names that documents get with
another extension can be names, and else the run fails at one of them. -/
theorem compile_clean_cases (hroot : d.find root = .ok (home, .directory))
    (hempty : d.children home = []) {input : Path} {outputs : List Output}
    (hplan : (plan d .standard input root).result = .ok outputs) :
    ∃ ds, (loadRules d (input / rulesDir)).result = .ok ds ∧
      ((∀ doc ∈ ds, doc.excerpt? .cursor ≠ none →
          doc.filename ≠ "..md" ∧ doc.filename.utf8ByteSize ≤ 254) ∧
        (∃ paths, (compile d .standard input root).result = .ok paths) ∨
      ∃ doc ∈ ds, doc.excerpt? .cursor ≠ none ∧
        ¬ (doc.filename ≠ "..md" ∧ doc.filename.utf8ByteSize ≤ 254) ∧
        (compile d .standard input root).result =
          .error (refusal root [".cursor".toList, "rules".toList, doc.cursorName])) := by
  obtain ⟨ds, patterns, hds, -, rfl⟩ := plan_standard_eq_ok_iff.1 hplan
  have hnamed : AreNamed ds := areNamed_of_loadRules hds
  have hgrown : Grown d home ownLayout d :=
    .refl isLayout_ownLayout (Disk.entryAt_of_find_eq hroot) hempty
  have hpaths := map_path_plannedFiles (fun g => isPlain_placeTrail) hnamed patterns root
  have hfiled : ∀ trail ∈ plannedTrails ownGenerators ds patterns, Filed ownLayout trail :=
    fun trail htrail => filed_plannedTrails hnamed htrail
  refine ⟨ds, hds, ?_⟩
  rw [(compile_eq_writeAll hplan (guardLegacy_clean hroot hempty)).1]
  rcases writeAll_filed hgrown hroot hpaths hfiled with ⟨hall, hok⟩ | ⟨trail, htrail, hno, herr⟩
  · exact .inl ⟨(endsInName_plannedTrails_iff hnamed patterns).1 hall, hok⟩
  · obtain ⟨doc, hdoc, hkept, rfl, hname⟩ := exists_of_not_endsInName hnamed htrail hno
    exact .inr ⟨doc, hdoc, hkept, hname, herr⟩

/-- What is planned for an empty directory is written there, unless a document with
something left for the assistant whose files are reformatted has a name of more than 254
bytes.  Then the name has 255 bytes, and the run fails for want of a name for the file of such a
document.  This says nothing of runs with a document `..md`. -/
theorem compile_clean (hroot : d.find root = .ok (home, .directory))
    (hempty : d.children home = []) {input : Path} {outputs : List Output}
    (hplan : (plan d .standard input root).result = .ok outputs) :
    ∃ ds, (loadRules d (input / rulesDir)).result = .ok ds ∧
      (¬ Keeps ds .cursor "..md" →
        ((∃ paths, (compile d .standard input root).result = .ok paths) ↔
          ∀ doc ∈ ds, doc.excerpt? .cursor ≠ none → doc.filename.utf8ByteSize ≤ 254) ∧
        ∀ f, (compile d .standard input root).result = .error f →
          ∃ doc ∈ ds, doc.excerpt? .cursor ≠ none ∧ ∃ stem, doc.filename = stem ++ ".md" ∧
            doc.filename.utf8ByteSize = 255 ∧
            f = .ofFault
              (.writeGenerated (root / (".cursor/rules" : Path) / Path.ofString (stem ++ ".mdc")))
              .nameTooLong) := by
  obtain ⟨ds, hds, hcases⟩ := compile_clean_cases hroot hempty hplan
  refine ⟨ds, hds, fun hdots => ?_⟩
  rcases hcases with ⟨hall, paths, hok⟩ | ⟨doc, hdoc, hkept, hname, herr⟩
  · refine ⟨iff_of_true ⟨paths, hok⟩ fun doc hdoc hkept => (hall doc hdoc hkept).2, ?_⟩
    intro f hf
    cases hok.symm.trans hf
  · have hdots' : doc.filename ≠ "..md" := fun heq => hdots ⟨doc, hdoc, heq, hkept⟩
    have hlong : 254 < doc.filename.utf8ByteSize := Nat.lt_of_not_le fun hle => hname ⟨hdots', hle⟩
    refine ⟨iff_of_false ?_ fun hall => ?_, fun f hf => ?_⟩
    · rintro ⟨paths, hok⟩
      cases hok.symm.trans herr
    · exact absurd (hall doc hdoc hkept) (Nat.not_le_of_lt hlong)
    · obtain ⟨stem, hstem, hsize, hrefusal⟩ :=
        refusal_of_long (areNamed_of_loadRules hds) hdoc hlong root
      exact ⟨doc, hdoc, hkept, stem, hstem, hsize,
        (Except.error.inj (hf.symm.trans herr)).trans hrefusal⟩

/-- The disk with one document, and an empty directory for the output. -/
def oneRuleClean : Disk := (oneRule.makeDirs "out").1

theorem compile_clean_oneRule :
    oneRuleClean.find "out" = .ok ([outName], .directory) ∧
      oneRuleClean.children [outName] = [] ∧
      (∃ outputs, (plan oneRuleClean .standard "in" "out").result = .ok outputs) ∧
      (loadRules oneRuleClean ("in" / rulesDir)).result = .ok [⟨"a.md", "text"⟩] ∧
      ¬ Keeps [⟨"a.md", "text"⟩] .cursor "..md" ∧
      ∃ paths, (compile oneRuleClean .standard "in" "out").result = .ok paths := by
  have hok : (plan oneRuleClean .standard "in" "out").result.map (fun _ => ()) = .ok () := by
    decide +kernel
  have hroot : oneRuleClean.find "out" = .ok ([outName], .directory) := by decide +kernel
  have hempty : oneRuleClean.children [outName] = [] := by decide +kernel
  have hload : (loadRules oneRuleClean ("in" / rulesDir)).result = .ok [⟨"a.md", "text"⟩] := by
    decide +kernel
  have hdots : ¬ Keeps [⟨"a.md", "text"⟩] .cursor "..md" := by simp [Keeps]
  obtain ⟨outputs, hplan, -⟩ := map_eq_ok_iff.1 hok
  obtain ⟨ds, hds, hclean⟩ := compile_clean hroot hempty hplan
  obtain rfl : [⟨"a.md", "text"⟩] = ds := Except.ok.inj (hload.symm.trans hds)
  obtain ⟨hwritten, -⟩ := hclean hdots
  have hshort : ∀ doc ∈ [Document.mk "a.md" "text"],
      doc.excerpt? .cursor ≠ none → doc.filename.utf8ByteSize ≤ 254 := by decide +kernel
  exact ⟨hroot, hempty, ⟨outputs, hplan⟩, hload, hdots, hwritten.2 hshort⟩

/-! ### The longest names -/

/-- A name for a document, as long as a name can be. -/
def longName : Name := ⟨List.replicate 252 0x61 ++ [0x2e, 0x6d, 0x64], by decide +kernel⟩

/-- Its text. -/
def longText : String := String.ofList (List.replicate 252 'a' ++ ['.', 'm', 'd'])

/-- The names of the input root and of its rules directory. -/
def inName : Name := ⟨"in".toUTF8.data.toList, by decide +kernel⟩

@[inherit_doc inName]
def rulesName : Name := ⟨"rules".toUTF8.data.toList, by decide +kernel⟩

/-- A disk with one document of this name, and an empty directory for the output. -/
def longNamed : Disk :=
  (((Disk.empty.put outName [] .directory).put inName [] .directory).put rulesName [inName]
    .directory).put longName [rulesName, inName] (.file "text".toUTF8)

theorem text?_longName : longName.text? = some longText := by
  have hbytes : utf8 (List.replicate 252 'a' ++ ['.', 'm', 'd']) = longName.bytes := by
    decide +kernel
  exact Name.text?_eq_some_iff.2 ((congrArg utf8 String.toList_ofList).trans hbytes)

theorem loadRules_longNamed :
    (loadRules longNamed ("in" / rulesDir)).result = .ok [⟨longText, "text"⟩] := by
  have hfind : longNamed.find ("in" / rulesDir) = .ok ([rulesName, inName], .directory) := by
    decide +kernel
  have hchildren : longNamed.children [rulesName, inName] = [(longName, .file "text".toUTF8)] := by
    decide +kernel
  have hmd : ".md".toList.isSuffixOf longText.toList = true :=
    List.isSuffixOf_iff_suffix.2 ⟨List.replicate 252 'a', String.toList_ofList.symm⟩
  have htext : Disk.Entry.text (.file "text".toUTF8) = .ok "text" := by decide +kernel
  have hresolve : resolveRule longNamed ("in" / rulesDir) [rulesName, inName] longName
      (.file "text".toUTF8) = .ok (.file "text".toUTF8) := rfl
  have hinspect : inspectRule longNamed ("in" / rulesDir) [rulesName, inName] longName
      (.file "text".toUTF8) = .ok (.document ⟨longText, "text"⟩) := by
    rw [inspectRule, hresolve, ok_bind, text?_longName]
    dsimp only
    rw [if_pos hmd, htext]
    rfl
  rw [loadRules, hfind]
  dsimp only
  rw [result_warnIfNone, hchildren, gatherRules, hinspect]
  rfl

/-- Its rules can be planned for the empty directory, but not compiled into it. -/
theorem compile_fails_longNamed :
    longNamed.find "out" = .ok ([outName], .directory) ∧ longNamed.children [outName] = [] ∧
      (∃ outputs, (plan longNamed .standard "in" "out").result = .ok outputs) ∧
      ∀ paths, (compile longNamed .standard "in" "out").result ≠ .ok paths := by
  have hroot : longNamed.find "out" = .ok ([outName], .directory) := by decide +kernel
  have hempty : longNamed.children [outName] = [] := by decide +kernel
  have hignore : readIgnore longNamed ("in" / ignoreFile) = .ok none := by decide +kernel
  obtain ⟨outputs, hplan⟩ : ∃ outputs, (plan longNamed .standard "in" "out").result = .ok outputs :=
    ⟨_, plan_standard_eq_ok_iff.2 ⟨_, _, loadRules_longNamed, hignore, rfl⟩⟩
  refine ⟨hroot, hempty, ⟨outputs, hplan⟩, fun paths hpaths => ?_⟩
  obtain ⟨ds, hds, hcases⟩ := compile_clean_cases hroot hempty hplan
  obtain rfl : [⟨longText, "text"⟩] = ds := Except.ok.inj (loadRules_longNamed.symm.trans hds)
  rcases hcases with ⟨hall, -⟩ | ⟨_, _, _, _, herr⟩
  · have hsize : longText.utf8ByteSize = 255 :=
      calc longText.utf8ByteSize
        _ = (utf8 longText.toList).length := (length_utf8 longText).symm
        _ = longName.bytes.length :=
          congrArg List.length (Name.text?_eq_some_iff.1 text?_longName)
        _ = 255 := by decide +kernel
    have hkept : Document.excerpt? ⟨longText, "text"⟩ .cursor ≠ none := by decide +kernel
    have hlength := (hall _ (List.mem_singleton.2 rfl) hkept).2
    rw [hsize] at hlength
    exact absurd hlength (by decide)
  · cases hpaths.symm.trans herr

end Rulebook
