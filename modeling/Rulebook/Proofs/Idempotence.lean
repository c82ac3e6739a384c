/-
Rulebook/Proofs/Idempotence.lean

Compiling again.  A run into an existing directory reads and writes one disk, but what it
leaves is nothing that the next run would take notice of: all that is new has names that are
text, no directory that is new has the name of the ignore patterns, and no file stands where a
rule document or a legacy file could.  So the next run loads the same documents
(`loadRules_again`), reads the same patterns (`readIgnore_again`) and passes the guard
(`guardLegacy_again`); and the files that it plans are there already, each as the last of
those at its place has left it.

Main result `compile_again`: the second run is the first one over again, with the same log,
the same paths and the same disk.
-/
import Rulebook.Proofs.Reloading
import Rulebook.Proofs.Sources

namespace Rulebook

open Disk (Based MadeFor Name Retains)

variable {d d' : Disk} {input root : Path} {home top rest loc : Location} {n : Name} {e : Entry}
variable {ds : List Document} {patterns : Option String} {file : OutputFile} {way : List Name}

/-! ### What is new -/

theorem mem_of_reverse_append (hne : way ≠ []) (hloc : n :: rest = way.reverse ++ home) :
    n ∈ way := by
  obtain ⟨init, m, rfl⟩ := (List.eq_nil_or_concat' way).resolve_left hne
  rw [List.reverse_concat, List.cons_append] at hloc
  simp [(List.cons.inj hloc).1]

/-- The new directories are those of the layout. -/
theorem exists_way_of_made (hlinks : d'.NoLinks) (hds : AreNamed ds)
    (hroot : d.find root = .ok (home, .directory)) (hretains : Retains d d')
    (hfile : file ∈ ownFiles ds patterns root)
    (hnone : d.entryAt loc = none) (hmade : MadeFor d file.parents d' loc) :
    ∃ way ∈ ownLayout, way ≠ [] ∧ loc = way.reverse ++ home := by
  obtain ⟨trail, htrail⟩ := exists_onTrail hds hfile
  obtain ⟨init, last, way, rfl, hspelled, hway, hlast, -⟩ := filed_plannedTrails hds htrail.mem
  rw [OutputFile.parents, htrail.path, Path.parent?_below root hspelled.plain hlast] at hmade
  obtain ⟨names, hne, hnames, hloc⟩ := hmade.exists_names hlinks hroot hretains hnone hspelled
  exact ⟨names, isLayout_ownLayout.of_prefix hnames hway, hne, hloc⟩

/-- The names of new directories are text, and are not that of the patterns. -/
theorem name_of_made (hlinks : d'.NoLinks) (hds : AreNamed ds)
    (hroot : d.find root = .ok (home, .directory)) (hretains : Retains d d')
    (hfile : file ∈ ownFiles ds patterns root)
    (hnone : d.entryAt (n :: rest) = none) (hmade : MadeFor d file.parents d' (n :: rest)) :
    n.text?.isSome ∧ n ≠ ignoreName := by
  have hall : ∀ way ∈ ownLayout, ∀ n ∈ way, n.text?.isSome ∧ n ≠ ignoreName := by decide +kernel
  obtain ⟨way, hway, hne, hloc⟩ := exists_way_of_made hlinks hds hroot hretains hfile hnone hmade
  exact hall way hway n (mem_of_reverse_append hne hloc)

/-! ### Reading again -/

section Again

variable (hlinks : d.NoLinks) (hds : AreNamed ds) (hroot : d.find root = .ok (home, .directory))
variable (hwrote : WroteAll d (ownFiles ds patterns root) d')

include hlinks hds hroot hwrote

/-- What loading takes notice of in the rules directory is as it was. -/
theorem noticed_again (hnotice : isNoticed (n, e) = true) :
    d'.entryAt (n :: rulesName :: top) = some e ↔ d.entryAt (n :: rulesName :: top) = some e := by
  have hlinks' : d'.NoLinks := hwrote.noLinks hlinks
  cases hwrote.fate (n :: rulesName :: top) with
  | kept hkept => rw [hkept]
  | made hnone hdir hfile hmade =>
    -- a directory is noticed only if its name is no text
    obtain ⟨s, hs⟩ := Option.isSome_iff_exists.1
      (name_of_made hlinks' hds hroot hwrote.retains hfile hnone hmade).1
    obtain ⟨⟨bytes, rfl⟩, -⟩ := endsInMd_of_isNoticed hs hnotice
    simp [hnone, hdir]
  | written _ hfile hreach =>
    obtain ⟨s, hs⟩ := exists_text_of_place hlinks' hds hfile hreach
    exact absurd (endsInMd_of_isNoticed hs hnotice).2
      (not_endsInMd_of_place hlinks' hds hfile hreach)

theorem loadRules_again {rules : Location} (hrules : d.find (input / rulesDir) = .ok (rules, .directory)) :
    loadRules d' (input / rulesDir) = loadRules d (input / rulesDir) := by
  obtain ⟨top, -, rfl⟩ := exists_source_place hlinks spelled_rules (div_rulesDir input ▸ hrules)
  exact loadRules_eq hlinks (hwrote.noLinks hlinks) hrules (hwrote.retains.find_directory hrules)
    fun n e hnotice => noticed_again hlinks hds hroot hwrote hnotice

theorem readIgnore_again (hinput : Based d input top)
    (hpatterns : readIgnore d (input / ignoreFile) = .ok patterns) :
    readIgnore d' (input / ignoreFile) = .ok patterns := by
  have hlinks' : d'.NoLinks := hwrote.noLinks hlinks
  have hfind := hinput.find_child spelled_ignore (hlinks _)
  have hfind' := (hinput.mono hwrote.retains).find_child spelled_ignore (hlinks' _)
  suffices hsame : d'.entryAt (ignoreName :: top) = d.entryAt (ignoreName :: top) by
    rw [hsame, ← hfind, ← div_ignoreFile] at hfind'
    rw [← hpatterns, readIgnore, readIgnore, Disk.readText, Disk.readText, hfind']
  cases hwrote.fate (ignoreName :: top) with
  | kept hkept => exact hkept
  | made hnone _ hfile hmade =>
    exact absurd rfl (name_of_made hlinks' hds hroot hwrote.retains hfile hnone hmade).2
  | @written file _ hfile hreach =>
    -- the patterns were read there, and have been written there again
    obtain rfl := patterns_of_place hlinks' hds hfile hreach
    obtain ⟨loc, hread⟩ := readIgnore_eq_some_iff.1 hpatterns
    obtain ⟨top', hinput', rfl⟩ := exists_source_place hlinks spelled_ignore (div_ignoreFile input ▸ hread)
    obtain rfl := hinput.unique hinput'
    have hthen : d.entryAt (ignoreName :: top) = _ :=
      Disk.entryAt_of_reach (Disk.find_eq_ok_iff.1 hread)
    have hnow : d'.entryAt (ignoreName :: top) = _ := Disk.entryAt_of_reach hreach
    rw [hthen, hnow]

theorem guardLegacy_again (hguard : guardLegacy d .standard root = .ok ()) :
    guardLegacy d' .standard root = .ok () := by
  have hlinks' : d'.NoLinks := hwrote.noLinks hlinks
  have hbased : Based d root home := Disk.based_of_find hroot
  have hbased' : Based d' root home := hbased.mono hwrote.retains
  refine guardLegacy_own_iff.2 fun s hs => ?_
  obtain ⟨n, hspelled⟩ := exists_spelled_legacySegments hs
  have hclear := (isClear_below_iff hbased hspelled (hlinks _)).1 (guardLegacy_own_iff.1 hguard s hs)
  refine (isClear_below_iff hbased' hspelled (hlinks' _)).2 fun bytes hfile => ?_
  cases hwrote.fate (n :: home) with
  | kept hkept => exact hclear bytes (hkept ▸ hfile)
  | made _ hdir => simp [hdir] at hfile
  | written _ hmem hreach =>
    -- no planned file has the path of a legacy file
    obtain ⟨trail, way, home', htrail, hway, hbased'', hloc⟩ :=
      exists_place hlinks' hds hmem hreach
    obtain rfl := hbased'.unique hbased''
    obtain rfl : way = [n] := by
      have := List.append_cancel_right (show [n] ++ home = way.reverse ++ home from hloc)
      simpa using (congrArg List.reverse this).symm
    obtain rfl := hway.unique hspelled
    have hapart : ∀ s ∈ legacySegments, [s] ∉ fixedTrails := by decide
    rcases mem_plannedTrails htrail.mem with hfixed | ⟨x, -, heq⟩ | ⟨x, -, heq⟩
    · exact hapart s hs hfixed
    · simp at heq
    · simp at heq

end Again

/-! ### Running again -/

/-- Compiling into an existing directory, and again after that, is compiling once: what the
first run has left does not enter the plan of the second, nor stop it, nor changes. -/
theorem compile_again {paths : List Path} (hlinks : d.NoLinks)
    (hroot : d.find root = .ok (home, .directory))
    (hok : (compile d .standard input root).result = .ok paths) :
    plan (compile d .standard input root).disk .standard input root =
        plan d .standard input root ∧
      guardLegacy (compile d .standard input root).disk .standard root = .ok () ∧
      compile (compile d .standard input root).disk .standard input root =
        compile d .standard input root := by
  obtain ⟨outputs, d', hplan, hguard, hwrote, hfirst⟩ := compile_eq_complete hok
  obtain ⟨ds, patterns, hload, hpatterns, rfl⟩ := plan_standard_eq_ok_iff.1 hplan
  have hds : AreNamed ds := areNamed_of_loadRules hload
  obtain ⟨rules, hrules, -⟩ := exists_home_of_loadRules hload
  obtain ⟨top, hinput, -⟩ := exists_source_place hlinks spelled_rules (div_rulesDir input ▸ hrules)
  have hend : (compile d .standard input root).disk = d' := by
    rw [hfirst]
    rfl
  have hplan' : plan d' .standard input root = plan d .standard input root := by
    rw [plan, plan, loadRules_again hlinks hds hroot hwrote hrules, hpatterns,
      readIgnore_again hlinks hds hroot hwrote hinput hpatterns]
  have hguard' : guardLegacy d' .standard root = .ok () :=
    guardLegacy_again hlinks hds hroot hwrote hguard
  refine ⟨hend ▸ hplan', hend ▸ hguard', ?_⟩
  rw [hend, compile_eq (hplan' ▸ hplan) hguard', hplan', hwrote.writeAll_again, hfirst]

theorem compile_again_sharedRoot : sharedRoot.NoLinks ∧
    sharedRoot.find "." = .ok ([], .directory) ∧
    (∃ paths, (compile sharedRoot .standard ".cursor" ".").result = .ok paths) ∧
      plan (compile sharedRoot .standard ".cursor" ".").disk .standard ".cursor" "." =
        plan sharedRoot .standard ".cursor" "." ∧
      guardLegacy (compile sharedRoot .standard ".cursor" ".").disk .standard "." = .ok () ∧
      compile (compile sharedRoot .standard ".cursor" ".").disk .standard ".cursor" "." =
        compile sharedRoot .standard ".cursor" "." := by
  have hlinks : sharedRoot.NoLinks := noLinks_writeAll Disk.noLinks_empty _
  have hroot : sharedRoot.find "." = .ok ([], .directory) := by decide +kernel
  have hok : (compile sharedRoot .standard ".cursor" ".").result.map (fun _ => ()) = .ok () := by
    decide +kernel
  obtain ⟨paths, hpaths, -⟩ := map_eq_ok_iff.1 hok
  exact ⟨hlinks, hroot, ⟨paths, hpaths⟩, compile_again hlinks hroot hpaths⟩

end Rulebook
