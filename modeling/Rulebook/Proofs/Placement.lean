/-
Rulebook/Proofs/Placement.lean

Where the files of a plan come to stand, on disks without links.  A file on one of the
trails stands straight below the directory that the output root leads to, under names
that spell the trail (`exists_place`).  So two planned files stand at one place only
if they have one path (`path_eq_of_place_eq`), wherever the output root is.

The places tell apart what a run writes from what it reads.  No planned file stands in a
directory `rules` under a name that ends in `.md` (`not_endsInMd_of_place`), and the only one
to stand under the name `ignore` is an ignore file, which holds the patterns that were read
(`patterns_of_place`).
-/
import Rulebook.Proofs.CleanOutput
import Rulebook.Proofs.Disk.Straight

namespace Rulebook

open Disk (Based Name Spelled)
open Rulebook.Path (Segment)
open Text

variable {d : Disk} {why : Disk.Purpose} {root : Path} {home top loc : Location} {n : Name}
variable {ds : List Document} {patterns : Option String} {trail other : List Segment}
variable {file later : OutputFile} {bytes bytes' : ByteArray}

/-! ### Planned files and their trails -/

/-- An ignore file holds the patterns. -/
theorem patterns_of_ignore {g : Generator} (h : (g.output ds patterns root).ignore = some file) :
    patterns = some file.content := by
  obtain ⟨text, rfl, htext⟩ := Option.bind_eq_some_iff.1 h
  rw [Generator.ignore?] at htext
  split at htext
  · rw [← Option.some.inj htext]
  · cases htext

/-- The files that the assistants' own generators make. -/
def ownFiles (ds : List Document) (patterns : Option String) (root : Path) : List OutputFile :=
  plannedFiles (ownGenerators.map (·.output ds patterns root))

/-- Whether a file is planned on a trail, as a rule file or as an ignore file with the patterns. -/
structure OnTrail (ds : List Document) (patterns : Option String) (root : Path)
    (file : OutputFile) (trail : List Segment) : Prop where
  mem : trail ∈ plannedTrails ownGenerators ds patterns
  path : file.path = root.below trail
  content : trail ∈ ownGenerators.flatMap (·.trails ds) ∨ patterns = some file.content

theorem exists_onTrail (hds : AreNamed ds) (h : file ∈ ownFiles ds patterns root) :
    ∃ trail, OnTrail ds patterns root file trail := by
  rcases List.mem_append.1 h with h | h
  · obtain ⟨output, houtput, hfile⟩ := List.mem_flatMap.1 h
    obtain ⟨g, hg, rfl⟩ := List.mem_map.1 houtput
    have hpath := List.mem_map_of_mem (f := OutputFile.path) hfile
    rw [Generator.output, Generator.map_path_files (isPlain_placeTrail hg) hds root] at hpath
    obtain ⟨trail, htrail, heq⟩ := List.mem_map.1 hpath
    have hrule : trail ∈ ownGenerators.flatMap (·.trails ds) := List.mem_flatMap.2 ⟨g, hg, htrail⟩
    exact ⟨trail, List.mem_append_left _ hrule, heq.symm, .inl hrule⟩
  · obtain ⟨output, houtput, hignore⟩ := List.mem_filterMap.1 h
    obtain ⟨g, hg, rfl⟩ := List.mem_map.1 houtput
    have hpath := g.map_path_ignore? patterns root
    rw [show patterns.bind (g.ignore? · root) = some file from hignore, Option.map_some] at hpath
    obtain ⟨trail, htrail, heq⟩ := Option.map_eq_some_iff.1 hpath.symm
    exact ⟨trail, List.mem_append_right _ (List.mem_filterMap.2 ⟨g, hg, htrail⟩), heq.symm,
      .inr (patterns_of_ignore hignore)⟩

/-! ### Places -/

/-- A planned file stands straight below the directory of the output root, under the names that
its trail is spelled by. -/
theorem exists_place (hlinks : d.NoLinks) (hds : AreNamed ds) (hfile : file ∈ ownFiles ds patterns root)
    (h : d.reach why file.path = .ok (.taken loc (.file bytes))) :
    ∃ trail way home, OnTrail ds patterns root file trail ∧ Spelled trail way ∧
      Based d root home ∧ loc = way.reverse ++ home := by
  obtain ⟨trail, htrail⟩ := exists_onTrail hds hfile
  rw [htrail.path] at h
  obtain ⟨init, last, way, rfl, hspelled, -, hlast, hnul, -⟩ := filed_plannedTrails hds htrail.mem
  obtain ⟨n, hall⟩ := Disk.exists_spelled_of_reach_file hspelled hlast hnul h
  obtain ⟨home, hbased, hloc⟩ := Disk.exists_home_of_reach hlinks hall (by simp) h
  exact ⟨_, way ++ [n], home, htrail, hall, hbased, hloc⟩

/-- The name of a planned file is that of the last segment of its trail. -/
theorem exists_last_of_place (hlinks : d.NoLinks) (hds : AreNamed ds)
    (hfile : file ∈ ownFiles ds patterns root)
    (h : d.reach why file.path = .ok (.taken (n :: loc) (.file bytes))) :
    ∃ init last way home, OnTrail ds patterns root file (init ++ [last]) ∧ n.bytes = utf8 last ∧
      Spelled init way ∧ loc = way.reverse ++ home := by
  obtain ⟨trail, way, home, htrail, hway, -, hloc⟩ := exists_place hlinks hds hfile h
  obtain ⟨init, last, names, rfl, hbytes, hinit, hdir⟩ :=
    hway.innermost (isPlain_plannedTrails hds htrail.mem).1 hloc
  exact ⟨init, last, names, home, htrail, hbytes, hinit, hdir⟩

/-- Planned files that stand at one place have one path. -/
theorem path_eq_of_place_eq (hlinks : d.NoLinks) (hds : AreNamed ds)
    (hfile : file ∈ ownFiles ds patterns root) (hlater : later ∈ ownFiles ds patterns root)
    (h : d.reach why file.path = .ok (.taken loc (.file bytes)))
    (h' : d.reach why later.path = .ok (.taken loc (.file bytes'))) : file.path = later.path := by
  obtain ⟨trail, way, home, htrail, hway, hbased, rfl⟩ := exists_place hlinks hds hfile h
  obtain ⟨other, way', home', hother, hway', hbased', hloc⟩ := exists_place hlinks hds hlater h'
  obtain rfl := hbased.unique hbased'
  obtain rfl := List.reverse_injective (List.append_cancel_right hloc)
  rw [htrail.path, hother.path, hway.unique hway']

/-- The name of a planned file is text. -/
theorem exists_text_of_place (hlinks : d.NoLinks) (hds : AreNamed ds)
    (hfile : file ∈ ownFiles ds patterns root)
    (h : d.reach why file.path = .ok (.taken (n :: loc) (.file bytes))) : ∃ s, n.text? = some s := by
  obtain ⟨init, last, -, -, -, hbytes, -⟩ := exists_last_of_place hlinks hds hfile h
  exact ⟨String.ofList last, Name.text?_eq_some_iff.2 (by rw [String.toList_ofList, hbytes])⟩

/-! ### Rule documents -/

theorem not_suffix_utf8_reformatted (stem : Segment) :
    ¬ utf8 ".md".toList <:+ utf8 (Path.reformatted stem) := by
  rw [Path.reformatted]
  split
  · decide
  · rw [utf8_append]
    intro h
    have hmdc : utf8 ".md".toList <:+ utf8 ['.', 'm', 'd', 'c'] :=
      List.suffix_of_suffix_length_le h (List.suffix_append _ _) (by decide)
    exact absurd hmdc (by decide)

/-- Planned files whose names end in `.md` lie in directories other than `rules`. -/
theorem outside_rules (hds : AreNamed ds) {init : List Segment} {last : Segment}
    (h : init ++ [last] ∈ plannedTrails ownGenerators ds patterns) :
    init ≠ [] ∧ init.getLast? ≠ some "rules".toList ∨ ¬ utf8 ".md".toList <:+ utf8 last := by
  have hfixed : ∀ trail ∈ fixedTrails,
      trail.dropLast ≠ [] ∧ trail.dropLast.getLast? ≠ some "rules".toList ∨
        ¬ utf8 ".md".toList <:+ utf8 (trail.getLast?.getD []) := by
    decide
  rcases mem_plannedTrails h with hmem | ⟨x, -, heq⟩ | ⟨x, hx, heq⟩
  · simpa using hfixed _ hmem
  · obtain ⟨rfl, -⟩ := List.append_inj' (heq.trans (List.singleton_append).symm) rfl
    exact .inl (by decide)
  · obtain ⟨-, hlast⟩ := List.append_inj' (heq.trans (List.append_assoc [_] [_] [_]).symm) rfl
    obtain ⟨stem, -, hname, -⟩ := hds.exists_cursorName_eq (mem_excerptsFor.1 hx).1
    right
    rw [List.singleton_inj.1 hlast, hname]
    exact not_suffix_utf8_reformatted stem

/-- No planned file is where a rule document can be. -/
theorem not_endsInMd_of_place (hlinks : d.NoLinks) (hds : AreNamed ds)
    (hfile : file ∈ ownFiles ds patterns root)
    (h : d.reach why file.path = .ok (.taken (n :: rulesName :: top) (.file bytes))) :
    ¬ n.EndsInMd := by
  obtain ⟨init, last, way, home, htrail, hbytes, hinit, hdir⟩ :=
    exists_last_of_place hlinks hds hfile h
  rw [Disk.Name.EndsInMd, hbytes]
  rcases outside_rules hds htrail.mem with ⟨hne, hrules⟩ | hmd
  · obtain ⟨init, dir, -, rfl, hbytes', -⟩ := hinit.innermost hne hdir
    have hdir : dir = "rules".toList := utf8_inj.1 (hbytes'.symm.trans (by decide +kernel))
    simp [hdir] at hrules
  · exact hmd

/-! ### The ignore patterns -/

/-- The name of the file with the ignore patterns. -/
def ignoreName : Name := ⟨"ignore".toUTF8.data.toList, by decide +kernel⟩

theorem getLast?_trails_ne (hds : AreNamed ds)
    (h : trail ∈ ownGenerators.flatMap (·.trails ds)) : trail.getLast? ≠ some "ignore".toList := by
  rcases mem_flatMap_trails h with rfl | ⟨x, hx, rfl⟩ | ⟨x, hx, rfl⟩
  · decide
  · obtain ⟨stem, hstem⟩ := hds.md x.1 (mem_excerptsFor.1 hx).1
    intro heq
    have hlast := congrArg List.getLast? (hstem.symm.trans (Option.some.inj heq))
    simp at hlast
  · obtain ⟨stem, -, hname, -⟩ := hds.exists_cursorName_eq (mem_excerptsFor.1 hx).1
    intro heq
    have hlast := congrArg List.getLast? (hname.symm.trans (Option.some.inj heq))
    rw [Path.reformatted] at hlast
    split at hlast <;> simp at hlast

/-- A planned file with the name of the ignore patterns holds the patterns. -/
theorem patterns_of_place (hlinks : d.NoLinks) (hds : AreNamed ds)
    (hfile : file ∈ ownFiles ds patterns root)
    (h : d.reach why file.path = .ok (.taken (ignoreName :: top) (.file bytes))) :
    patterns = some file.content := by
  obtain ⟨init, last, -, -, htrail, hbytes, -⟩ := exists_last_of_place hlinks hds hfile h
  have hlast : last = "ignore".toList := utf8_inj.1 (hbytes.symm.trans (by decide +kernel))
  rcases htrail.content with hrule | hpatterns
  · exact absurd (by rw [List.getLast?_concat, hlast]) (getLast?_trails_ne hds hrule)
  · exact hpatterns

end Rulebook
