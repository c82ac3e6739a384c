/-
Rulebook/Proofs/Sources.lean

What compiling reads is left as it was.  Without links, the rules directory and the file of
the ignore patterns stand directly in the directory of the input root (`exists_source_place`),
and by the names of their places no planned file comes to stand where a rule document is, nor
where the patterns are unless it holds just these.

Main result `compile_keeps_sources`: whatever the input and the output root are, and however
the run ends, rule documents and ignore patterns are as they were.
-/
import Rulebook.Proofs.FailedWrite
import Rulebook.Proofs.Placement

namespace Rulebook

open Disk (Based Name Spelled)
open Rulebook.Path (Segment)
open Text

variable {d d' : Disk} {input root : Path} {loc home : Location} {n : Name} {e : Entry}

/-! ### Reading patterns -/

theorem Disk.readText_eq_ok_iff {p : Path} {text : String} :
    d.readText p = .ok text ↔ ∃ loc, d.find p = .ok (loc, .file text.toUTF8) := by
  rw [readText, bind_eq_ok_iff]
  constructor
  · rintro ⟨⟨loc, - | bytes | target⟩, hfind, htext⟩
    case file =>
      refine ⟨loc, ?_⟩
      rcases hutf : String.fromUTF8? bytes with - | text'
      · simp [Disk.Entry.text, hutf] at htext
      · obtain rfl : text' = text := by simpa [Disk.Entry.text, hutf] using htext
        rw [hfind, fromUTF8?_eq_some_iff.1 hutf]
    all_goals cases htext
  · rintro ⟨loc, hfind⟩
    refine ⟨_, hfind, ?_⟩
    simp only [Disk.Entry.text, fromUTF8?_eq_some_iff.2 rfl]

/-- Patterns are the text of the file that the path leads to. -/
theorem readIgnore_eq_some_iff {p : Path} {text : String} :
    readIgnore d p = .ok (some text) ↔ ∃ loc, d.find p = .ok (loc, .file text.toUTF8) := by
  rw [← Disk.readText_eq_ok_iff, readIgnore]
  rcases d.readText p with fault | text'
  · cases fault <;> simp
  · simp

/-! ### Where the sources are -/

theorem div_rulesDir (input : Path) : input / rulesDir = input.below ["rules".toList] :=
  Path.div_eq_below input rulesDir

theorem div_ignoreFile (input : Path) : input / ignoreFile = input.below ["ignore".toList] :=
  Path.div_eq_below input ignoreFile

theorem spelled_rules : Spelled ["rules".toList] [rulesName] :=
  ⟨by decide, by decide, by decide +kernel⟩

theorem spelled_ignore : Spelled ["ignore".toList] [ignoreName] :=
  ⟨by decide, by decide, by decide +kernel⟩

/-- Without links, what is found directly below a root stands directly in its directory. -/
theorem exists_source_place {s : Segment} (hlinks : d.NoLinks) (hspelled : Spelled [s] [n])
    (h : d.find (input.below [s]) = .ok (loc, e)) : ∃ top, Based d input top ∧ loc = n :: top := by
  obtain ⟨top, hbased, hloc⟩ :=
    Disk.exists_home_of_reach hlinks hspelled (by simp) (Disk.find_eq_ok_iff.1 h)
  exact ⟨top, hbased, hloc⟩

/-! ### Sources kept -/

/-- Whether what compiling reads is the same on two disks. -/
structure SourcesKept (d d' : Disk) (input : Path) : Prop where
  /-- The rules directory is where it was, and of its files those whose names end in `.md` are
  as they were. -/
  rules : ∀ home, d.find (input / rulesDir) = .ok (home, .directory) →
    d'.find (input / rulesDir) = .ok (home, .directory) ∧
      ∀ n bytes, n.EndsInMd → d.entryAt (n :: home) = some (.file bytes) →
        d'.entryAt (n :: home) = some (.file bytes)
  /-- The file of the ignore patterns is where it was, and as it was. -/
  ignore : ∀ loc bytes, d.find (input / ignoreFile) = .ok (loc, .file bytes) →
    d'.find (input / ignoreFile) = .ok (loc, .file bytes)

/-- Compiling leaves the rule documents and the ignore patterns as they are. -/
theorem compile_keeps_sources (hlinks : d.NoLinks) (input root : Path) :
    SourcesKept d (compile d .standard input root).disk input := by
  obtain ⟨wrote, d', ps, hwrote, hmade, hplanned⟩ := compile_disk d .standard input root
  have hlinks' : (compile d .standard input root).disk.NoLinks := hmade.noLinks (hwrote.noLinks hlinks)
  have hretains := hwrote.retains.trans hmade.retains
  constructor
  · intro home hhome
    refine ⟨hretains.find_directory hhome, fun n bytes hmd hfile => ?_⟩
    rw [div_rulesDir] at hhome
    obtain ⟨top, -, rfl⟩ := exists_source_place hlinks spelled_rules hhome
    rcases hwrote.kept_or_written hmade hfile with hkept | ⟨old, -, file, hmem, hfind⟩
    · exact hkept
    · obtain ⟨outputs, hplan, hfile'⟩ := hplanned file hmem
      obtain ⟨ds, patterns, hds, -, rfl⟩ := plan_standard_eq_ok_iff.1 hplan
      exact absurd hmd (not_endsInMd_of_place hlinks' (areNamed_of_loadRules hds) hfile'
        (Disk.find_eq_ok_iff.1 hfind))
  · intro loc bytes hignore
    have hreach := Disk.find_eq_ok_iff.1 hignore
    suffices hkept : (compile d .standard input root).disk.entryAt loc = some (.file bytes) from
      Disk.find_eq_ok_iff.2 (hretains.reach hreach hkept nofun)
    rcases hwrote.kept_or_written hmade (Disk.entryAt_of_reach hreach) with
      hkept | ⟨old, -, file, hmem, hfind⟩
    · exact hkept
    · -- what is written there are the patterns that were read from it
      obtain ⟨outputs, hplan, hfile⟩ := hplanned file hmem
      obtain ⟨ds, patterns, hds, hpatterns, rfl⟩ := plan_standard_eq_ok_iff.1 hplan
      obtain ⟨top, -, rfl⟩ := exists_source_place hlinks spelled_ignore (div_ignoreFile input ▸ hignore)
      have hwritten := Disk.find_eq_ok_iff.1 hfind
      obtain rfl := patterns_of_place hlinks' (areNamed_of_loadRules hds) hfile hwritten
      obtain ⟨loc', hfind'⟩ := readIgnore_eq_some_iff.1 hpatterns
      obtain ⟨-, rfl⟩ : _ ∧ bytes = file.content.toUTF8 := by simpa [hignore] using hfind'
      exact Disk.entryAt_of_reach hwritten

/-- A disk whose input root is the directory that the files of one assistant go into. -/
def sharedRoot : Disk :=
  (writeAll .empty [⟨".cursor/rules/a.md", "text"⟩, ⟨".cursor/ignore", "target"⟩]).disk

theorem compile_keeps_sources_sharedRoot : sharedRoot.NoLinks ∧
    (∃ paths, (compile sharedRoot .standard ".cursor" ".").result = .ok paths) ∧
      SourcesKept sharedRoot (compile sharedRoot .standard ".cursor" ".").disk ".cursor" := by
  have hlinks : sharedRoot.NoLinks := noLinks_writeAll Disk.noLinks_empty _
  have hok : (compile sharedRoot .standard ".cursor" ".").result.map (fun _ => ()) = .ok () := by
    decide +kernel
  obtain ⟨paths, hpaths, -⟩ := map_eq_ok_iff.1 hok
  exact ⟨hlinks, ⟨paths, hpaths⟩, compile_keeps_sources hlinks ".cursor" "."⟩

end Rulebook
