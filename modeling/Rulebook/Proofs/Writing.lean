/-
Rulebook/Proofs/Writing.lean

Files written into an empty directory.  A trail is `Filed` in a layout when its directories
belong to the layout and its last segment stands for no directory of it.  A file on such a
trail can be written exactly when that last segment is the text of a name, whatever has
been written before (`writeGenerated_filed`).  So a list of files can be written if all their
trails end in names, and else the run fails at one that does not, with the fault that its last
segment makes (`writeAll_filed`).

A file that cannot be written leaves the directories that have been made for it, and the
files before it.
-/
import Rulebook.Compilation
import Rulebook.Proofs.Disk.Grown

namespace Rulebook

open Disk (Grown Name Spelled Step)
open Rulebook.Path (Segment)

variable {d₀ d : Disk} {l : Location} {dirs : List (List Name)} {root : Path} {trail : List Segment}

/-- Whether a trail goes into a directory of the layout, under a segment that stands for no
directory of it. -/
def Filed (dirs : List (List Name)) (trail : List Segment) : Prop :=
  ∃ init last way, trail = init ++ [last] ∧ Spelled init way ∧ way ∈ dirs ∧ last.IsPlain ∧
    '\x00' ∉ last ∧ ∀ n, Step.ofSegment last = .down n → way ++ [n] ∉ dirs

/-- Whether the last segment of a trail is the text of a name. -/
def EndsInName (trail : List Segment) : Prop :=
  ∃ init last n, trail = init ++ [last] ∧ Step.ofSegment last = .down n

theorem endsInName_append {init : List Segment} {last : Segment} :
    EndsInName (init ++ [last]) ↔ ∃ n, Step.ofSegment last = .down n := by
  constructor
  · rintro ⟨init', last', n, heq, hn⟩
    obtain ⟨-, hlast⟩ := List.append_inj' heq rfl
    obtain rfl : last = last' := by simpa using hlast
    exact ⟨n, hn⟩
  · rintro ⟨n, hn⟩
    exact ⟨init, last, n, rfl, hn⟩

/-- The failure of writing to a trail that ends in no name: its last segment is the way up, or
too long. -/
def refusal (root : Path) (trail : List Segment) : Failure :=
  .ofFault (.writeGenerated (root.below trail))
    (if trail.getLast? = some ['.', '.'] then .isDirectory else .nameTooLong)

/-- One file: it is written if its name can be one, and then the directory is filled
further; else the write fails. -/
theorem writeGenerated_filed (h : Grown d₀ l dirs d) (hroot : d₀.find root = .ok (l, .directory))
    {file : OutputFile} (hpath : file.path = root.below trail) (hfiled : Filed dirs trail) :
    (EndsInName trail ∧ ∃ d', writeGenerated d file = (d', .ok ()) ∧ Grown d₀ l dirs d') ∨
      (¬ EndsInName trail ∧ ∃ d', writeGenerated d file = (d', .error (refusal root trail))) := by
  obtain ⟨init, last, way, rfl, hspelled, hway, hlast, hnul, hfree⟩ := hfiled
  obtain ⟨d', hmade, h', hdir⟩ := h.makeDirs hroot hspelled hway
  -- the directory is made first, whether the file can be written or not
  have hroom : makeRoom d file = (d', .ok ()) := by
    rw [makeRoom, hpath, Path.parent?_below root hspelled.plain hlast]
    dsimp only
    rw [hmade]
    rfl
  rw [endsInName_append, writeGenerated, hroom]
  dsimp only
  rw [Disk.writeText, hpath]
  by_cases hname : ∃ n, Step.ofSegment last = .down n
  · obtain ⟨n, hn⟩ := hname
    obtain ⟨d'', hwrite, h''⟩ := h'.writeFile hroot hspelled hdir hlast hnul hn (hfree n hn)
      file.content.toUTF8
    exact .inl ⟨⟨n, hn⟩, d'', by rw [hwrite], h''⟩
  · have hwrite := h'.writeFile_error hroot hspelled hdir hlast hnul (not_exists.1 hname)
      file.content.toUTF8
    refine .inr ⟨hname, d', ?_⟩
    rw [hwrite, refusal, List.getLast?_concat]
    simp only [Option.some.injEq]

/-- All files: they are written if the names of all can be names, and else the run fails at a
file whose name cannot. -/
theorem writeAll_filed (h : Grown d₀ l dirs d) (hroot : d₀.find root = .ok (l, .directory))
    {files : List OutputFile} {trails : List (List Segment)}
    (hpaths : files.map (·.path) = trails.map root.below) (hfiled : ∀ trail ∈ trails, Filed dirs trail) :
    ((∀ trail ∈ trails, EndsInName trail) ∧ ∃ paths, (writeAll d files).result = .ok paths) ∨
      ∃ trail ∈ trails, ¬ EndsInName trail ∧
        (writeAll d files).result = .error (refusal root trail) := by
  induction files generalizing d trails with
  | nil =>
    obtain rfl : trails = [] := by simpa using hpaths.symm
    exact .inl ⟨by simp, [], rfl⟩
  | cons file files ih =>
    rcases trails with - | ⟨trail, trails⟩
    · simp at hpaths
    obtain ⟨hpath, hpaths⟩ := List.cons.inj hpaths
    obtain ⟨hfirst, hrest⟩ := List.forall_mem_cons.1 hfiled
    rw [writeAll]
    rcases writeGenerated_filed h hroot hpath hfirst with
      ⟨hname, d', hwrite, h'⟩ | ⟨hno, d', hwrite⟩
    · -- the rest finds the same directory, filled with one more file
      rw [hwrite]
      rcases ih h' hpaths hrest with ⟨hall, paths, hok⟩ | ⟨other, hother, hno, herr⟩
      · refine .inl ⟨List.forall_mem_cons.2 ⟨hname, hall⟩, file.path :: paths, ?_⟩
        rw [Outcome.result_telling, Outcome.result_map, hok]
        rfl
      · refine .inr ⟨other, List.mem_cons_of_mem _ hother, hno, ?_⟩
        rw [Outcome.result_telling, Outcome.result_map, herr]
        rfl
    · exact .inr ⟨trail, List.mem_cons_self, hno, by rw [hwrite]⟩

end Rulebook
