/-
Rulebook/Proofs/Disk/Grown.lean

An empty directory that fills up.  `dirs` says which ways below it are to be directories;
everything else that comes to stand below it is a file.  `Grown` is what is kept while
directories and files of this layout are made: nothing that was there before has changed,
and below the directory there are only directories of the layout and files.

A step that sets one more entry keeps it (`Grown.put`), and so does making a directory
with all above it (`Grown.makeDirsUp`) and writing a file into one of the directories
(`Grown.writeFile`).  Neither fails, however the root is spelled.
-/
import Rulebook.Proofs.Disk.Change

namespace Rulebook.Disk

/-- A layout has the directory itself, and with each directory the one above it. -/
structure IsLayout (dirs : List (List Name)) : Prop where
  nil : [] ∈ dirs
  above : ∀ way n, way ++ [n] ∈ dirs → way ∈ dirs

/-- `d` has come about from `d₀` by filling the directory at `l`, which was empty, with
directories of the layout and with files. -/
structure Grown (d₀ : Disk) (l : Location) (dirs : List (List Name)) (d : Disk) : Prop where
  layout : IsLayout dirs
  isDir : d₀.entryAt l = some .directory
  wasEmpty : ∀ n, d₀.entryAt (n :: l) = none
  here : d.here = d₀.here
  /-- What was there is as it was. -/
  kept : ∀ loc, d₀.entryAt loc ≠ none → d.entryAt loc = d₀.entryAt loc
  /-- What is there below the directory. -/
  held : ∀ way e, d.entryAt (way.reverse ++ l) = some e →
    way ∈ dirs ∧ e = .directory ∨ way ∉ dirs ∧ ∃ bytes, e = .file bytes

variable {d₀ d : Disk} {l : Location} {dirs : List (List Name)} {way : List Name} {n : Name}

theorem entryAt_eq_none_of_children (h : d.children l = []) (n : Name) :
    d.entryAt (n :: l) = none := by
  refine Option.eq_none_iff_forall_ne_some.2 fun e he => ?_
  have hmem := mem_children.2 he
  simp [h] at hmem

/-- Nothing has grown yet. -/
theorem Grown.refl (hlayout : IsLayout dirs) (hdir : d.entryAt l = some .directory)
    (hempty : d.children l = []) : Grown d l dirs d where
  layout := hlayout
  isDir := hdir
  wasEmpty := entryAt_eq_none_of_children hempty
  here := rfl
  kept _ _ := rfl
  held way e he := by
    rcases way with - | ⟨n, way⟩
    · left
      refine ⟨hlayout.nil, ?_⟩
      rw [List.reverse_nil, List.nil_append, hdir] at he
      exact (Option.some.inj he).symm
    · have hnone := entryAt_append_of_none (entryAt_eq_none_of_children hempty n) way.reverse
      rw [List.reverse_cons, List.append_assoc] at he
      exact absurd (hnone.symm.trans he) (by simp)

/-- A layout has everything on the way to its directories. -/
theorem IsLayout.of_prefix (h : IsLayout dirs) {upper : List Name}
    (hupper : upper <+: way) (hway : way ∈ dirs) : upper ∈ dirs := by
  obtain ⟨more, rfl⟩ := hupper
  induction more using List.reverseRecOn with
  | nil => simpa using hway
  | append_singleton more n ih => exact ih (h.above _ n (by simpa using hway))

namespace Grown

/-- Nothing stood below the directory before. -/
theorem entryAt_before (h : Grown d₀ l dirs d) (way : List Name) (n : Name) :
    d₀.entryAt (n :: (way.reverse ++ l)) = none := by
  refine Classical.byContradiction fun hne => ?_
  -- the place lies in or below one directly in the directory, and there was nothing
  have hplace : n :: (way.reverse ++ l) = (way ++ [n]).reverse ++ l := by simp
  obtain ⟨m, rest, hm⟩ := List.exists_cons_of_ne_nil (l := way ++ [n]) (by simp)
  rw [hplace, hm, List.reverse_cons, List.append_assoc] at hne
  exact hne (entryAt_append_of_none (h.wasEmpty m) rest.reverse)

/-- On the way to a directory of the layout there are only directories, as far as there
is anything. -/
theorem none_or_directory (h : Grown d₀ l dirs d) (hway : way ∈ dirs) :
    d.entryAt (way.reverse ++ l) = none ∨ d.entryAt (way.reverse ++ l) = some .directory := by
  rcases he : d.entryAt (way.reverse ++ l) with - | e
  · exact .inl rfl
  · rcases h.held way e he with ⟨-, rfl⟩ | ⟨hno, -⟩
    · exact .inr rfl
    · exact absurd hway hno

theorem entryAt_top (h : Grown d₀ l dirs d) : d.entryAt l = some .directory := by
  rw [h.kept l (by simp [h.isDir]), h.isDir]

/-- One more entry of the layout. -/
theorem put (h : Grown d₀ l dirs d) {e : Entry}
    (hdir : d.entryAt (way.reverse ++ l) = some .directory)
    (hfree : d.entryAt (n :: (way.reverse ++ l)) ≠ some .directory)
    (he : way ++ [n] ∈ dirs ∧ e = .directory ∨ way ++ [n] ∉ dirs ∧ ∃ bytes, e = .file bytes) :
    Grown d₀ l dirs (d.put n (way.reverse ++ l) e) := by
  have hput : ∀ loc, (d.put n (way.reverse ++ l) e).entryAt loc =
      if loc = n :: (way.reverse ++ l) then some e else d.entryAt loc := entryAt_put ⟨hdir, hfree⟩ e
  refine ⟨h.layout, h.isDir, h.wasEmpty, (here_put d n _ e).trans h.here, fun loc hloc => ?_,
    fun other e' he' => ?_⟩
  · -- the new entry is none of those from before, all of which lie elsewhere
    have hne : loc ≠ n :: (way.reverse ++ l) := by
      rintro rfl
      exact hloc (h.entryAt_before way n)
    rw [hput, if_neg hne, h.kept loc hloc]
  · rw [hput] at he'
    by_cases hother : other.reverse ++ l = n :: (way.reverse ++ l)
    · have hway : other = way ++ [n] := by
        have : other.reverse = n :: way.reverse := List.append_cancel_right (by simpa using hother)
        simpa using congrArg List.reverse this
      rw [if_pos hother] at he'
      rw [hway, ← Option.some.inj he']
      exact he
    · rw [if_neg hother] at he'
      exact h.held other e' he'

/-- The root leads to the directory still. -/
theorem find_root (h : Grown d₀ l dirs d) {root : Path}
    (hroot : d₀.find root = .ok (l, .directory)) : d.find root = .ok (l, .directory) := by
  obtain ⟨hcheck, k, hleads⟩ := find_eq_directory_iff.1 hroot
  refine find_eq_directory_iff.2 ⟨hcheck, k, ?_⟩
  rw [h.here]
  refine hleads.mono (fun loc hloc => ?_) (fun loc target hloc => ?_)
  · rw [h.kept loc (by simp [hloc]), hloc]
  · rw [h.kept loc (by simp [hloc]), hloc]

/-! ### Directories -/

variable {root : Path} {trail : List Path.Segment}

/-- With the directory above it, a directory of the layout is made or is there already. -/
theorem makeDir (h : Grown d₀ l dirs d) (hroot : d₀.find root = .ok (l, .directory))
    (hspelled : Spelled trail (way ++ [n])) (hway : way ++ [n] ∈ dirs)
    (hdir : d.entryAt (way.reverse ++ l) = some .directory) :
    ∃ d', Grown d₀ l dirs d' ∧ d'.entryAt ((way ++ [n]).reverse ++ l) = some .directory ∧
      (d.makeDir (root.below trail) = .ok d' ∨
        d.makeDir (root.below trail) = .error .alreadyExists ∧ d' = d ∧
          d.hasDir (root.below trail) = true) := by
  have hplace : (way ++ [n]).reverse ++ l = n :: (way.reverse ++ l) := by simp
  rcases h.none_or_directory hway with hnone | hthere
  · rw [hplace] at hnone ⊢
    have hfree : d.entryAt (n :: (way.reverse ++ l)) ≠ some .directory := by simp [hnone]
    refine ⟨d.put n (way.reverse ++ l) .directory, h.put hdir hfree (.inl ⟨hway, rfl⟩), ?_,
      .inl (makeDir_below (h.find_root hroot) hspelled hdir hnone)⟩
    rw [entryAt_put ⟨hdir, hfree⟩, if_pos rfl]
  · have hfind := find_under (h.find_root hroot) hspelled hthere
    rw [Path.under, if_neg (hspelled.ne_nil_iff.2 (by simp))] at hfind
    have hhas : d.hasDir (root.below trail) = true := hasDir_iff.2 ⟨_, hfind⟩
    exact ⟨d, h, hthere, .inr ⟨makeDir_of_hasDir hhas, rfl, hhas⟩⟩

/-- A directory of the layout can be made, with all above it that are missing. -/
theorem makeDirsUp (h : Grown d₀ l dirs d) (hroot : d₀.find root = .ok (l, .directory))
    {fuel : Nat} (hspelled : Spelled trail way) (hway : way ∈ dirs) (hfuel : way.length ≤ fuel) :
    ∃ d', d.makeDirsUp (Path.ancestorsUpTo fuel (root.under trail)) = (d', .ok ()) ∧
      Grown d₀ l dirs d' ∧ d'.entryAt (way.reverse ++ l) = some .directory := by
  -- from the last name of the way up: the disk stays the same until the top is reached
  induction way using List.reverseRecOn generalizing trail fuel with
  | nil =>
    have hdir : d.entryAt (([] : List Name).reverse ++ l) = some .directory := h.entryAt_top
    have hfind := find_under (h.find_root hroot) hspelled hdir
    obtain ⟨above, habove⟩ := Path.exists_ancestorsUpTo_eq_cons fuel (root.under trail)
    exact ⟨d, by rw [habove, makeDirsUp_of_hasDir (hasDir_iff.2 ⟨_, hfind⟩)], h, hdir⟩
  | append_singleton way n ih =>
    obtain ⟨fuel, rfl⟩ := Nat.exists_eq_succ_of_ne_zero (n := fuel)
      (by rw [List.length_append, List.length_singleton] at hfuel; omega)
    obtain ⟨init, last, rfl, hinit, hlast, -⟩ := hspelled.concat
    have hchars : (root.below (init ++ [last])).chars ≠ [] :=
      Path.chars_below_ne_nil root (by simp) hspelled.plain
    have hupper : way ∈ dirs := h.layout.above way n hway
    rw [Path.under, if_neg (by simp), Path.ancestorsUpTo, Path.parent?_below root hinit.plain hlast]
    dsimp only
    rw [Disk.makeDirsUp, if_neg hchars]
    rcases h.none_or_directory hupper with hnone | hthere
    · -- the directory above is missing, and is made first
      have hprefix : ∀ upper, upper <+: way → d.entryAt (upper.reverse ++ l) = none ∨
          d.entryAt (upper.reverse ++ l) = some .directory :=
        fun upper hpre => h.none_or_directory (h.layout.of_prefix hpre hupper)
      have hfuel' : way.length ≤ fuel := by simpa using hfuel
      obtain ⟨d', hmade, h', hdir⟩ := ih hinit hupper hfuel'
      rw [makeDir_below_notFound (h.find_root hroot) hspelled hnone h.entryAt_top hprefix, hmade]
      obtain ⟨d'', h'', hdir', hnew | ⟨hold, rfl, hhas⟩⟩ := h'.makeDir hroot hspelled hway hdir
      · exact ⟨d'', by simp only [hnew], h'', hdir'⟩
      · exact ⟨d'', by simp only [hold, hhas, if_true], h'', hdir'⟩
    · obtain ⟨d', h', hdir', hnew | ⟨hold, rfl, hhas⟩⟩ := h.makeDir hroot hspelled hway hthere
      · exact ⟨d', by simp only [hnew], h', hdir'⟩
      · exact ⟨d', by simp only [hold, hhas, if_true], h', hdir'⟩

theorem makeDirs (h : Grown d₀ l dirs d) (hroot : d₀.find root = .ok (l, .directory))
    (hspelled : Spelled trail way) (hway : way ∈ dirs) :
    ∃ d', d.makeDirs (root.under trail) = (d', .ok ()) ∧
      Grown d₀ l dirs d' ∧ d'.entryAt (way.reverse ++ l) = some .directory := by
  refine h.makeDirsUp hroot hspelled hway ?_
  rw [← hspelled.length]
  exact Path.length_le_chars_under root hspelled.plain

/-! ### Files -/

/-- Where writing goes, in a directory of the layout that is there. -/
theorem exists_reach_write (h : Grown d₀ l dirs d) (hroot : d₀.find root = .ok (l, .directory))
    (hspelled : Spelled trail way) (hdir : d.entryAt (way.reverse ++ l) = some .directory)
    {last : Path.Segment} (hlast : last.IsPlain) (hnul : '\x00' ∉ last) :
    ∃ k, d.reach .write (root.below (trail ++ [last])) =
      walk d .write k [.ofSegment last] (way.reverse ++ l) := by
  obtain ⟨k, hreach⟩ := (based_of_find (h.find_root hroot)).exists_reach
  refine ⟨k, ?_⟩
  have hplain : ∀ s ∈ trail ++ [last], s.IsPlain := by
    simpa [or_imp, forall_and] using ⟨hspelled.plain, hlast⟩
  have hnuls : ∀ s ∈ trail ++ [last], '\x00' ∉ s := by
    simpa [or_imp, forall_and] using ⟨hspelled.nul, hnul⟩
  rw [hreach .write _ (by simp) hplain hnuls, List.map_append, hspelled.steps]
  exact walk_downs hdir (by simpa using ofSegment_ne_slash last)

/-- A file is written under a name that is no directory of the layout. -/
theorem writeFile (h : Grown d₀ l dirs d) (hroot : d₀.find root = .ok (l, .directory))
    (hspelled : Spelled trail way) (hdir : d.entryAt (way.reverse ++ l) = some .directory)
    {last : Path.Segment} (hlast : last.IsPlain) (hnul : '\x00' ∉ last)
    (hn : Step.ofSegment last = .down n) (hway : way ++ [n] ∉ dirs) (bytes : ByteArray) :
    ∃ d', d.writeFile (root.below (trail ++ [last])) bytes = .ok d' ∧ Grown d₀ l dirs d' := by
  obtain ⟨k, hreach⟩ := h.exists_reach_write hroot hspelled hdir hlast hnul
  have hplace : (way ++ [n]).reverse ++ l = n :: (way.reverse ++ l) := by simp
  -- what stands under the name already is a file, if anything
  have hheld : ∀ e, d.entryAt (n :: (way.reverse ++ l)) = some e → ∃ old, e = .file old := by
    intro e he
    rcases h.held (way ++ [n]) e (hplace ▸ he) with ⟨hin, -⟩ | ⟨-, hfile⟩
    · exact absurd hin hway
    · exact hfile
  have hput : d.entryAt (n :: (way.reverse ++ l)) ≠ some .directory := by
    intro he
    obtain ⟨old, hold⟩ := hheld _ he
    cases hold
  refine ⟨d.put n (way.reverse ++ l) (.file bytes), ?_, h.put hdir hput (.inr ⟨hway, bytes, rfl⟩)⟩
  rw [Disk.writeFile, hreach, hn, walk_down, if_neg (by simp)]
  rcases he : d.entryAt (n :: (way.reverse ++ l)) with - | e
  · rfl
  · obtain ⟨old, rfl⟩ := hheld e he
    rfl

/-- Nothing is written where the last segment is no name: it leads to a directory, or is too
long. -/
theorem writeFile_error (h : Grown d₀ l dirs d) (hroot : d₀.find root = .ok (l, .directory))
    (hspelled : Spelled trail way) (hdir : d.entryAt (way.reverse ++ l) = some .directory)
    {last : Path.Segment} (hlast : last.IsPlain) (hnul : '\x00' ∉ last)
    (hn : ∀ n, Step.ofSegment last ≠ .down n) (bytes : ByteArray) :
    d.writeFile (root.below (trail ++ [last])) bytes =
      .error (if last = ['.', '.'] then .isDirectory else .nameTooLong) := by
  obtain ⟨k, hreach⟩ := h.exists_reach_write hroot hspelled hdir hlast hnul
  rw [ofSegment_eq_of_no_name hlast hn] at hreach
  by_cases hup : last = ['.', '.']
  · rw [if_pos hup, walk_up, walk_nil] at hreach
    rw [if_pos hup, writeFile_of_reach_directory hreach bytes]
  · rw [if_neg hup, walk_overlong, if_neg (by simp)] at hreach
    rw [if_neg hup, Disk.writeFile, hreach, error_bind]

end Grown

end Rulebook.Disk
