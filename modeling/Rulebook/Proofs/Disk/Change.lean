/-
Rulebook/Proofs/Disk/Change.lean

What changes do where the way to them is known.  A path below a root is `Spelled` by the
names that its segments stand for; it leads straight down from the root as long as there
are directories (`walk_downs`), and the first name that is free stops it
(`walk_downs_free`).  From this follows what making a directory comes to: a directory
that is there stays (`makeDirsUp_of_hasDir`), a new one is set in the directory above it
(`makeDir_below`), and without that directory there is a fault (`makeDir_below_notFound`).
-/
import Rulebook.Proofs.Disk.Leads

namespace Rulebook.Disk

variable {d : Disk} {why : Purpose} {k : Nat} {way : List Name} {more : List Step}
variable {loc l : Location} {root : Path} {trail : List Path.Segment}

/-! ### Straight down -/

/-- What lies above something is a directory. -/
theorem entryAt_of_append {above : Location} (h : d.entryAt (above ++ loc) = some .directory) :
    d.entryAt loc = some .directory := by
  induction above with
  | nil => exact h
  | cons n above ih => exact ih (entryAt_tail (h ▸ Option.some_ne_none _))

/-- Nothing lies below what is not there. -/
theorem entryAt_append_of_none (h : d.entryAt loc = none) (above : Location) :
    d.entryAt (above ++ loc) = none := by
  induction above with
  | nil => exact h
  | cons n above ih =>
    refine Classical.byContradiction fun hne => ?_
    have htail : d.entryAt (above ++ loc) = some .directory := entryAt_tail hne
    simp [ih] at htail

theorem walk_downs (h : d.entryAt (way.reverse ++ l) = some .directory) (hmore : more ≠ [.slash]) :
    walk d why k (way.map .down ++ more) l = walk d why k more (way.reverse ++ l) := by
  induction way generalizing l with
  | nil => rfl
  | cons n way ih =>
    rw [List.reverse_cons, List.append_assoc] at h
    have hn : d.entryAt (n :: l) = some .directory := entryAt_of_append h
    have hstop : ¬ (why = .write ∧ way.map Step.down ++ more = [.slash]) := by
      rintro ⟨-, heq⟩
      rcases way with - | ⟨m, way⟩
      · exact hmore heq
      · simp at heq
    rw [List.map_cons, List.cons_append, walk_down, if_neg hstop, hn]
    show walk d why k (way.map .down ++ more) (n :: l) = _
    rw [List.reverse_cons, List.append_assoc]
    exact ih h

/-- A way down through directories ends in the last of them. -/
theorem walk_downs_taken (h : d.entryAt (way.reverse ++ l) = some .directory) :
    walk d .look k (way.map .down) l = .ok (.taken (way.reverse ++ l) .directory) := by
  rw [← List.append_nil (way.map Step.down), walk_downs h (by simp), walk_nil]

/-- A way down stops at the first name that is free, if there are directories up to it. -/
theorem walk_downs_free (hnone : d.entryAt (way.reverse ++ l) = none)
    (hl : d.entryAt l = some .directory)
    (hdirs : ∀ upper, upper <+: way → d.entryAt (upper.reverse ++ l) = none ∨
      d.entryAt (upper.reverse ++ l) = some .directory) :
    walk d .look k (way.map .down) l = .error .notFound ∨
      ∃ n dir, walk d .look k (way.map .down) l = .ok (.free n dir) := by
  induction way generalizing l with
  | nil => simp [hl] at hnone
  | cons n way ih =>
    rw [List.map_cons, walk_down, if_neg (by simp)]
    rcases hdirs [n] (by simp) with hn | hn
    · rw [show d.entryAt (n :: l) = none from hn]
      by_cases hw : way = []
      · exact .inr ⟨n, l, by simp [hw]⟩
      · exact .inl (by simp [hw])
    · rw [show d.entryAt (n :: l) = some .directory from hn]
      refine ih (by simpa using hnone) hn fun upper hupper => ?_
      simpa using hdirs (n :: upper) (List.cons_prefix_cons.2 ⟨rfl, hupper⟩)

/-! ### Directories that are there -/

theorem hasDir_iff {p : Path} : d.hasDir p = true ↔ ∃ loc, d.find p = .ok (loc, .directory) := by
  rw [hasDir]
  rcases d.find p with fault | ⟨loc, - | bytes | target⟩ <;> simp

/-- The last step of a path is taken in the directory that the steps before it lead to. -/
theorem approach_eq {p : Path} {init : List Step} {last : Step} (hcheck : checkPath p = .ok ())
    (hway : (steps p).filter (· ≠ .slash) = init ++ [last]) :
    d.approach p =
      match walk d .look maxLinks init (origin p d.here) with
      | .ok (.taken dir .directory) => .ok (dir, some last)
      | .ok (.taken _ _) => .error .notDirectory
      | .ok (.free _ _) => .error .notFound
      | .error fault => .error fault := by
  simp only [approach, hcheck, ok_bind, hway, List.dropLast_concat, List.getLast?_concat]
  rcases walk d .look maxLinks init (origin p d.here) with
    fault | ⟨dir, - | bytes | target⟩ | ⟨m, dir⟩ <;> rfl

/-- There is no making a directory that is there. -/
theorem makeDir_of_hasDir {p : Path} (h : d.hasDir p = true) :
    d.makeDir p = .error .alreadyExists := by
  obtain ⟨l, hfind⟩ := hasDir_iff.1 h
  have hcheck : checkPath p = .ok () := (find_eq_directory_iff.1 hfind).1
  obtain ⟨k, hway⟩ := leads_root hfind
  rcases List.eq_nil_or_concat' ((steps p).filter (· ≠ .slash)) with hnil | ⟨init, last, hlast⟩
  · simp only [makeDir, vacancy, approach, hcheck, hnil]
    rfl
  · -- the way up to the last step leads to the directory in which that step is taken
    rw [hlast] at hway
    obtain ⟨m, mid, hinit, hstep⟩ := hway.split
    have hdown : ∀ n, last = .down n → (d.entryAt (n :: mid)).isSome = true := by
      rintro n rfl
      cases hstep with
      | down hd => simp [hd]
      | link hl => simp [hl]
    rw [makeDir, vacancy, approach_eq hcheck hlast, walk_eq_directory_iff.2 ⟨m, hinit⟩]
    cases last with
    | down n => simp [hdown n rfl]
    | overlong => cases hstep
    | stay | slash | up => rfl

/-- A directory that is there already will do. -/
theorem makeDirsUp_of_hasDir {p : Path} {above : List Path} (h : d.hasDir p = true) :
    d.makeDirsUp (p :: above) = (d, .ok ()) := by
  rw [makeDirsUp, makeDir_of_hasDir h]
  by_cases hp : p.chars = [] <;> simp [hp, h]

/-- There is no writing over a directory. -/
theorem writeFile_of_reach_directory {p : Path} (h : d.reach .write p = .ok (.taken loc .directory))
    (bytes : ByteArray) : d.writeFile p bytes = .error .isDirectory := by
  rw [writeFile, h]
  rcases loc with - | ⟨n, loc⟩ <;> rfl

/-! ### Names on a path -/

/-- A trail of segments is spelled by names: each segment stands for one. -/
structure Spelled (trail : List Path.Segment) (way : List Name) : Prop where
  plain : ∀ s ∈ trail, s.IsPlain
  nul : ∀ s ∈ trail, '\x00' ∉ s
  steps : trail.map Step.ofSegment = way.map .down

theorem Spelled.length (h : Spelled trail way) : trail.length = way.length := by
  simpa using congrArg List.length h.steps

theorem Spelled.ne_nil_iff (h : Spelled trail way) : trail ≠ [] ↔ way ≠ [] := by
  rw [← List.length_pos_iff, ← List.length_pos_iff, h.length]

/-- The last name spells the last segment, and the names before it those before. -/
theorem Spelled.concat {n : Name} (h : Spelled trail (way ++ [n])) :
    ∃ init last, trail = init ++ [last] ∧ Spelled init way ∧ last.IsPlain ∧
      Step.ofSegment last = .down n := by
  have hne : trail ≠ [] := h.ne_nil_iff.2 (by simp)
  obtain ⟨init, last, rfl⟩ := (List.eq_nil_or_concat' trail).resolve_left hne
  have hsteps := h.steps
  simp only [List.map_append, List.map_cons, List.map_nil] at hsteps
  obtain ⟨hinit, hlast⟩ := List.append_inj' hsteps rfl
  exact ⟨init, last, rfl, ⟨fun s hs => h.plain s (by simp [hs]), fun s hs => h.nul s (by simp [hs]),
    hinit⟩, h.plain last (by simp), by simpa using hlast⟩

/-- Where a path goes that is spelled by names, below a root that is a directory. -/
theorem exists_reach_spelled (hroot : d.find root = .ok (l, .directory)) :
    ∃ k, ∀ (why : Purpose) (trail : List Path.Segment) (way : List Name), way ≠ [] →
      Spelled trail way → d.reach why (root.below trail) = walk d why k (way.map .down) l := by
  obtain ⟨k, hreach⟩ := (based_of_find hroot).exists_reach
  refine ⟨k, fun why trail way hne h => ?_⟩
  rw [hreach why trail (h.ne_nil_iff.2 hne) h.plain h.nul, h.steps]

/-- A path below a root leads to the directory that stands at its place. -/
theorem find_under (hroot : d.find root = .ok (l, .directory)) (h : Spelled trail way)
    (hdir : d.entryAt (way.reverse ++ l) = some .directory) :
    d.find (root.under trail) = .ok (way.reverse ++ l, .directory) := by
  rcases way with - | ⟨n, way⟩
  · have htrail : trail = [] := by simpa using h.steps
    rw [Path.under, if_pos htrail]
    exact find_settled hroot
  · have hne : trail ≠ [] := h.ne_nil_iff.2 (by simp)
    obtain ⟨k, hreach⟩ := exists_reach_spelled hroot
    rw [Path.under, if_neg hne, find, hreach .look trail (n :: way) (by simp) h,
      walk_downs_taken hdir]
    rfl

/-- The directory that a new entry goes into is found on the way down from the root. -/
theorem exists_approach_below (hroot : d.find root = .ok (l, .directory)) :
    ∃ k, ∀ (trail : List Path.Segment) (way : List Name) (n : Name), Spelled trail (way ++ [n]) →
      d.approach (root.below trail) =
        match walk d .look k (way.map .down) l with
        | .ok (.taken dir .directory) => .ok (dir, some (.down n))
        | .ok (.taken _ _) => .error .notDirectory
        | .ok (.free _ _) => .error .notFound
        | .error fault => .error fault := by
  obtain ⟨k, hleads⟩ := leads_root hroot
  refine ⟨k, fun trail way n h => ?_⟩
  have hne : trail ≠ [] := h.ne_nil_iff.2 (by simp)
  have hcheck : checkPath (root.below trail) = .ok () :=
    checkPath_below (based_of_find hroot).nul hne h.plain h.nul
  have hway : (steps (root.below trail)).filter (· ≠ .slash) =
      ((steps root).filter (· ≠ .slash) ++ way.map .down) ++ [.down n] := by
    rw [steps_below root hne h.plain, h.steps, List.filter_append, List.filter_filter]
    simp
  rw [approach_eq hcheck hway, origin_below root hne h.plain, hleads.walk_append (by simp)]

/-- A new directory is set in the one above it. -/
theorem makeDir_below {n : Name} (hroot : d.find root = .ok (l, .directory))
    (h : Spelled trail (way ++ [n])) (hdir : d.entryAt (way.reverse ++ l) = some .directory)
    (hfree : d.entryAt (n :: (way.reverse ++ l)) = none) :
    d.makeDir (root.below trail) = .ok (d.put n (way.reverse ++ l) .directory) := by
  obtain ⟨k, happroach⟩ := exists_approach_below hroot
  rw [makeDir, vacancy, happroach trail way n h, walk_downs_taken hdir]
  simp [hfree, pure, Except.pure]

/-- Without a directory to go into, a new one is not made. -/
theorem makeDir_below_notFound {n : Name} (hroot : d.find root = .ok (l, .directory))
    (h : Spelled trail (way ++ [n])) (hnone : d.entryAt (way.reverse ++ l) = none)
    (hl : d.entryAt l = some .directory)
    (hdirs : ∀ upper, upper <+: way → d.entryAt (upper.reverse ++ l) = none ∨
      d.entryAt (upper.reverse ++ l) = some .directory) :
    d.makeDir (root.below trail) = .error .notFound := by
  obtain ⟨k, happroach⟩ := exists_approach_below hroot
  rw [makeDir, vacancy, happroach trail way n h]
  rcases walk_downs_free (k := k) hnone hl hdirs with hwalk | ⟨m, dir, hwalk⟩ <;> rw [hwalk] <;> rfl

end Rulebook.Disk
