/-
Rulebook/Proofs/Disk/Straight.lean

Paths below a root, on disks without links.  The root leads to one directory, whatever
has been added to the disk (`Based.unique`, `Based.mono`), and a path that goes on from
the root under names ends straight below that directory (`exists_home_of_reach`).  So a
place tells the names that lead there, and what a path finds below the root is what stands
there (`find_below_iff`, and `Based.find_child` where there may be links elsewhere).

Where a file has been written, the last segment is a name as well
(`exists_spelled_of_reach_file`): no file is written under `..`, nor under what is too
long for a name.

Nothing is found below a root that is no directory (`hasDir_of_find_below`), links or not.
-/
import Rulebook.Proofs.Disk.Name
import Rulebook.Proofs.Disk.Retains

namespace Rulebook.Disk

open Text

variable {d d' : Disk} {why : Purpose} {l l' loc : Location} {root : Path} {n : Name}
variable {trail init : List Path.Segment} {last : Path.Segment} {way : List Name} {place : Place}
variable {e : Entry}

/-! ### Segments and names -/

/-- The name that a segment stands for has the bytes of the segment. -/
theorem bytes_of_down {s : Path.Segment} (h : Step.ofSegment s = .down n) : n.bytes = utf8 s := by
  have hn := Name.ofChars?_of_down h
  rw [Name.ofChars?_eq, Name.ofBytes?] at hn
  split at hn
  · rw [← Option.some.inj hn]
  · cases hn

theorem Spelled.bytes (h : Spelled trail way) : way.map (·.bytes) = trail.map utf8 := by
  have hsteps := h.steps
  clear h
  induction trail generalizing way with
  | nil =>
    obtain rfl : way = [] := by simpa using hsteps.symm
    rfl
  | cons s trail ih =>
    rcases way with - | ⟨n, way⟩
    · simp at hsteps
    · obtain ⟨hs, hrest⟩ := List.cons.inj hsteps
      rw [List.map_cons, List.map_cons, bytes_of_down hs, ih hrest]

/-- The same names are spelled in one way. -/
theorem Spelled.unique {other : List Path.Segment} (h : Spelled trail way)
    (h' : Spelled other way) : trail = other :=
  List.map_injective_iff.2 (fun _ _ => utf8_inj.1) (h.bytes.symm.trans h'.bytes)

/-- A trail is spelled by one row of names. -/
theorem Spelled.names_unique {names : List Name} (h : Spelled trail way)
    (h' : Spelled trail names) : way = names :=
  List.map_injective_iff.2 (fun _ _ => Step.down.inj) (h.steps.symm.trans h'.steps)

theorem Spelled.append (h : Spelled init way) (hlast : last.IsPlain) (hnul : '\x00' ∉ last)
    (hn : Step.ofSegment last = .down n) : Spelled (init ++ [last]) (way ++ [n]) where
  plain := by simpa [or_imp, forall_and] using ⟨h.plain, hlast⟩
  nul := by simpa [or_imp, forall_and] using ⟨h.nul, hnul⟩
  steps := by simp [h.steps, hn]

/-- The innermost name of a place below a directory is that of the last segment. -/
theorem Spelled.innermost {home : Location} (h : Spelled trail way) (hne : trail ≠ [])
    (hloc : n :: loc = way.reverse ++ home) :
    ∃ init last names, trail = init ++ [last] ∧ n.bytes = utf8 last ∧ Spelled init names ∧
      loc = names.reverse ++ home := by
  obtain ⟨names, m, rfl⟩ := (List.eq_nil_or_concat' way).resolve_left (h.ne_nil_iff.1 hne)
  rw [List.reverse_concat, List.cons_append] at hloc
  obtain ⟨rfl, rfl⟩ := List.cons.inj hloc
  obtain ⟨init, last, rfl, hinit, -, hn⟩ := h.concat
  exact ⟨init, last, names, rfl, bytes_of_down hn, hinit, rfl⟩

/-- What comes first of a spelled trail is spelled by what comes first of the names. -/
theorem Spelled.of_prefix {upper : List Path.Segment} (h : Spelled trail way)
    (hupper : upper <+: trail) : ∃ names, names <+: way ∧ Spelled upper names := by
  obtain ⟨more, rfl⟩ := hupper
  refine ⟨way.take upper.length, List.take_prefix _ _, fun s hs => h.plain s (by simp [hs]),
    fun s hs => h.nul s (by simp [hs]), ?_⟩
  rw [List.map_take, ← h.steps, List.map_append, List.take_left' (by simp)]

/-! ### The directory that a root leads to -/

theorem Based.unique (h : Based d root l) (h' : Based d root l') : l = l' := by
  obtain ⟨k, hleads⟩ := h.leads
  obtain ⟨k', hleads'⟩ := h'.leads
  have hwalk := (walk_eq_directory_iff.2 ⟨k, hleads⟩).symm.trans
    (walk_eq_directory_iff.2 ⟨k', hleads'⟩)
  simpa using hwalk

theorem Based.mono (h : Based d root l) (hretains : Retains d d') : Based d' root l := by
  obtain ⟨k, hleads⟩ := h.leads
  refine ⟨h.nul, k, ?_⟩
  rw [hretains.here]
  exact hleads.mono hretains.directory hretains.link

/-- A path below a root that ends somewhere goes on from a directory. -/
theorem exists_based_of_reach (hne : trail ≠ []) (hplain : ∀ s ∈ trail, s.IsPlain)
    (h : d.reach why (root.below trail) = .ok place) :
    ∃ k home, Based d root home ∧ Ends d why k (trail.map .ofSegment) home place := by
  obtain ⟨hcheck, hends⟩ := reach_eq_ok_iff.1 h
  rw [steps_below root hne hplain, origin_below root hne hplain] at hends
  obtain ⟨k, home, hleads, hends⟩ := hends.split (by simpa using hne)
  have hnul : '\x00' ∉ root.chars := fun hmem =>
    (checkPath_eq_ok_iff.1 hcheck).1 (Path.mem_chars_below_of_mem hne hplain hmem)
  exact ⟨k, home, ⟨hnul, _, hleads⟩, hends⟩

/-- Nothing is below a root that is not a directory, unless the root is empty. -/
theorem hasDir_of_find_below (hroot : root.chars ≠ []) (hne : trail ≠ [])
    (hplain : ∀ s ∈ trail, s.IsPlain) (h : d.find (root.below trail) = .ok (loc, e)) :
    d.hasDir root = true := by
  obtain ⟨_, home, hbased, -⟩ := exists_based_of_reach hne hplain (find_eq_ok_iff.1 h)
  exact hasDir_iff.2 ⟨home, hbased.find_root hroot⟩

/-! ### Straight below -/

/-- Without links, a path that goes on under names ends straight below the directory that
its root leads to. -/
theorem exists_home_of_reach (hlinks : d.NoLinks) (hspelled : Spelled trail way) (hne : way ≠ [])
    (h : d.reach why (root.below trail) = .ok place) :
    ∃ home, Based d root home ∧ place.loc = way.reverse ++ home := by
  obtain ⟨k, home, hbased, hends⟩ := exists_based_of_reach (hspelled.ne_nil_iff.2 hne)
    hspelled.plain h
  rw [hspelled.steps] at hends
  exact ⟨home, hbased, hends.downs hlinks⟩

/-- Without links, a path straight below a root leads to what stands at its place. -/
theorem find_below_iff (hlinks : d.NoLinks) (hroot : d.find root = .ok (l, .directory))
    (hspelled : Spelled trail way) (hne : way ≠ []) :
    d.find (root.below trail) = .ok (loc, e) ↔ loc = way.reverse ++ l ∧ d.entryAt loc = some e := by
  constructor
  · intro hfind
    have hreach := find_eq_ok_iff.1 hfind
    obtain ⟨home, hbased, hloc⟩ := exists_home_of_reach hlinks hspelled hne hreach
    obtain rfl := hbased.unique (based_of_find hroot)
    exact ⟨hloc, entryAt_of_reach hreach⟩
  · rintro ⟨rfl, he⟩
    obtain ⟨above, n, rfl⟩ := (List.eq_nil_or_concat' way).resolve_left hne
    rw [List.reverse_concat, List.cons_append] at he ⊢
    have habove : d.entryAt (above.reverse ++ l) = some .directory :=
      entryAt_tail (he ▸ Option.some_ne_none e)
    obtain ⟨k, hreach⟩ := exists_reach_spelled hroot
    rw [find, hreach .look trail _ hne hspelled, List.map_append, walk_downs habove (by simp),
      List.map_singleton, walk_down, if_neg (by simp), he]
    cases e with
    | directory => simp only [walk_nil, ok_bind, Place.found]
    | file bytes => rfl
    | link target => exact absurd he (hlinks _ target)

theorem has_below_iff (hlinks : d.NoLinks) (hroot : d.find root = .ok (l, .directory))
    (hspelled : Spelled trail way) (hne : way ≠ []) :
    d.has (root.below trail) = true ↔ d.entryAt (way.reverse ++ l) ≠ none := by
  rw [has_iff, Option.ne_none_iff_exists']
  constructor
  · rintro ⟨loc, e, hfind⟩
    obtain ⟨rfl, he⟩ := (find_below_iff hlinks hroot hspelled hne).1 hfind
    exact ⟨e, he⟩
  · rintro ⟨e, he⟩
    exact ⟨_, e, (find_below_iff hlinks hroot hspelled hne).2 ⟨rfl, he⟩⟩

/-- A path to a file ends in a name. -/
theorem exists_spelled_of_reach_file {bytes : ByteArray} (hspelled : Spelled init way)
    (hlast : last.IsPlain) (hnul : '\x00' ∉ last)
    (h : d.reach why (root.below (init ++ [last])) = .ok (.taken loc (.file bytes))) :
    ∃ n, Spelled (init ++ [last]) (way ++ [n]) := by
  have hplain : ∀ s ∈ init ++ [last], s.IsPlain := by
    simpa [or_imp, forall_and] using ⟨hspelled.plain, hlast⟩
  obtain ⟨k, home, -, hends⟩ := exists_based_of_reach (by simp) hplain h
  rw [List.map_append, List.map_singleton] at hends
  obtain ⟨k', mid, -, hends⟩ := hends.split (by simp)
  -- no other step ends at a file
  cases hs : Step.ofSegment last with
  | down n => exact ⟨n, hspelled.append hlast hnul hs⟩
  | stay =>
    rw [hs] at hends
    rcases hends with - | hends
    cases hends
  | slash => exact absurd hs (ofSegment_ne_slash last)
  | up =>
    rw [hs] at hends
    rcases hends with - | - | - | hends
    cases hends
  | overlong =>
    rw [hs] at hends
    cases hends

/-- What a path finds directly below its root is what stands there. -/
theorem Based.find_child {s : Path.Segment} (h : Based d root l) (hspelled : Spelled [s] [n])
    (hlink : ∀ target, d.entryAt (n :: l) ≠ some (.link target)) :
    d.find (root.below [s]) =
      match d.entryAt (n :: l) with
      | none => .error .notFound
      | some e => .ok (n :: l, e) := by
  obtain ⟨k, hreach⟩ := h.exists_reach
  rw [find, hreach .look [s] (by simp) hspelled.plain hspelled.nul, hspelled.steps,
    List.map_singleton, walk_down, if_neg (by simp)]
  rcases he : d.entryAt (n :: l) with - | - | bytes | target
  · rfl
  · simp only [walk_nil, ok_bind, Place.found]
  · rfl
  · exact absurd he (hlink target)

/-! ### Directories made below a root -/

/-- Where the root leads to a directory, the directories made for a path below it are all
below it as well. -/
theorem MadeFor.exists_below {fuel : Nat} (hroot : d.find root = .ok (l, .directory))
    (hretains : Retains d d') (hnone : d.entryAt loc = none) (hplain : ∀ s ∈ trail, s.IsPlain)
    (h : MadeFor d (Path.ancestorsUpTo fuel (root.under trail)) d' loc) :
    ∃ upper, upper ≠ [] ∧ upper <+: trail ∧ d'.find (root.below upper) = .ok (loc, .directory) := by
  have hsettled : d.find root.settled = .ok (l, .directory) := find_settled hroot
  have hthere : d.hasDir root.settled = true := hasDir_iff.2 ⟨l, hsettled⟩
  obtain ⟨inner, p, outer, heq, hinner, hfind⟩ := h
  -- from the last segment up: the directory is the innermost, or made for the one above
  induction trail using List.reverseRecOn generalizing fuel inner with
  | nil =>
    obtain ⟨above, habove⟩ := Path.exists_ancestorsUpTo_eq_cons fuel root.settled
    rw [Path.under, if_pos rfl, habove] at heq
    rcases inner with - | ⟨q, inner⟩
    · obtain ⟨rfl, -⟩ := List.cons.inj heq
      have hsame := (hretains.find_directory hsettled).symm.trans hfind
      obtain rfl : l = loc := by simpa using hsame
      exact absurd (entryAt_of_find_eq hroot) (by simp [hnone])
    · obtain ⟨rfl, -⟩ := List.cons.inj heq
      simp [hinner root.settled List.mem_cons_self] at hthere
  | append_singleton init last ih =>
    obtain ⟨hinit, hlast⟩ : (∀ s ∈ init, s.IsPlain) ∧ last.IsPlain := by
      simpa [or_imp, forall_and] using hplain
    rcases inner with - | ⟨q, inner⟩
    · obtain ⟨above, habove⟩ := Path.exists_ancestorsUpTo_eq_cons fuel (root.under (init ++ [last]))
      rw [habove] at heq
      obtain ⟨rfl, -⟩ := List.cons.inj heq
      rw [Path.under, if_neg (by simp)] at hfind
      exact ⟨init ++ [last], by simp, List.prefix_rfl, hfind⟩
    · rw [Path.under, if_neg (by simp)] at heq
      rcases fuel with - | fuel
      · simp [Path.ancestorsUpTo] at heq
      · rw [Path.ancestorsUpTo, Path.parent?_below root hinit hlast] at heq
        obtain ⟨upper, hne, hpre, hfind'⟩ := ih hinit inner (List.cons.inj heq).2
          fun q hq => hinner q (List.mem_cons_of_mem _ hq)
        exact ⟨upper, hne, hpre.trans (List.prefix_append _ _), hfind'⟩

/-- Without links these directories are straight below that of the root. -/
theorem MadeFor.exists_names (hlinks : d'.NoLinks) (hroot : d.find root = .ok (l, .directory))
    (hretains : Retains d d') (hnone : d.entryAt loc = none) (hspelled : Spelled trail way)
    (h : MadeFor d (root.under trail).ancestors d' loc) :
    ∃ names, names ≠ [] ∧ names <+: way ∧ loc = names.reverse ++ l := by
  obtain ⟨upper, hne, hpre, hfind⟩ := h.exists_below hroot hretains hnone hspelled.plain
  obtain ⟨names, hnames, hupper⟩ := hspelled.of_prefix hpre
  obtain ⟨home, hbased, hloc⟩ := exists_home_of_reach hlinks hupper (hupper.ne_nil_iff.1 hne)
    (find_eq_ok_iff.1 hfind)
  obtain rfl := hbased.unique ((based_of_find hroot).mono hretains)
  exact ⟨names, hupper.ne_nil_iff.1 hne, hnames, hloc⟩

end Rulebook.Disk
