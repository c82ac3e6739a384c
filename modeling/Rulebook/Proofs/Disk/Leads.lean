/-
Rulebook/Proofs/Disk/Leads.lean

Where ways to directories lead.  `Leads` is `Ends` for the ways that end in a directory, and
says besides how many links may still be met there, so that ways can be put together.  The
walk finds the directory exactly when the relation holds (`walk_eq_directory_iff`).

From the relation three laws are read off by induction:

* a way goes on from where its first part leads (`Leads.walk_append`, `Leads.split`), and
  any way that goes on leads to a directory first (`Ends.split`);
* only the steps that move count (`Leads.of_moves_eq`), so that paths which say the same
  lead to the same directory (`find_directory_of_agrees`);
* a way leads to the same directory on every disk that keeps the directories and the
  links of the first (`Leads.mono`).
-/
import Rulebook.Disk.Change
import Rulebook.Proofs.Disk.Ends
import Rulebook.Proofs.Outcome

namespace Rulebook.Disk

variable {d : Disk} {why : Purpose} {k k' : Nat} {way rest more : List Step} {loc l : Location}
variable {place : Place}

/-! ### Ways to directories -/

/-- `Leads d k way loc k' l`: with `k` links left, the way from the directory `loc` ends
in the directory `l`, and `k'` links are left there. -/
inductive Leads (d : Disk) : Nat → List Step → Location → Nat → Location → Prop
  | here {k : Nat} {loc : Location} : Leads d k [] loc k loc
  | stay {k k' : Nat} {rest : List Step} {loc l : Location} :
      Leads d k rest loc k' l → Leads d k (.stay :: rest) loc k' l
  | slash {k k' : Nat} {rest : List Step} {loc l : Location} :
      Leads d k rest loc k' l → Leads d k (.slash :: rest) loc k' l
  | up {k k' : Nat} {rest : List Step} {loc l : Location} :
      Leads d k rest loc.tail k' l → Leads d k (.up :: rest) loc k' l
  | down {k k' : Nat} {n : Name} {rest : List Step} {loc l : Location} :
      d.entryAt (n :: loc) = some .directory → Leads d k rest (n :: loc) k' l →
        Leads d k (.down n :: rest) loc k' l
  | link {k k' : Nat} {n : Name} {target : Path} {rest : List Step} {loc l : Location} :
      d.entryAt (n :: loc) = some (.link target) →
        Leads d k (steps target ++ rest) (origin target loc) k' l →
          Leads d (k + 1) (.down n :: rest) loc k' l

/-- A way goes on from where its first part leads.  A file is written under a name, so
for writing there has to be more of a way than a slash. -/
theorem Leads.walk_append (h : Leads d k way loc k' l)
    (hmore : why = .write → more ≠ [] ∧ more ≠ [.slash]) :
    walk d why k (way ++ more) loc = walk d why k' more l := by
  have hstop : ∀ rest : List Step, ¬ (why = .write ∧ rest ++ more = [.slash]) := by
    rintro rest ⟨hwrite, heq⟩
    rcases rest with - | ⟨s, rest⟩
    · exact (hmore hwrite).2 heq
    · exact (hmore hwrite).1 (List.append_eq_nil_iff.1 (List.cons.inj heq).2).2
  induction h with
  | here => rfl
  | stay _ ih | slash _ ih | up _ ih => simpa using ih
  | down hd _ ih =>
    rw [List.cons_append, walk_down, if_neg (hstop _), hd]
    exact ih
  | link hl _ ih =>
    rw [List.cons_append, walk_down, if_neg (hstop _), hl]
    show walk d why _ _ _ = _
    rw [← List.append_assoc]
    exact ih

/-- A way leads to a directory when it ends there. -/
theorem ends_directory_iff :
    Ends d .look k way loc (.taken l .directory) ↔ ∃ k', Leads d k way loc k' l := by
  constructor
  · intro h
    generalize hplace : Place.taken l .directory = place at h
    induction h with
    | here =>
      obtain ⟨rfl, -⟩ := Place.taken.inj hplace
      exact ⟨_, .here⟩
    | stay _ ih =>
      obtain ⟨k', hl⟩ := ih hplace
      exact ⟨k', hl.stay⟩
    | slash _ ih =>
      obtain ⟨k', hl⟩ := ih hplace
      exact ⟨k', hl.slash⟩
    | up _ ih =>
      obtain ⟨k', hl⟩ := ih hplace
      exact ⟨k', hl.up⟩
    | down _ hd _ ih =>
      obtain ⟨k', hl⟩ := ih hplace
      exact ⟨k', hl.down hd⟩
    | link _ hlink _ ih =>
      obtain ⟨k', hl⟩ := ih hplace
      exact ⟨k', hl.link hlink⟩
    | file _ | free _ => cases hplace
  · rintro ⟨k', h⟩
    induction h with
    | here => exact .here
    | stay _ ih => exact ih.stay
    | slash _ ih => exact ih.slash
    | up _ ih => exact ih.up
    | down hd _ ih => exact ih.down (by simp) hd
    | link hl _ ih => exact ih.link (by simp) hl

/-- The walk that looks for a directory finds it where the way leads. -/
theorem walk_eq_directory_iff :
    walk d .look k way loc = .ok (.taken l .directory) ↔ ∃ k', Leads d k way loc k' l := by
  rw [walk_eq_ok_iff, ends_directory_iff]

/-- A way ends in a directory if it starts in one. -/
theorem Leads.entryAt (h : Leads d k way loc k' l) (hloc : d.entryAt loc = some .directory) :
    d.entryAt l = some .directory :=
  (ends_directory_iff.2 ⟨k', h⟩).entryAt hloc

/-- A way can be parted anywhere. -/
theorem Leads.split {way' : List Step} (h : Leads d k (way ++ way') loc k' l) :
    ∃ m mid, Leads d k way loc m mid ∧ Leads d m way' mid k' l := by
  generalize hw : way ++ way' = whole at h
  -- the first part is over at once, or its first step is the first of the whole way
  induction h generalizing way with
  | here =>
    obtain ⟨rfl, rfl⟩ := List.append_eq_nil_iff.1 hw
    exact ⟨_, _, .here, .here⟩
  | stay h ih =>
    rcases List.append_eq_cons_iff.1 hw with ⟨rfl, rfl⟩ | ⟨way, rfl, rfl⟩
    · exact ⟨_, _, .here, h.stay⟩
    · obtain ⟨m, mid, hfirst, hlater⟩ := ih rfl
      exact ⟨m, mid, hfirst.stay, hlater⟩
  | slash h ih =>
    rcases List.append_eq_cons_iff.1 hw with ⟨rfl, rfl⟩ | ⟨way, rfl, rfl⟩
    · exact ⟨_, _, .here, h.slash⟩
    · obtain ⟨m, mid, hfirst, hlater⟩ := ih rfl
      exact ⟨m, mid, hfirst.slash, hlater⟩
  | up h ih =>
    rcases List.append_eq_cons_iff.1 hw with ⟨rfl, rfl⟩ | ⟨way, rfl, rfl⟩
    · exact ⟨_, _, .here, h.up⟩
    · obtain ⟨m, mid, hfirst, hlater⟩ := ih rfl
      exact ⟨m, mid, hfirst.up, hlater⟩
  | down hd h ih =>
    rcases List.append_eq_cons_iff.1 hw with ⟨rfl, rfl⟩ | ⟨way, rfl, rfl⟩
    · exact ⟨_, _, .here, h.down hd⟩
    · obtain ⟨m, mid, hfirst, hlater⟩ := ih rfl
      exact ⟨m, mid, hfirst.down hd, hlater⟩
  | link hl h ih =>
    rcases List.append_eq_cons_iff.1 hw with ⟨rfl, rfl⟩ | ⟨way, rfl, rfl⟩
    · exact ⟨_, _, .here, h.link hl⟩
    · -- the steps of the link's target come before those that are left of the first part
      obtain ⟨m, mid, hfirst, hlater⟩ := ih (List.append_assoc _ _ _)
      exact ⟨m, mid, hfirst.link hl, hlater⟩

/-- A way that goes on leads to a directory first. -/
theorem Ends.split (h : Ends d why k (way ++ more) loc place) (hmore : more ≠ []) :
    ∃ k' mid, Leads d k way loc k' mid ∧ Ends d why k' more mid place := by
  generalize hw : way ++ more = whole at h
  -- the first part is over at once, or its first step is the first of the whole way
  induction h generalizing way with
  | here => exact absurd (List.append_eq_nil_iff.1 hw).2 hmore
  | stay h ih =>
    rcases List.append_eq_cons_iff.1 hw with ⟨rfl, rfl⟩ | ⟨way, rfl, rfl⟩
    · exact ⟨_, _, .here, h.stay⟩
    · obtain ⟨k', mid, hfirst, hlater⟩ := ih rfl
      exact ⟨k', mid, hfirst.stay, hlater⟩
  | slash h ih =>
    rcases List.append_eq_cons_iff.1 hw with ⟨rfl, rfl⟩ | ⟨way, rfl, rfl⟩
    · exact ⟨_, _, .here, h.slash⟩
    · obtain ⟨k', mid, hfirst, hlater⟩ := ih rfl
      exact ⟨k', mid, hfirst.slash, hlater⟩
  | up h ih =>
    rcases List.append_eq_cons_iff.1 hw with ⟨rfl, rfl⟩ | ⟨way, rfl, rfl⟩
    · exact ⟨_, _, .here, h.up⟩
    · obtain ⟨k', mid, hfirst, hlater⟩ := ih rfl
      exact ⟨k', mid, hfirst.up, hlater⟩
  | down hstop hd h ih =>
    rcases List.append_eq_cons_iff.1 hw with ⟨rfl, rfl⟩ | ⟨way, rfl, rfl⟩
    · exact ⟨_, _, .here, h.down hstop hd⟩
    · obtain ⟨k', mid, hfirst, hlater⟩ := ih rfl
      exact ⟨k', mid, hfirst.down hd, hlater⟩
  | link hstop hl h ih =>
    rcases List.append_eq_cons_iff.1 hw with ⟨rfl, rfl⟩ | ⟨way, rfl, rfl⟩
    · exact ⟨_, _, .here, h.link hstop hl⟩
    · -- the steps of the link's target come before those that are left of the first part
      obtain ⟨k', mid, hfirst, hlater⟩ := ih (List.append_assoc _ _ _)
      exact ⟨k', mid, hfirst.link hl, hlater⟩
  | file hf =>
    rcases List.append_eq_cons_iff.1 hw with ⟨rfl, rfl⟩ | ⟨way, rfl, hnil⟩
    · exact ⟨_, _, .here, .file hf⟩
    · exact absurd (List.append_eq_nil_iff.1 hnil.symm).2 hmore
  | free hn =>
    rcases List.append_eq_cons_iff.1 hw with ⟨rfl, rfl⟩ | ⟨way, rfl, hnil⟩
    · exact ⟨_, _, .here, .free hn⟩
    · exact absurd (List.append_eq_nil_iff.1 hnil.symm).2 hmore

/-- What leads to a directory still does when directories and links are kept. -/
theorem Leads.mono {d' : Disk} (h : Leads d k way loc k' l)
    (hdir : ∀ loc, d.entryAt loc = some .directory → d'.entryAt loc = some .directory)
    (hlink : ∀ loc target, d.entryAt loc = some (.link target) →
      d'.entryAt loc = some (.link target)) :
    Leads d' k way loc k' l := by
  induction h with
  | here => exact .here
  | stay _ ih => exact ih.stay
  | slash _ ih => exact ih.slash
  | up _ ih => exact ih.up
  | down hd _ ih => exact ih.down (hdir _ hd)
  | link hl _ ih => exact ih.link (hlink _ _ hl)

/-! ### Steps that move -/

/-- Whether a step leads anywhere else. -/
def Step.moves : Step → Bool
  | .stay | .slash => false
  | .up | .down _ | .overlong => true

theorem Leads.append_idle {idle : List Step} (hidle : ∀ s ∈ idle, s.moves = false)
    (h : Leads d k way loc k' l) : Leads d k (idle ++ way) loc k' l := by
  induction idle with
  | nil => exact h
  | cons s idle ih =>
    have hs : s.moves = false := hidle s List.mem_cons_self
    have hrest := ih fun t ht => hidle t (List.mem_cons_of_mem _ ht)
    cases s with
    | stay => exact hrest.stay
    | slash => exact hrest.slash
    | up | down _ | overlong => simp [Step.moves] at hs

/-- Only the steps that move decide where a way leads. -/
theorem Leads.of_moves_eq {way' : List Step} (h : Leads d k way loc k' l)
    (heq : way'.filter Step.moves = way.filter Step.moves) : Leads d k way' loc k' l := by
  -- before each step of the one way, the other may have steps that do not move
  induction h generalizing way' with
  | here =>
    have hidle : ∀ s ∈ way', s.moves = false := by simpa [List.filter_eq_nil_iff] using heq
    simpa using Leads.append_idle hidle Leads.here
  | stay _ ih | slash _ ih => exact ih (by simpa [Step.moves] using heq)
  | up _ ih =>
    obtain ⟨idle, rest, rfl, hidle, -, hrest⟩ := List.filter_eq_cons_iff.1 heq
    exact Leads.append_idle (by simpa using hidle) (ih hrest).up
  | down hd _ ih =>
    obtain ⟨idle, rest, rfl, hidle, -, hrest⟩ := List.filter_eq_cons_iff.1 heq
    exact Leads.append_idle (by simpa using hidle) ((ih hrest).down hd)
  | link hl _ ih =>
    obtain ⟨idle, rest, rfl, hidle, -, hrest⟩ := List.filter_eq_cons_iff.1 heq
    exact Leads.append_idle (by simpa using hidle)
      ((ih (by rw [List.filter_append, List.filter_append, hrest])).link hl)

/-! ### Paths to directories -/

theorem checkPath_eq_ok_iff {p : Path} :
    checkPath p = .ok () ↔ '\x00' ∉ p.chars ∧ p.chars ≠ [] := by
  rw [checkPath]
  by_cases hnul : '\x00' ∈ p.chars
  · simp [hnul]
  · by_cases hnil : p.chars = [] <;> simp [hnul, hnil]

/-- A path stands for a directory when it can be gone at all and its steps lead there. -/
theorem find_eq_directory_iff {p : Path} :
    d.find p = .ok (l, .directory) ↔
      checkPath p = .ok () ∧ ∃ k, Leads d maxLinks (steps p) (origin p d.here) k l := by
  rw [find, bind_eq_ok_iff, ← walk_eq_directory_iff]
  constructor
  · rintro ⟨place, hreach, hfound⟩
    obtain ⟨⟨⟩, hcheck, hwalk⟩ := bind_eq_ok_iff.1 hreach
    rcases place with ⟨loc, e⟩ | ⟨n, dir⟩
    · obtain ⟨rfl, rfl⟩ : loc = l ∧ e = .directory := by simpa [Place.found] using hfound
      exact ⟨hcheck, hwalk⟩
    · simp [Place.found] at hfound
  · rintro ⟨hcheck, hwalk⟩
    exact ⟨_, bind_eq_ok_iff.2 ⟨(), hcheck, hwalk⟩, rfl⟩

/-- There is a directory where a path leads to one. -/
theorem entryAt_of_find_eq {p : Path} (h : d.find p = .ok (l, .directory)) :
    d.entryAt l = some .directory := by
  obtain ⟨-, k, hleads⟩ := find_eq_directory_iff.1 h
  refine hleads.entryAt ?_
  rw [origin]
  split
  · exact d.entryAt_root
  · exact d.entryAt_here

theorem ofSegment_ne_slash (s : Path.Segment) : Step.ofSegment s ≠ .slash := by
  rw [Step.ofSegment]
  split
  · nofun
  · split
    · nofun
    · split <;> nofun

/-- A segment that says something and is the text of no name leads up, or is too long. -/
theorem ofSegment_eq_of_no_name {s : Path.Segment} (h : s.IsPlain)
    (hno : ∀ n, Step.ofSegment s ≠ .down n) :
    Step.ofSegment s = if s = ['.', '.'] then .up else .overlong := by
  rw [Step.ofSegment, if_neg h.ne_dot] at hno ⊢
  split
  · rfl
  · next hdots =>
    rw [if_neg hdots] at hno
    rcases hname : Name.ofChars? s with - | n
    · rfl
    · exact absurd (by rw [hname]) (hno n)

theorem moves_ofSegment (s : Path.Segment) : (Step.ofSegment s).moves = !decide (s = ['.']) := by
  rw [Step.ofSegment]
  by_cases hdot : s = ['.']
  · simp [hdot, Step.moves]
  · by_cases hdots : s = ['.', '.']
    · simp [hdots, Step.moves]
    · rcases h : Name.ofChars? s with - | n <;> simp [hdot, hdots, Step.moves]

/-- The steps of a path that move are those of its segments that say something. -/
theorem moves_steps (p : Path) :
    (steps p).filter Step.moves = (p.anatomy.2.filter (!·.isIdle)).map .ofSegment := by
  have hslash : (if p.anatomy.2.getLast? = some [] then [Step.slash] else []).filter Step.moves =
      [] := by
    split <;> rfl
  rw [steps, Step.ofSegments, List.filter_append, hslash, List.append_nil, List.filter_map,
    List.filter_filter]
  refine congrArg _ (List.filter_congr fun s _ => ?_)
  simp [moves_ofSegment, Path.Segment.isIdle, Bool.and_comm]

/-- Paths that say the same lead to the same directory. -/
theorem find_directory_of_agrees {p q : Path} (hpq : q.agrees p = true)
    (hq : checkPath q = .ok ()) (h : d.find p = .ok (l, .directory)) :
    d.find q = .ok (l, .directory) := by
  obtain ⟨hstart, hsegments⟩ := Path.agrees_iff.1 hpq
  obtain ⟨-, k, hleads⟩ := find_eq_directory_iff.1 h
  have horigin : origin q d.here = origin p d.here := by
    have habs : q.isAbsolute = p.isAbsolute := by
      rw [Bool.eq_iff_iff, Path.isAbsolute_iff, Path.isAbsolute_iff, hstart]
    rw [origin, origin, habs]
  refine find_eq_directory_iff.2 ⟨hq, k, ?_⟩
  rw [horigin]
  exact hleads.of_moves_eq (by rw [moves_steps, moves_steps, hsegments])

/-! ### Paths below a root -/

variable {root : Path} {trail : List Path.Segment}

theorem steps_below (root : Path) (hne : trail ≠ []) (h : ∀ s ∈ trail, s.IsPlain) :
    steps (root.below trail) = (steps root).filter (· ≠ .slash) ++ trail.map .ofSegment := by
  have hlast : (root.trunk ++ trail).getLast? ≠ some [] := by
    rw [List.getLast?_append_of_ne_nil _ hne]
    exact fun hl => (h [] (List.mem_of_getLast? hl)).ne_nil rfl
  have hslash : (if root.anatomy.2.getLast? = some [] then [Step.slash] else []).filter
      (· ≠ .slash) = [] := by
    split <;> rfl
  have htrunk : root.trunk.filter (· ≠ []) = root.anatomy.2.filter (· ≠ []) := by
    rw [Path.trunk, Path.trunkOf]
    split
    · next hl =>
      obtain ⟨init, hinit⟩ := List.getLast?_eq_some_iff.1 hl
      simp [hinit]
    · rfl
  have htrail : trail.filter (· ≠ []) = trail := by
    rw [List.filter_eq_self]
    intro s hs
    simpa using (h s hs).ne_nil
  have hsteps : ∀ ss : List Path.Segment, (ss.map Step.ofSegment).filter (· ≠ .slash) =
      ss.map .ofSegment := by
    intro ss
    rw [List.filter_eq_self]
    intro s hs
    obtain ⟨segment, -, rfl⟩ := List.mem_map.1 hs
    simpa using ofSegment_ne_slash segment
  rw [steps, Path.anatomy_below root hne h, Step.ofSegments, if_neg hlast, List.filter_append,
    htrunk, htrail, List.append_nil, List.map_append, steps, Step.ofSegments, List.filter_append,
    hslash, List.append_nil, hsteps]

theorem origin_below (root : Path) (hne : trail ≠ []) (h : ∀ s ∈ trail, s.IsPlain)
    (dir : Location) : origin (root.below trail) dir = origin root dir := by
  have habs : (root.below trail).isAbsolute = root.isAbsolute := by
    rw [Bool.eq_iff_iff, Path.isAbsolute_iff, Path.isAbsolute_iff, Path.anatomy_below root hne h]
  rw [origin, origin, habs]

theorem checkPath_below (hroot : '\x00' ∉ root.chars) (hne : trail ≠ [])
    (h : ∀ s ∈ trail, s.IsPlain) (hnul : ∀ s ∈ trail, '\x00' ∉ s) :
    checkPath (root.below trail) = .ok () := by
  refine checkPath_eq_ok_iff.2 ⟨fun hmem => ?_, Path.chars_below_ne_nil root hne h⟩
  rcases Path.mem_chars_below hmem with hc | hc | ⟨s, hs, hc⟩
  · simp at hc
  · exact hroot hc
  · exact hnul s hs hc

/-- A slash at the end does not move. -/
theorem moves_filter_slash (way : List Step) :
    (way.filter (· ≠ .slash)).filter Step.moves = way.filter Step.moves := by
  rw [List.filter_filter]
  refine List.filter_congr fun s _ => ?_
  cases s <;> simp [Step.moves]

/-- The steps of a root that is a directory, apart from slashes, lead there. -/
theorem leads_root (hroot : d.find root = .ok (l, .directory)) :
    ∃ k, Leads d maxLinks ((steps root).filter (· ≠ .slash)) (origin root d.here) k l := by
  obtain ⟨-, k, hleads⟩ := find_eq_directory_iff.1 hroot
  exact ⟨k, hleads.of_moves_eq (moves_filter_slash _)⟩

/-- Whether paths below a root go on from a directory: that which the root leads to, or
the working directory for an empty root. -/
structure Based (d : Disk) (root : Path) (home : Location) : Prop where
  nul : '\x00' ∉ root.chars
  leads : ∃ k, Leads d maxLinks ((steps root).filter (· ≠ .slash)) (origin root d.here) k home

theorem based_of_find (hroot : d.find root = .ok (l, .directory)) : Based d root l :=
  ⟨(checkPath_eq_ok_iff.1 (find_eq_directory_iff.1 hroot).1).1, leads_root hroot⟩

/-- A root that is not empty leads to the directory from which paths below it go on. -/
theorem Based.find_root (h : Based d root l) (hroot : root.chars ≠ []) :
    d.find root = .ok (l, .directory) := by
  obtain ⟨k, hleads⟩ := h.leads
  exact find_eq_directory_iff.2 ⟨checkPath_eq_ok_iff.2 ⟨h.nul, hroot⟩, k,
    hleads.of_moves_eq (moves_filter_slash _).symm⟩

/-- Paths below a root go on from where the root leads, with the links left that the root has
left. -/
theorem Leads.reach_below
    (hroot : Leads d maxLinks ((steps root).filter (· ≠ .slash)) (origin root d.here) k l)
    (hnulRoot : '\x00' ∉ root.chars) (why : Purpose) (hne : trail ≠ [])
    (h : ∀ s ∈ trail, s.IsPlain) (hnul : ∀ s ∈ trail, '\x00' ∉ s) :
    d.reach why (root.below trail) = walk d why k (trail.map .ofSegment) l := by
  have hcheck : checkPath (root.below trail) = .ok () := checkPath_below hnulRoot hne h hnul
  have hslash : trail.map Step.ofSegment ≠ [.slash] := by
    intro heq
    have hmem : Step.slash ∈ trail.map Step.ofSegment := by simp [heq]
    obtain ⟨s, -, hs⟩ := List.mem_map.1 hmem
    exact ofSegment_ne_slash s hs
  rw [reach, hcheck, ok_bind, steps_below root hne h, origin_below root hne h,
    hroot.walk_append fun _ => ⟨by simpa using hne, hslash⟩]

theorem Based.exists_reach (hroot : Based d root l) :
    ∃ k, ∀ (why : Purpose) (trail : List Path.Segment), trail ≠ [] →
      (∀ s ∈ trail, s.IsPlain) → (∀ s ∈ trail, '\x00' ∉ s) →
        d.reach why (root.below trail) = walk d why k (trail.map .ofSegment) l := by
  obtain ⟨k, hleads⟩ := hroot.leads
  exact ⟨k, fun why trail hne h hnul => hleads.reach_below hroot.nul why hne h hnul⟩

/-- The parent of what lies directly in a root that is a directory is that directory. -/
theorem find_settled (hroot : d.find root = .ok (l, .directory)) :
    d.find root.settled = .ok (l, .directory) := by
  obtain ⟨hnul, hne⟩ := checkPath_eq_ok_iff.1 (find_eq_directory_iff.1 hroot).1
  refine find_directory_of_agrees (Path.agrees_settled hne) ?_ hroot
  refine checkPath_eq_ok_iff.2 ⟨fun hmem => ?_, Path.chars_settled_ne_nil hne⟩
  rcases Path.mem_chars_settled hmem with hc | hc | hc
  · simp at hc
  · simp at hc
  · exact hnul hc

end Rulebook.Disk
