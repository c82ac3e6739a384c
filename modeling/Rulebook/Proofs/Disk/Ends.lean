/-
Rulebook/Proofs/Disk/Ends.lean

Where ways end.  `Disk.walk` takes the steps of a way one by one and counts down the links
that may still be met.  `Ends` is the same as a relation, for all ways that end somewhere:
in a directory, at a file, or at a free name.  The walk finds a place exactly when the
relation holds (`walk_eq_ok_iff`), and what a disk does with ways is read off it:

* what stands where a way ends (`Ends.entryAt`), that it is no link, and that it lies in a
  directory;
* a way ends where it did on every disk that keeps the directories and the links, if
  something stands there (`Ends.of_keeps`);
* where there are no links, a row of names ends straight below (`Ends.downs`).
-/
import Rulebook.Disk.Look
import Rulebook.Proofs.Path

namespace Rulebook.Disk

/-! ### Places -/

/-- Where a place is. -/
def Place.loc : Place → Location
  | .taken loc _ => loc
  | .free n dir => n :: dir

/-- What stands at a place. -/
def Place.entry? : Place → Option Entry
  | .taken _ e => some e
  | .free _ _ => none

variable {d d' : Disk} {why : Purpose} {k : Nat} {way rest : List Step} {loc : Location}
variable {n : Name} {place : Place} {e : Entry}

/-! ### Steps, one by one -/

/-- How a way goes on where a link is met, with so many links left. -/
def follow (d : Disk) (why : Purpose) : Nat → Path → Location → List Step → Except Fault Place
  | 0, _, _, _ => .error .tooManyLinks
  | k + 1, target, dir, rest => walk d why k (steps target ++ rest) (origin target dir)

theorem walk_eq (d : Disk) (why : Purpose) (k : Nat) (way : List Step) (loc : Location) :
    walk d why k way loc = advance d why (follow d why k) way loc (d.inside loc) := by
  cases k <;> rfl

@[simp] theorem walk_nil : walk d why k [] loc = .ok (.taken loc .directory) := by
  rw [walk_eq, advance]

@[simp] theorem walk_stay : walk d why k (.stay :: rest) loc = walk d why k rest loc := by
  rw [walk_eq, walk_eq, advance]

@[simp] theorem walk_slash : walk d why k (.slash :: rest) loc = walk d why k rest loc := by
  rw [walk_eq, walk_eq, advance]

@[simp] theorem walk_up : walk d why k (.up :: rest) loc = walk d why k rest loc.tail := by
  rw [walk_eq, walk_eq, advance]

@[simp] theorem walk_overlong : walk d why k (.overlong :: rest) loc =
    .error (if why = .write ∧ rest = [.slash] then .isDirectory else .nameTooLong) := by
  rw [walk_eq, advance]

theorem walk_down {n : Name} : walk d why k (.down n :: rest) loc =
    if why = .write ∧ rest = [.slash] then .error .isDirectory
    else match d.entryAt (n :: loc) with
      | none => if rest = [] then .ok (.free n loc) else .error .notFound
      | some .directory => walk d why k rest (n :: loc)
      | some (.link target) => follow d why k target loc rest
      | some (.file bytes) =>
        if rest = [] then .ok (.taken (n :: loc) (.file bytes)) else .error .notDirectory := by
  rw [walk_eq, advance_down]
  rcases d.entryAt (n :: loc) with - | - | bytes | target <;> simp only [walk_eq]

/-! ### Ways and their ends -/

/-- `Ends d why k way loc place`: with `k` links left, the way from the directory `loc`
ends at a place. -/
inductive Ends (d : Disk) (why : Purpose) : Nat → List Step → Location → Place → Prop
  | here {k : Nat} {loc : Location} : Ends d why k [] loc (.taken loc .directory)
  | stay {k : Nat} {rest : List Step} {loc : Location} {place : Place} :
      Ends d why k rest loc place → Ends d why k (.stay :: rest) loc place
  | slash {k : Nat} {rest : List Step} {loc : Location} {place : Place} :
      Ends d why k rest loc place → Ends d why k (.slash :: rest) loc place
  | up {k : Nat} {rest : List Step} {loc : Location} {place : Place} :
      Ends d why k rest loc.tail place → Ends d why k (.up :: rest) loc place
  | down {k : Nat} {n : Name} {rest : List Step} {loc : Location} {place : Place} :
      ¬ (why = .write ∧ rest = [.slash]) → d.entryAt (n :: loc) = some .directory →
        Ends d why k rest (n :: loc) place → Ends d why k (.down n :: rest) loc place
  | link {k : Nat} {n : Name} {target : Path} {rest : List Step} {loc : Location}
      {place : Place} :
      ¬ (why = .write ∧ rest = [.slash]) → d.entryAt (n :: loc) = some (.link target) →
        Ends d why k (steps target ++ rest) (origin target loc) place →
          Ends d why (k + 1) (.down n :: rest) loc place
  | file {k : Nat} {n : Name} {loc : Location} {bytes : ByteArray} :
      d.entryAt (n :: loc) = some (.file bytes) →
        Ends d why k [.down n] loc (.taken (n :: loc) (.file bytes))
  | free {k : Nat} {n : Name} {loc : Location} :
      d.entryAt (n :: loc) = none → Ends d why k [.down n] loc (.free n loc)

theorem ends_of_walk (h : walk d why k way loc = .ok place) : Ends d why k way loc place := by
  -- on the links left, and then on the steps
  induction k using Nat.strongRecOn generalizing way loc with
  | ind k ihk =>
    induction way generalizing loc with
    | nil =>
      obtain rfl : .taken loc .directory = place := by simpa using h
      exact .here
    | cons s rest ih =>
      cases s with
      | stay => exact .stay (ih (by simpa using h))
      | slash => exact .slash (ih (by simpa using h))
      | up => exact .up (ih (by simpa using h))
      | overlong => simp at h
      | down n =>
        rw [walk_down] at h
        split at h
        · cases h
        · next hstop =>
          rcases he : d.entryAt (n :: loc) with - | - | bytes | target
          · rw [he] at h
            by_cases hr : rest = []
            · obtain rfl : .free n loc = place := by simpa [hr] using h
              exact hr ▸ .free he
            · simp [hr] at h
          · rw [he] at h
            exact .down hstop he (ih h)
          · rw [he] at h
            by_cases hr : rest = []
            · obtain rfl : .taken (n :: loc) (.file bytes) = place := by simpa [hr] using h
              exact hr ▸ .file he
            · simp [hr] at h
          · rw [he] at h
            rcases k with - | k
            · simp [follow] at h
            · exact .link hstop he (ihk k (Nat.lt_succ_self k) h)

/-- The walk ends where the way ends. -/
theorem walk_eq_ok_iff : walk d why k way loc = .ok place ↔ Ends d why k way loc place := by
  refine ⟨ends_of_walk, fun h => ?_⟩
  induction h with
  | here => exact walk_nil
  | stay _ ih | slash _ ih | up _ ih => simpa using ih
  | down hstop hd _ ih =>
    rw [walk_down, if_neg hstop, hd]
    exact ih
  | link hstop hl _ ih =>
    rw [walk_down, if_neg hstop, hl]
    exact ih
  | file hf =>
    rw [walk_down, if_neg (by simp), hf]
    rfl
  | free hn =>
    rw [walk_down, if_neg (by simp), hn]
    rfl

/-! ### What stands at the end -/

theorem entryAt_origin (d : Disk) (p : Path) (hloc : d.entryAt loc = some .directory) :
    d.entryAt (origin p loc) = some .directory := by
  rw [origin]
  split
  · exact d.entryAt_root
  · exact hloc

theorem entryAt_up (hloc : d.entryAt loc = some .directory) :
    d.entryAt loc.tail = some .directory := by
  rcases loc with - | ⟨n, loc⟩
  · exact hloc
  · exact entryAt_tail (hloc ▸ Option.some_ne_none _)

/-- The place where a way ends is as the disk has it. -/
theorem Ends.entryAt (h : Ends d why k way loc place) (hloc : d.entryAt loc = some .directory) :
    d.entryAt place.loc = place.entry? := by
  induction h with
  | here => exact hloc
  | stay _ ih | slash _ ih => exact ih hloc
  | up _ ih => exact ih (entryAt_up hloc)
  | down _ hd _ ih => exact ih hd
  | link _ _ _ ih => exact ih (entryAt_origin d _ hloc)
  | file hf => exact hf
  | free hn => exact hn

/-- A way ends in a directory, or under a name in one. -/
theorem Ends.entryAt_dir (h : Ends d why k way loc place)
    (hloc : d.entryAt loc = some .directory) {dir : Location} (hplace : place.loc = n :: dir) :
    d.entryAt dir = some .directory := by
  induction h with
  | here =>
    obtain rfl : _ = n :: dir := hplace
    exact entryAt_up hloc
  | stay _ ih | slash _ ih => exact ih hloc hplace
  | up _ ih => exact ih (entryAt_up hloc) hplace
  | down _ hd _ ih => exact ih hd hplace
  | link _ _ _ ih => exact ih (entryAt_origin d _ hloc) hplace
  | file _ | free _ =>
    obtain ⟨-, rfl⟩ := List.cons.inj hplace
    exact hloc

/-- No way ends at a link. -/
theorem Ends.entry?_ne_link (h : Ends d why k way loc place) (target : Path) :
    place.entry? ≠ some (.link target) := by
  induction h with
  | here | file _ | free _ => exact nofun
  | stay _ ih | slash _ ih | up _ ih | down _ _ _ ih | link _ _ _ ih => exact ih

/-! ### Laws of ways -/

/-- Where something can be written, it can be looked at. -/
theorem Ends.look (h : Ends d why k way loc place) : Ends d .look k way loc place := by
  induction h with
  | here => exact .here
  | stay _ ih => exact ih.stay
  | slash _ ih => exact ih.slash
  | up _ ih => exact ih.up
  | down _ hd _ ih => exact ih.down (by simp) hd
  | link _ hl _ ih => exact ih.link (by simp) hl
  | file hf => exact .file hf
  | free hn => exact .free hn

/-- A way ends where it did on a disk that keeps directories and links, if something
stands there that is no link. -/
theorem Ends.of_keeps (h : Ends d why k way loc place) (hloc : d.entryAt loc = some .directory)
    (hdir : ∀ loc, d.entryAt loc = some .directory → d'.entryAt loc = some .directory)
    (hlink : ∀ loc target, d.entryAt loc = some (.link target) →
      d'.entryAt loc = some (.link target))
    (he : d'.entryAt place.loc = some e) (hne : ∀ target, e ≠ .link target) :
    Ends d' why k way loc (.taken place.loc e) := by
  have hname : ∀ (k : Nat) (n : Name) (loc : Location), d'.entryAt (n :: loc) = some e →
      Ends d' why k [.down n] loc (.taken (n :: loc) e) := by
    intro k n loc he
    cases e with
    | directory => exact .down (by simp) he .here
    | file bytes => exact .file he
    | link target => exact absurd rfl (hne target)
  induction h with
  | here =>
    obtain rfl : .directory = e := Option.some.inj ((hdir _ hloc).symm.trans he)
    exact .here
  | stay _ ih => exact (ih hloc he).stay
  | slash _ ih => exact (ih hloc he).slash
  | up _ ih => exact (ih (entryAt_up hloc) he).up
  | down hstop hd _ ih => exact (ih hd he).down hstop (hdir _ hd)
  | link hstop hl _ ih => exact (ih (entryAt_origin d _ hloc) he).link hstop (hlink _ _ hl)
  | file _ | free _ => exact hname _ _ _ he

/-! ### Disks without links -/

/-- Whether there are no links on a disk. -/
def NoLinks (d : Disk) : Prop := ∀ loc target, d.entryAt loc ≠ some (.link target)

theorem noLinks_empty : NoLinks empty := by
  intro loc target hloc
  rw [entryAt] at hloc
  generalize loc.reverse = way at hloc
  cases way <;> simp [empty, Forest.entry, Forest.at?, Forest.get?] at hloc

/-- Without links a row of names ends straight below where it starts. -/
theorem Ends.downs {names : List Name} (hlinks : d.NoLinks)
    (h : Ends d why k (names.map .down) loc place) : place.loc = names.reverse ++ loc := by
  induction names generalizing loc with
  | nil =>
    cases h
    rfl
  | cons n names ih =>
    rw [List.reverse_cons, List.append_assoc]
    generalize hnames : (n :: names).map Step.down = way at h
    cases h with
    | down _ _ h =>
      obtain ⟨hn, rfl⟩ := List.cons.inj hnames
      obtain rfl := Step.down.inj hn
      exact ih h
    | link _ hl _ => exact absurd hl (hlinks _ _)
    | file _ | free _ =>
      obtain ⟨hn, hnil⟩ := List.cons.inj hnames
      obtain rfl := Step.down.inj hn
      obtain rfl := List.map_eq_nil_iff.1 hnil
      rfl
    | here | stay _ | slash _ | up _ => cases hnames

end Rulebook.Disk
