/-
Rulebook/Proofs/Disk/Stops.lean

Where ways stop.  `Ends` is the relation of the ways that end somewhere; `Stops` is that of the
others, with the fault that they stop with.  Looking for something stops

* at a name that is free, whether it is the last one or one on the way, its own or one in the
  target of a link: nothing is found;
* at a file that more steps are to be taken from;
* at a link when too many have been followed, as in a loop of links;
* at a name that is longer than any can be.

A search finds nothing, with a fault, exactly when the relation holds (`walk_found_eq_error_iff`).
For a path it also counts whether it can be gone at all (`Refuses`, `find_eq_error_iff`).
-/
import Rulebook.Proofs.Disk.Leads

namespace Rulebook.Disk

variable {d : Disk} {k : Nat} {way rest : List Step} {loc : Location} {n : Name} {p : Path}
variable {fault : Fault}

/-! ### Ways and where they stop -/

/-- `Stops d k way loc fault`: with `k` links left, looking for the end of the way from the
directory `loc` stops with a fault. -/
inductive Stops (d : Disk) : Nat → List Step → Location → Fault → Prop
  | stay {k : Nat} {rest : List Step} {loc : Location} {fault : Fault} :
      Stops d k rest loc fault → Stops d k (.stay :: rest) loc fault
  | slash {k : Nat} {rest : List Step} {loc : Location} {fault : Fault} :
      Stops d k rest loc fault → Stops d k (.slash :: rest) loc fault
  | up {k : Nat} {rest : List Step} {loc : Location} {fault : Fault} :
      Stops d k rest loc.tail fault → Stops d k (.up :: rest) loc fault
  | down {k : Nat} {n : Name} {rest : List Step} {loc : Location} {fault : Fault} :
      d.entryAt (n :: loc) = some .directory → Stops d k rest (n :: loc) fault →
        Stops d k (.down n :: rest) loc fault
  | link {k : Nat} {n : Name} {target : Path} {rest : List Step} {loc : Location} {fault : Fault} :
      d.entryAt (n :: loc) = some (.link target) →
        Stops d k (steps target ++ rest) (origin target loc) fault →
          Stops d (k + 1) (.down n :: rest) loc fault
  /-- Nothing has the name, which may be the last or one of a directory on the way. -/
  | absent {k : Nat} {n : Name} {rest : List Step} {loc : Location} :
      d.entryAt (n :: loc) = none → Stops d k (.down n :: rest) loc .notFound
  /-- A file has the name of a directory on the way. -/
  | file {k : Nat} {n : Name} {rest : List Step} {loc : Location} {bytes : ByteArray} :
      d.entryAt (n :: loc) = some (.file bytes) → rest ≠ [] →
        Stops d k (.down n :: rest) loc .notDirectory
  | loop {n : Name} {target : Path} {rest : List Step} {loc : Location} :
      d.entryAt (n :: loc) = some (.link target) → Stops d 0 (.down n :: rest) loc .tooManyLinks
  | overlong {k : Nat} {rest : List Step} {loc : Location} :
      Stops d k (.overlong :: rest) loc .nameTooLong

theorem stops_of_walk (h : (walk d .look k way loc >>= Place.found) = .error fault) :
    Stops d k way loc fault := by
  -- on the links left, and then on the steps
  induction k using Nat.strongRecOn generalizing way loc with
  | ind k ihk =>
    induction way generalizing loc with
    | nil =>
      rw [walk_nil] at h
      cases h
    | cons s rest ih =>
      cases s with
      | stay => exact .stay (ih (by simpa using h))
      | slash => exact .slash (ih (by simpa using h))
      | up => exact .up (ih (by simpa using h))
      | overlong =>
        rw [walk_overlong, if_neg (by simp)] at h
        obtain rfl : .nameTooLong = fault := Except.error.inj h
        exact .overlong
      | down n =>
        rw [walk_down, if_neg (by simp)] at h
        rcases he : d.entryAt (n :: loc) with - | - | bytes | target
        · obtain rfl : .notFound = fault := by
            rw [he] at h
            by_cases hr : rest = [] <;> simpa [hr, Place.found] using h
          exact .absent he
        · rw [he] at h
          exact .down he (ih h)
        · rw [he] at h
          by_cases hr : rest = []
          · simp [hr, Place.found] at h
          · obtain rfl : .notDirectory = fault := by simpa [hr] using h
            exact .file he hr
        · rw [he] at h
          rcases k with - | k
          · obtain rfl : .tooManyLinks = fault := Except.error.inj h
            exact .loop he
          · exact .link he (ihk k (Nat.lt_succ_self k) h)

/-- A search stops where the way stops. -/
theorem walk_found_eq_error_iff :
    (walk d .look k way loc >>= Place.found) = .error fault ↔ Stops d k way loc fault := by
  refine ⟨stops_of_walk, fun h => ?_⟩
  induction h with
  | stay _ ih | slash _ ih | up _ ih => simpa using ih
  | down hd _ ih =>
    rw [walk_down, if_neg (by simp), hd]
    exact ih
  | link hl _ ih =>
    rw [walk_down, if_neg (by simp), hl]
    exact ih
  | @absent _ n rest loc hn =>
    rw [walk_down, if_neg (by simp), hn]
    by_cases hr : rest = [] <;> simp [hr, Place.found]
  | file hf hr =>
    rw [walk_down, if_neg (by simp), hf]
    simp [hr]
  | loop hl =>
    rw [walk_down, if_neg (by simp), hl]
    rfl
  | overlong =>
    rw [walk_overlong]
    rfl

/-! ### Paths that lead to nothing -/

/-- Whether a path leads to nothing, and the fault with which looking for it stops. -/
inductive Refuses (d : Disk) (p : Path) : Fault → Prop
  | nul : '\x00' ∈ p.chars → Refuses d p .nulInPath
  | empty : p.chars = [] → Refuses d p .notFound
  | stops {fault : Fault} : '\x00' ∉ p.chars → p.chars ≠ [] →
      Stops d maxLinks (steps p) (origin p d.here) fault → Refuses d p fault

/-- What a path leads to cannot be looked at just if the path is refused. -/
theorem find_eq_error_iff : d.find p = .error fault ↔ Refuses d p fault := by
  by_cases hnul : '\x00' ∈ p.chars
  · have hfind : d.find p = .error .nulInPath := by
      rw [find, reach, checkPath, if_pos hnul]
      rfl
    rw [hfind]
    constructor
    · intro h
      obtain rfl : .nulInPath = fault := Except.error.inj h
      exact .nul hnul
    · rintro (- | hnil | ⟨hno, -⟩)
      · rfl
      · simp [hnil] at hnul
      · exact absurd hnul hno
  · by_cases hnil : p.chars = []
    · have hfind : d.find p = .error .notFound := by
        rw [find, reach, checkPath, if_neg hnul, if_pos hnil]
        rfl
      rw [hfind]
      constructor
      · intro h
        obtain rfl : .notFound = fault := Except.error.inj h
        exact .empty hnil
      · rintro (hyes | - | ⟨-, hne, -⟩)
        · exact absurd hyes hnul
        · rfl
        · exact absurd hnil hne
    · rw [find, reach, checkPath_eq_ok_iff.2 ⟨hnul, hnil⟩, ok_bind, walk_found_eq_error_iff]
      constructor
      · exact .stops hnul hnil
      · rintro (hyes | hyes | ⟨-, -, hstops⟩)
        · exact absurd hyes hnul
        · exact absurd hyes hnil
        · exact hstops

end Rulebook.Disk
