/-
Rulebook/Disk/Basic.lean

A disk: what the root directory holds, and the directory one works in.  A place is
the list of names that leads there from the root, innermost first, so that the
directory of a place is its tail.

`entryAt` is the view through which a disk is seen: a disk is known from it and the
working directory (`Disk.ext_entryAt`).  The root is always a directory, and whatever
exists lies in a directory (`entryAt_tail`).  The equations of the view say what each
primitive change does to it: `put` sets one entry, `remove` takes one entry away
with all below it, and neither touches anything else.
-/
import Rulebook.Disk.Forest.View

namespace Rulebook

/-- A place on a disk: the names on the way from the root, innermost first. -/
abbrev Location := List Disk.Name

/-- A disk, with the directory one works in. -/
structure Disk where
  /-- What the root directory holds. -/
  root : Disk.Forest
  /-- The working directory. -/
  here : Location
  tidy : root.Tidy
  /-- The working directory is one. -/
  here_isDir : root.entry here.reverse = some .directory

namespace Disk

/-- A disk with nothing on it but its root. -/
def empty : Disk where
  root := .nil
  here := []
  tidy := trivial
  here_isDir := rfl

/-! ### The view -/

/-- What stands at a place. -/
def entryAt (d : Disk) (loc : Location) : Option Entry := d.root.entry loc.reverse

/-- What the directory at a place holds. -/
def inside (d : Disk) (loc : Location) : Forest := d.root.under loc.reverse

/-- Whether a place is a directory. -/
def isDir (d : Disk) (loc : Location) : Bool := d.entryAt loc = some .directory

@[simp] theorem entryAt_root (d : Disk) : d.entryAt [] = some .directory := rfl

theorem isDir_iff {d : Disk} {loc : Location} :
    d.isDir loc = true ↔ d.entryAt loc = some .directory := by
  simp [isDir]

theorem entryAt_here (d : Disk) : d.entryAt d.here = some .directory := d.here_isDir

/-- An entry stands where the directory of its place holds it. -/
theorem entryAt_cons (d : Disk) (n : Name) (loc : Location) :
    d.entryAt (n :: loc) = ((d.inside loc).get? n).map (·.1) := by
  rw [entryAt, List.reverse_cons, Forest.entry_append_singleton]
  rfl

/-- What a directory holds, from what the directory that it lies in holds. -/
theorem inside_cons (d : Disk) (n : Name) (loc : Location) :
    d.inside (n :: loc) =
      match (d.inside loc).get? n with
      | some (.directory, held) => held
      | _ => .nil := by
  rw [inside, List.reverse_cons, Forest.under_append_singleton]
  rfl

theorem tidy_inside (d : Disk) (loc : Location) : (d.inside loc).Tidy :=
  d.tidy.under loc.reverse

/-- Whatever exists lies in a directory. -/
theorem entryAt_tail {d : Disk} {n : Name} {loc : Location} (h : d.entryAt (n :: loc) ≠ none) :
    d.entryAt loc = some .directory := by
  refine Classical.byContradiction fun hloc => h ?_
  rw [entryAt_cons, inside, Forest.under_of_entry_ne hloc]
  rfl

/-- A disk is known from what it shows and where one works. -/
theorem ext_entryAt {d d' : Disk} (h : ∀ loc, d.entryAt loc = d'.entryAt loc)
    (hhere : d.here = d'.here) : d = d' := by
  have hroot : d.root = d'.root := d.tidy.ext d'.tidy fun way => by
    simpa [entryAt] using h way.reverse
  cases d
  cases d'
  cases hroot
  cases hhere
  rfl

/-! ### Setting one entry -/

/-- Whether an entry can be set: in a directory, and not in place of one. -/
def CanPut (d : Disk) (n : Name) (dir : Location) : Prop :=
  d.entryAt dir = some .directory ∧ d.entryAt (n :: dir) ≠ some .directory

instance (d : Disk) (n : Name) (dir : Location) : Decidable (d.CanPut n dir) :=
  inferInstanceAs (Decidable (_ ∧ _))

/-- The disk with one entry set; nothing happens where that cannot be. -/
def put (d : Disk) (n : Name) (dir : Location) (e : Entry) : Disk :=
  if h : d.CanPut n dir then
    { root := d.root.modifyAt (.set n e) dir.reverse
      here := d.here
      tidy := d.tidy.modifyAt (fun _ hx => hx.set n e) dir.reverse
      here_isDir := by
        have hn : d.root.entry (dir.reverse ++ [n]) ≠ some .directory := by
          simpa [entryAt] using h.2
        rw [Forest.entry_modifyAt_set h.1 hn]
        split
        · next hh => exact absurd (hh ▸ d.here_isDir) hn
        · exact d.here_isDir }
  else d

theorem entryAt_put {d : Disk} {n : Name} {dir : Location} (h : d.CanPut n dir) (e : Entry)
    (loc : Location) :
    (d.put n dir e).entryAt loc = if loc = n :: dir then some e else d.entryAt loc := by
  have hn : d.root.entry (dir.reverse ++ [n]) ≠ some .directory := by
    simpa [entryAt] using h.2
  rw [put, dif_pos h, entryAt, Forest.entry_modifyAt_set h.1 hn, ← List.reverse_cons]
  simp [entryAt]

@[simp] theorem here_put (d : Disk) (n : Name) (dir : Location) (e : Entry) :
    (d.put n dir e).here = d.here := by
  rw [put]
  split <;> rfl

/-! ### Removing an entry -/

/-- Whether a place is another one or lies below it. -/
def within (top loc : Location) : Bool := top.isSuffixOf loc

theorem within_iff {top loc : Location} : within top loc = true ↔ top <:+ loc := by
  simp [within]

/-- Whether an entry can be removed: it exists, and one does not work in it or below. -/
def CanRemove (d : Disk) (n : Name) (dir : Location) : Prop :=
  d.entryAt (n :: dir) ≠ none ∧ within (n :: dir) d.here = false

instance (d : Disk) (n : Name) (dir : Location) : Decidable (d.CanRemove n dir) :=
  inferInstanceAs (Decidable (_ ∧ _))

/-- The disk without an entry and all below it; nothing happens where that cannot be. -/
def remove (d : Disk) (n : Name) (dir : Location) : Disk :=
  if h : d.CanRemove n dir then
    { root := d.root.modifyAt (.erase n) dir.reverse
      here := d.here
      tidy := d.tidy.modifyAt (fun _ hx => hx.erase n) dir.reverse
      here_isDir := by
        rw [Forest.entry_modifyAt_erase d.tidy (entryAt_tail h.1), if_neg]
        · exact d.here_isDir
        · intro hp
          rw [← List.reverse_cons, List.reverse_prefix, ← within_iff] at hp
          exact absurd hp (by simp [h.2]) }
  else d

theorem entryAt_remove {d : Disk} {n : Name} {dir : Location} (h : d.CanRemove n dir)
    (loc : Location) :
    (d.remove n dir).entryAt loc = if within (n :: dir) loc then none else d.entryAt loc := by
  rw [remove, dif_pos h, entryAt, Forest.entry_modifyAt_erase d.tidy (entryAt_tail h.1)]
  have hp : dir.reverse ++ [n] <+: loc.reverse ↔ within (n :: dir) loc = true := by
    rw [← List.reverse_cons, List.reverse_prefix, within_iff]
  simp only [hp]
  rfl

@[simp] theorem here_remove (d : Disk) (n : Name) (dir : Location) :
    (d.remove n dir).here = d.here := by
  rw [remove]
  split <;> rfl

/-! ### The working directory -/

/-- The disk seen from another directory; from the same one if there is no such. -/
def enter (d : Disk) (loc : Location) : Disk :=
  if h : d.entryAt loc = some .directory then { d with here := loc, here_isDir := h } else d

@[simp] theorem entryAt_enter (d : Disk) (loc l : Location) :
    (d.enter loc).entryAt l = d.entryAt l := by
  rw [enter]
  split <;> rfl

end Disk

end Rulebook
