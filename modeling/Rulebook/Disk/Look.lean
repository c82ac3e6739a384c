/-
Rulebook/Disk/Look.lean

Looking at a disk: what a path leads to, the text of a file, the entries of a
directory, and everything below one.  Nothing here changes anything.
-/
import Rulebook.Disk.Walk

namespace Rulebook.Disk

/-! ### What a path leads to -/

/-- What a way ends at, if something is there. -/
def Place.found : Place → Except Fault (Location × Entry)
  | .taken loc e => .ok (loc, e)
  | .free _ _ => .error .notFound

/-- What a path leads to, links followed. -/
def find (d : Disk) (p : Path) : Except Fault (Location × Entry) :=
  d.reach .look p >>= Place.found

/-- What an entry of a directory leads to, links followed; the directory is given by
its path, and the way there counts. -/
def findIn (d : Disk) (dir : Path) (n : Name) : Except Fault (Location × Entry) :=
  walk d .look maxLinks (steps dir ++ [.down n]) (origin dir d.here) >>= Place.found

/-- Whether a path leads to a directory. -/
def hasDir (d : Disk) (p : Path) : Bool :=
  match d.find p with
  | .ok (_, .directory) => true
  | _ => false

/-- Whether a path leads to anything. -/
def has (d : Disk) (p : Path) : Bool :=
  match d.find p with
  | .ok _ => true
  | .error _ => false

/-- The text of a file. -/
def Entry.text : Entry → Except Fault String
  | .file bytes =>
    match String.fromUTF8? bytes with
    | some text => .ok text
    | none => .error .notText
  | .directory => .error .isDirectory
  | .link _ => .error .notFound

/-- The text that a path leads to. -/
def readText (d : Disk) (p : Path) : Except Fault String :=
  d.find p >>= fun (_, e) => Entry.text e

/-! ### Listings -/

/-- The entries of a directory, in the order of their names. -/
def children (d : Disk) (dir : Location) : List (Name × Entry) := (d.inside dir).entries

theorem mem_children {d : Disk} {dir : Location} {n : Name} {e : Entry} :
    (n, e) ∈ d.children dir ↔ d.entryAt (n :: dir) = some e := by
  rw [children, (d.tidy_inside dir).mem_entries, entryAt_cons]

/-- The names in a directory ascend. -/
theorem pairwise_children (d : Disk) (dir : Location) :
    ((d.children dir).map (·.1)).Pairwise (· < ·) := by
  rw [children, ← Forest.names_eq_map]
  exact (d.tidy_inside dir).pairwise_names

/-- Everything below a place, by the names that lead there: the entries of every
directory in the order of their names, and each directory directly before its own
entries. -/
def listing (d : Disk) (top : Location) : List (List Name × Entry) := (d.inside top).listing

end Rulebook.Disk
