/-
Rulebook/Disk/Change.lean

Changing a disk: a directory, a directory with those above it, a file, a link.
A change that fails leaves the disk alone, except that of several directories to
be made those above the failure stay.
-/
import Rulebook.Disk.Look

namespace Rulebook.Disk

/-! ### The last step -/

/-- Where the last step of a path starts, which has to be a directory, and that step;
none if the path is but its start.  The slash at the end of a path is no step. -/
def approach (d : Disk) (p : Path) : Except Fault (Location × Option Step) := do
  checkPath p
  let way := (steps p).filter (· ≠ .slash)
  match ← walk d .look maxLinks way.dropLast (origin p d.here) with
  | .taken dir .directory => .ok (dir, way.getLast?)
  | .taken _ _ => .error .notDirectory
  | .free _ _ => .error .notFound

/-- The free name that a new entry is to have, and the directory for it. -/
def vacancy (d : Disk) (p : Path) : Except Fault (Name × Location) := do
  match ← approach d p with
  | (dir, some (.down n)) =>
    if (d.entryAt (n :: dir)).isSome then .error .alreadyExists else .ok (n, dir)
  | (_, some .overlong) => .error .nameTooLong
  | (_, _) => .error .alreadyExists

/-! ### New entries -/

/-- Make a directory. -/
def makeDir (d : Disk) (p : Path) : Except Fault Disk := do
  let (n, dir) ← d.vacancy p
  return d.put n dir .directory

/-- Make a link; its path must not end in a slash, which is for directories. -/
def makeLink (d : Disk) (p target : Path) : Except Fault Disk := do
  let (n, dir) ← d.vacancy p
  if (steps p).getLast? = some .slash then .error .notFound
  else return d.put n dir (.link target)

/-- Make the first of some directories, each of which lies in the next; where that
one is missing, make it first.  A directory that is there already will do. -/
def makeDirsUp (d : Disk) : List Path → Disk × Except Fault Unit
  | [] => (d, .ok ())
  | p :: above =>
    if p.chars = [] then (d, .ok ())
    else match d.makeDir p with
      | .ok d' => (d', .ok ())
      | .error .notFound =>
        match d.makeDirsUp above with
        | (d', .error e) => (d', .error e)
        | (d', .ok ()) =>
          match d'.makeDir p with
          | .ok d'' => (d'', .ok ())
          | .error e => (d', if d'.hasDir p then .ok () else .error e)
      | .error e => (d, if d.hasDir p then .ok () else .error e)

/-- Make a directory, with all above it that are missing. -/
def makeDirs (d : Disk) (p : Path) : Disk × Except Fault Unit := d.makeDirsUp p.ancestors

/-- The disk with an entry at the end of a row of names, and directories where
those on the way are not. -/
def putAlong (d : Disk) (dir : Location) : List Name → Entry → Disk
  | [], _ => d
  | [n], e => d.put n dir e
  | n :: next :: rest, e =>
    let d' := if d.isDir (n :: dir) then d else d.put n dir .directory
    d'.putAlong (n :: dir) (next :: rest) e

/-! ### Files -/

/-- Write a file: a new one, or new bytes in one that is there. -/
def writeFile (d : Disk) (p : Path) (bytes : ByteArray) : Except Fault Disk := do
  match ← d.reach .write p with
  | .free n dir => return d.put n dir (.file bytes)
  | .taken (n :: dir) (.file _) => return d.put n dir (.file bytes)
  | .taken _ _ => .error .isDirectory

/-- Write a text. -/
def writeText (d : Disk) (p : Path) (text : String) : Except Fault Disk :=
  d.writeFile p text.toUTF8

/-- Take away what a path stands for, with all below it; a link is not followed. -/
def removeAll (d : Disk) (p : Path) : Except Fault Disk := do
  match ← approach d p with
  | (dir, some (.down n)) =>
    if (d.entryAt (n :: dir)).isSome then .ok (d.remove n dir) else .error .notFound
  | (_, some .overlong) => .error .nameTooLong
  | (_, _) => .error .isDirectory

end Rulebook.Disk
