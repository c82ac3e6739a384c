/-
Rulebook/LegacyGuard.lean

The guard against plain files of earlier layouts.  A file in the way of a
directory is for the user to remove; nothing, or something other than a regular
file, is in nobody's way.  Paths are looked at in order, and the first that is in
the way, or cannot be looked at, decides.
-/
import Rulebook.Disk.Look
import Rulebook.Generator
import Rulebook.Outcome

namespace Rulebook

/-- Look whether one legacy file is in the way. -/
def checkLegacyPath (d : Disk) (file : LegacyPath) : Except Failure Unit :=
  match d.find file.path with
  | .ok (_, .file _) =>
    .error { cause := .legacyConflict file.path file.name, hints := [.removeLegacy file.name] }
  | .ok _ => .ok ()
  | .error .notFound => .ok ()
  | .error fault => .error (.ofFault (.inspectLegacy file.path) fault)

/-- Look whether any of some legacy files is in the way. -/
def checkLegacy (d : Disk) : List LegacyPath → Except Failure Unit
  | [] => .ok ()
  | file :: rest => do
    checkLegacyPath d file
    checkLegacy d rest

end Rulebook
