/-
Rulebook/Disk/Entry.lean

What stands at a place of a disk: a directory, a file with its bytes, or a symbolic
link with its target.
-/
import Rulebook.Path

namespace Rulebook

/-- What can stand at a place. -/
inductive Entry
  | directory
  | file (bytes : ByteArray)
  /-- A symbolic link: a path that is followed in its stead. -/
  | link (target : Path)

/-- Files are compared by their bytes, links by their targets. -/
instance : DecidableEq Entry
  | .directory, .directory => isTrue rfl
  | .file a, .file b =>
    if h : a.data.toList = b.data.toList then
      isTrue (congrArg Entry.file (ByteArray.ext (Array.toList_inj.1 h)))
    else isFalse fun hab => by
      cases hab
      exact h rfl
  | .link p, .link q =>
    if h : p = q then isTrue (congrArg Entry.link h)
    else isFalse fun hpq => by
      cases hpq
      exact h rfl
  | .directory, .file _ | .directory, .link _ | .file _, .directory | .file _, .link _
  | .link _, .directory | .link _, .file _ => isFalse nofun

end Rulebook
