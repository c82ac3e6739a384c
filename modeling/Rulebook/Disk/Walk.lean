/-
Rulebook/Disk/Walk.lean

From a path to a place.  A path is read as steps, which are taken one after the
other from the root or the working directory.  Every step starts from a directory,
and a symbolic link is replaced by the steps of its target, at most forty times on
one way.  What the directory holds goes along with its place, so that a step looks
at one directory only; `advance_down` says what it finds in terms of places.

The last step may meet a free name, which is an answer of its own (`Place.free`),
since a file can be created there.  A way on which a file is to be created must
not end in a slash after a name: such a path can only mean a directory.
-/
import Rulebook.Disk.Basic
import Rulebook.Disk.Fault

namespace Rulebook.Disk

/-! ### Steps -/

/-- One step of a way. -/
inductive Step
  /-- Stay: `.`. -/
  | stay
  /-- The slash at the end of a path. -/
  | slash
  /-- To the directory above. -/
  | up
  /-- To the entry of this name. -/
  | down (n : Name)
  /-- To an entry whose name is longer than any can be. -/
  | overlong
  deriving DecidableEq

/-- The step that a segment of a path stands for. -/
def Step.ofSegment (s : Path.Segment) : Step :=
  if s = ['.'] then .stay
  else if s = ['.', '.'] then .up
  else match Name.ofChars? s with
    | some n => .down n
    | none => .overlong

/-- The steps of some segments: one for each that is not empty, and a slash where
they end in one. -/
def Step.ofSegments (ss : List Path.Segment) : List Step :=
  (ss.filter (· ≠ [])).map .ofSegment ++ if ss.getLast? = some [] then [.slash] else []

/-- The steps of a path, from where it starts. -/
def steps (p : Path) : List Step := Step.ofSegments p.anatomy.2

/-! ### Ways -/

/-- What a way is gone for. -/
inductive Purpose
  /-- To find what is there. -/
  | look
  /-- To write a file. -/
  | write
  deriving DecidableEq

/-- Where a way ends. -/
inductive Place
  /-- At an entry, which is not a link. -/
  | taken (loc : Location) (e : Entry)
  /-- In a directory, at a name that is free. -/
  | free (n : Name) (dir : Location)
  deriving DecidableEq

/-- Take steps from a directory, given by its place and what it holds.  Where a link is
met, `follow` goes on with its target, the directory it lies in and the steps that are
left. -/
def advance (d : Disk) (why : Purpose)
    (follow : Path → Location → List Step → Except Fault Place) :
    List Step → Location → Forest → Except Fault Place
  | [], loc, _ => .ok (.taken loc .directory)
  | .stay :: rest, loc, held | .slash :: rest, loc, held => advance d why follow rest loc held
  | .up :: rest, loc, _ => advance d why follow rest loc.tail (d.inside loc.tail)
  | .overlong :: rest, _, _ =>
    .error (if why = .write ∧ rest = [.slash] then .isDirectory else .nameTooLong)
  | .down n :: rest, loc, held =>
    if why = .write ∧ rest = [.slash] then .error .isDirectory
    else match held.get? n with
      | none => if rest = [] then .ok (.free n loc) else .error .notFound
      | some (.directory, deeper) => advance d why follow rest (n :: loc) deeper
      | some (.link target, _) => follow target loc rest
      | some (.file bytes, _) =>
        if rest = [] then .ok (.taken (n :: loc) (.file bytes)) else .error .notDirectory

/-- A step down goes by what stands at the place it leads to. -/
theorem advance_down (d : Disk) (why : Purpose)
    (follow : Path → Location → List Step → Except Fault Place)
    (n : Name) (rest : List Step) (loc : Location) :
    advance d why follow (.down n :: rest) loc (d.inside loc) =
      if why = .write ∧ rest = [.slash] then .error .isDirectory
      else match d.entryAt (n :: loc) with
        | none => if rest = [] then .ok (.free n loc) else .error .notFound
        | some .directory => advance d why follow rest (n :: loc) (d.inside (n :: loc))
        | some (.link target) => follow target loc rest
        | some (.file bytes) =>
          if rest = [] then .ok (.taken (n :: loc) (.file bytes)) else .error .notDirectory := by
  rw [advance, entryAt_cons, inside_cons]
  rcases (d.inside loc).get? n with - | ⟨- | b | t, held⟩ <;> rfl

/-- Where a path starts that is met in a directory. -/
def origin (p : Path) (dir : Location) : Location := if p.isAbsolute then [] else dir

/-- Take steps from a directory, following at most `links` links. -/
def walk (d : Disk) (why : Purpose) : (links : Nat) → List Step → Location → Except Fault Place
  | 0, way, loc => advance d why (fun _ _ _ => .error .tooManyLinks) way loc (d.inside loc)
  | links + 1, way, loc =>
    advance d why
      (fun target dir rest => walk d why links (steps target ++ rest) (origin target dir))
      way loc (d.inside loc)

/-- How many links may lie on one way. -/
def maxLinks : Nat := 40

/-- A path that can be gone at all: it is not empty and holds no NUL. -/
def checkPath (p : Path) : Except Fault Unit :=
  if '\x00' ∈ p.chars then .error .nulInPath
  else if p.chars = [] then .error .notFound
  else .ok ()

/-- Where a path leads from the working directory. -/
def reach (d : Disk) (why : Purpose) (p : Path) : Except Fault Place := do
  checkPath p
  walk d why maxLinks (steps p) (origin p d.here)

end Rulebook.Disk
