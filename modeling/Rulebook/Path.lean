/-
Rulebook/Path.lean

Paths as their text.  A path is any text; slashes part it into segments, and of
these the empty ones and `.` say nothing, except for a `.` that opens a relative
path.  `Path.join` appends without tidying up, so that a path is reported as it
was given.  The name of a path is its last segment that says something, unless
that is `..`; `parent?` removes it with what follows, and so on up to the start.
-/
import Rulebook.Text.Lines

namespace Rulebook

open Text

/-- A path, as its text. -/
structure Path where
  chars : List Char
  deriving DecidableEq

namespace Path

def ofString (s : String) : Path := ⟨s.toList⟩

def toString (p : Path) : String := String.ofList p.chars

instance : Coe String Path := ⟨ofString⟩

@[simp] theorem toString_ofString (s : String) : (ofString s).toString = s := by
  simp [ofString, toString]

@[simp] theorem ofString_toString (p : Path) : ofString p.toString = p := by
  simp [ofString, toString]

/-- A path that starts with a slash starts at the root. -/
def isAbsolute (p : Path) : Bool := p.chars.head? == some '/'

/-- `p / q`: the path `q` seen from `p`.  An absolute `q` stands for itself, and a
slash comes between the two unless `p` is empty or ends in one. -/
def join (p q : Path) : Path :=
  if q.isAbsolute then q
  else if p.chars = [] ∨ p.chars.getLast? = some '/' then ⟨p.chars ++ q.chars⟩
  else ⟨p.chars ++ '/' :: q.chars⟩

instance : HDiv Path Path Path := ⟨join⟩

theorem div_def (p q : Path) : p / q = p.join q := rfl

/-! ### Segments -/

/-- A piece of a path between slashes. -/
abbrev Segment := List Char

/-- An empty segment and `.` do not change the place. -/
def Segment.isIdle (s : Segment) : Bool := s = [] || s = ['.']

/-- Where a path starts from. -/
inductive Start
  /-- From the root: the path starts with a slash. -/
  | root
  /-- From the place itself: the path starts with `.`. -/
  | here
  /-- From the place, without a word on it. -/
  | bare
  deriving DecidableEq

/-- The start of a path and its segments after that. -/
def anatomy (p : Path) : Start × List Segment :=
  match split '/' p.chars with
  | first :: rest =>
    if first = [] ∧ rest ≠ [] then (.root, rest)
    else if first = ['.'] then (.here, rest)
    else (.bare, first :: rest)
  | [] => (.bare, [])

/-- The path with a given start and given segments after it. -/
def assemble : Start → List Segment → Path
  | .root, body => ⟨'/' :: ['/'].intercalate body⟩
  | .here, body => ⟨['/'].intercalate (['.'] :: body)⟩
  | .bare, body => ⟨['/'].intercalate body⟩

/-- The text of a path is its start and its segments. -/
theorem assemble_anatomy (p : Path) : assemble p.anatomy.1 p.anatomy.2 = p := by
  obtain ⟨cs⟩ := p
  have h := intercalate_split '/' cs
  rw [anatomy]
  rcases hs : split '/' cs with - | ⟨first, rest⟩
  · exact absurd hs (split_ne_nil _ _)
  · rw [hs] at h
    dsimp only
    split
    · next hr =>
      obtain ⟨rfl, hr⟩ := hr
      rcases rest with - | ⟨next, rest⟩
      · exact absurd rfl hr
      · simpa [assemble] using h
    · split
      · next hd => rw [hd] at h; rw [assemble, h]
      · rw [assemble, h]

/-- What remains of reversed segments from the last that says something. -/
def dropIdle (reversed : List Segment) : List Segment := reversed.dropWhile Segment.isIdle

/-- The segments of a path before its last that says something, and that one; none
if only the start is left. -/
def last? (p : Path) : Option (List Segment × Segment) :=
  match dropIdle p.anatomy.2.reverse with
  | [] => none
  | s :: before => some (before.reverse, s)

/-! ### Names and parents -/

/-- The name of a path: its last segment, if that is a name. -/
def name? (p : Path) : Option Segment :=
  match p.last? with
  | some (_, s) => if s = ['.', '.'] then none else some s
  | none => none

/-- The path without its last segment; the start alone has `.` to lose, or nothing. -/
def parent? (p : Path) : Option Path :=
  match p.last? with
  | some (before, _) => some (assemble p.anatomy.1 (dropIdle before.reverse).reverse)
  | none => if p.anatomy.1 = .here then some ⟨[]⟩ else none

/-- The path and its parents, up to `n` of them. -/
def ancestorsUpTo : Nat → Path → List Path
  | 0, p => [p]
  | n + 1, p =>
    match p.parent? with
    | some q => p :: ancestorsUpTo n q
    | none => [p]

/-- The path and all its parents, innermost first.  Each is shorter than the one
before it, so there are no more of them than the path has characters. -/
def ancestors (p : Path) : List Path := ancestorsUpTo p.chars.length p

/-! ### Stems and extensions -/

/-- A name, parted at its last dot; none if there is no dot but a leading one. -/
def cutExtension? (name : Segment) : Option (Segment × List Char) :=
  let ext := (name.reverse.takeWhile (· ≠ '.')).reverse
  let stem := name.take (name.length - ext.length - 1)
  if ext.length = name.length ∨ stem = [] then none else some (stem, ext)

/-- The name of a path without its extension. -/
def stem? (p : Path) : Option Segment :=
  p.name?.map fun name =>
    match cutExtension? name with
    | some (stem, _) => stem
    | none => name

/-- What follows the last dot in the name of a path. -/
def extension? (p : Path) : Option (List Char) :=
  match p.name? with
  | some name => (cutExtension? name).map (·.2)
  | none => none

/-- The path with its name replaced and nothing after it. -/
def withName (p : Path) (name : Segment) : Path :=
  match p.last? with
  | some (before, _) => assemble p.anatomy.1 (before ++ [name])
  | none => assemble p.anatomy.1 [name]

/-- The path with another extension.  The letters of the old one are cut from the
end of the text, and the new one follows the stem of the name that is left; where
none is left, as after cutting `..md`, the text stays as cut. -/
def withExtension (p : Path) (ext : List Char) : Path :=
  let cut : Path :=
    match p.extension? with
    | some old => ⟨p.chars.take (p.chars.length - old.length)⟩
    | none => p
  match cut.stem? with
  | some stem => cut.withName (stem ++ '.' :: ext)
  | none => cut

/-! ### Equality up to idle segments -/

/-- Whether two paths say the same: the same start, and the same segments apart from
the idle ones. -/
def agrees (p q : Path) : Bool :=
  p.anatomy.1 = q.anatomy.1 ∧
    p.anatomy.2.filter (!·.isIdle) = q.anatomy.2.filter (!·.isIdle)

end Path

end Rulebook
