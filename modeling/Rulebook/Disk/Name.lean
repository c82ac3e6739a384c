/-
Rulebook/Disk/Name.lean

Names of directory entries.  A name is a row of bytes, at most 255 of them, that
could stand between two slashes and is neither `.` nor `..`.  Most names are text;
one that is not is shown with replacement characters and takes no part in
anything that goes by text.  Names are ordered by their bytes.
-/
import Rulebook.Path

namespace Rulebook.Disk

/-- Whether bytes can be the name of an entry. -/
def isName (bytes : List UInt8) : Bool :=
  bytes.length ≤ 255 && bytes.all (fun b => b ≠ 0 && b ≠ 0x2f) &&
    bytes ≠ [] && bytes ≠ [0x2e] && bytes ≠ [0x2e, 0x2e]

/-- The name of a directory entry. -/
structure Name where
  bytes : List UInt8
  usable : isName bytes = true
  deriving DecidableEq

namespace Name

/-- A name from its bytes. -/
def ofBytes? (bytes : List UInt8) : Option Name :=
  if h : isName bytes then some ⟨bytes, h⟩ else none

/-- A name from its text. -/
def ofChars? (cs : List Char) : Option Name := ofBytes? (String.ofList cs).toUTF8.data.toList

/-- The name as text, if it is text. -/
def text? (n : Name) : Option String := String.fromUTF8? ⟨n.bytes.toArray⟩

theorem bytes_inj {m n : Name} : m.bytes = n.bytes ↔ m = n := by
  constructor
  · intro h
    cases m
    cases n
    cases h
    rfl
  · rintro rfl
    rfl

/-! ### The order of names -/

/-- Names are ordered by their bytes, like words by their letters. -/
instance : LT Name := ⟨fun m n => m.bytes < n.bytes⟩

instance (m n : Name) : Decidable (m < n) := inferInstanceAs (Decidable (m.bytes < n.bytes))

theorem lt_irrefl (n : Name) : ¬ n < n := List.lt_irrefl n.bytes

theorem lt_trans {l m n : Name} (h : l < m) (k : m < n) : l < n := List.lt_trans h k

theorem lt_of_not_lt {m n : Name} (h : ¬ m < n) (hne : m ≠ n) : n < m := by
  refine Classical.byContradiction fun k => hne (bytes_inj.1 ?_)
  exact List.le_antisymm (List.not_lt.1 k) (List.not_lt.1 h)

end Name

end Rulebook.Disk
