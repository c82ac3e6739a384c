/-
Rulebook/Text/Lossy.lean

Bytes shown as text where they may not be text.  Well-formed UTF-8 is decoded; of
what is not, every longest beginning of a character that is then broken off, and
every byte that can begin none, becomes one replacement character.
-/

namespace Rulebook.Text

/-- The character that stands for bytes that are not text. -/
def replacement : Char := '\ufffd'

/-- A character of which some bytes are still to come. -/
structure Unfinished where
  /-- How many bytes are to come after the next. -/
  later : Nat
  /-- The least next byte. -/
  low : UInt8
  /-- The greatest next byte. -/
  high : UInt8
  /-- The bits so far. -/
  bits : Nat

/-- What a byte begins: a whole character, one with more bytes to come, or none. -/
def begin? (b : UInt8) : List Char × Option Unfinished :=
  if b < 0x80 then ([Char.ofNat b.toNat], none)
  else if b < 0xc2 then ([replacement], none)
  else if b < 0xe0 then ([], some ⟨0, 0x80, 0xbf, b.toNat % 0x20⟩)
  else if b < 0xf0 then
    ([], some ⟨1, if b = 0xe0 then 0xa0 else 0x80, if b = 0xed then 0x9f else 0xbf, b.toNat % 0x10⟩)
  else if b < 0xf5 then
    ([], some ⟨2, if b = 0xf0 then 0x90 else 0x80, if b = 0xf4 then 0x8f else 0xbf, b.toNat % 0x8⟩)
  else ([replacement], none)

/-- What one more byte shows, and what is unfinished after it. -/
def feed (u : Option Unfinished) (b : UInt8) : List Char × Option Unfinished :=
  match u with
  | none => begin? b
  | some u =>
    if u.low ≤ b ∧ b ≤ u.high then
      let bits := u.bits * 0x40 + b.toNat % 0x40
      match u.later with
      | 0 => ([Char.ofNat bits], none)
      | later + 1 => ([], some ⟨later, 0x80, 0xbf, bits⟩)
    else
      let (shown, next) := begin? b
      (replacement :: shown, next)

/-- The text of bytes after an unfinished character, if there is one. -/
def lossyFrom (u : Option Unfinished) : List UInt8 → List Char
  | [] => if u.isSome then [replacement] else []
  | b :: bs =>
    let (shown, next) := feed u b
    shown ++ lossyFrom next bs

/-- The text of bytes, with replacement characters for what is not text. -/
def lossy (bytes : List UInt8) : List Char := lossyFrom none bytes

end Rulebook.Text
