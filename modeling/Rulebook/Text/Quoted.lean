/-
Rulebook/Text/Quoted.lean

A text in double quotes, as messages show a path.  The quote and the backslash
are written with a backslash before them, newline, tab, carriage return and NUL
as `\n`, `\t`, `\r` and `\0`, and every other character that would not be seen,
or would change the one before it, by its code point in braces: `\u{200b}`.
-/
import Rulebook.Text.GraphemeExtend
import Rulebook.Text.Unprintable

namespace Rulebook.Text

/-- A code point as a quoted text shows it. -/
def escapeCode (c : Char) : List Char :=
  ['\\', 'u', '\x7b'] ++ Nat.toDigits 16 c.toNat ++ ['\x7d']

/-- One character inside quotes. -/
def escapeChar (c : Char) : List Char :=
  if c = '"' then ['\\', '"']
  else if c = '\\' then ['\\', '\\']
  else if c = '\n' then ['\\', 'n']
  else if c = '\t' then ['\\', 't']
  else if c = '\r' then ['\\', 'r']
  else if c = '\x00' then ['\\', '0']
  else if isGraphemeExtend c || isUnprintable c then escapeCode c
  else [c]

/-- A text in double quotes. -/
def quoted (cs : List Char) : List Char := '"' :: (cs.flatMap escapeChar ++ ['"'])

end Rulebook.Text
