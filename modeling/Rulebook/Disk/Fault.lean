/-
Rulebook/Disk/Fault.lean

The ways in which a single access to the system fails, with the system's words
for them.  Only `notFound` is told apart from the rest by what the program does.
-/

namespace Rulebook.Disk

/-- Why an access failed. -/
inductive Fault
  /-- No such entry, or a directory on the way is missing. -/
  | notFound
  | alreadyExists
  /-- Something on the way is not a directory. -/
  | notDirectory
  | isDirectory
  /-- A name of more than 255 bytes. -/
  | nameTooLong
  /-- More than forty links on one way. -/
  | tooManyLinks
  /-- The path holds a NUL character. -/
  | nulInPath
  /-- The bytes read are not text. -/
  | notText
  /-- The output takes no more bytes. -/
  | outputFull
  deriving DecidableEq

/-- The words for a fault. -/
def Fault.message : Fault → String
  | .notFound => "No such file or directory (os error 2)"
  | .alreadyExists => "File exists (os error 17)"
  | .notDirectory => "Not a directory (os error 20)"
  | .isDirectory => "Is a directory (os error 21)"
  | .nameTooLong => "File name too long (os error 36)"
  | .tooManyLinks => "Too many levels of symbolic links (os error 40)"
  | .nulInPath => "file name contained an unexpected NUL byte"
  | .notText => "stream did not contain valid UTF-8"
  | .outputFull => "failed to write whole buffer"

end Rulebook.Disk
