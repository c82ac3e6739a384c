/-
Rulebook/Generator.lean

How one assistant's files are made.  A generator says which assistant it is for,
how rule files are laid out, and where the ignore file goes.  There are three
layouts: one file with everything, a directory with a file for each document, and
a directory of files with front matter.  All three start from the same excerpts,
so a document without anything for the assistant leaves no trace in any of them.
-/
import Rulebook.Document
import Rulebook.FrontMatter

namespace Rulebook

/-- A file to be written. -/
structure OutputFile where
  path : Path
  content : String
  deriving DecidableEq

/-- A place where an earlier layout kept a plain file, and the name it goes by. -/
structure LegacyPath where
  path : Path
  name : String
  deriving DecidableEq

/-- How an assistant's rule files are laid out, seen from the output root. -/
inductive Layout
  /-- One file with all excerpts. -/
  | merged (file : Path)
  /-- One file for each document, under the document's name. -/
  | perDocument (dir : Path)
  /-- One file with front matter for each document; `legacy` are the plain files
  of earlier layouts. -/
  | frontMatter (dir : Path) (legacy : List Path)
  deriving DecidableEq

/-- What makes the files of one assistant. -/
structure Generator where
  assistant : Assistant
  layout : Layout
  /-- Where the ignore file goes, seen from the output root. -/
  ignoreFile : Path
  /-- Whether an ignore file is made at all. -/
  makesIgnore : Bool := true
  deriving DecidableEq

namespace Layout

/-- Where the rule files go: a file or a directory. -/
def place : Layout → Path
  | .merged file => file
  | .perDocument dir => dir
  | .frontMatter dir _ => dir

end Layout

namespace Generator

/-! ### The assistants' own generators -/

/-- Everything in `.github/copilot-instructions.md`. -/
def copilot : Generator where
  assistant := .copilot
  layout := .merged ".github/copilot-instructions.md"
  ignoreFile := ".copilotignore"

/-- A file for each document in `.clinerules`. -/
def cline : Generator where
  assistant := .cline
  layout := .perDocument ".clinerules"
  ignoreFile := ".clineignore"

/-- A file with front matter for each document in `.cursor/rules`. -/
def cursor : Generator where
  assistant := .cursor
  layout := .frontMatter ".cursor/rules" [".cursorrules", ".cursorignore"]
  ignoreFile := ".cursor/ignore"

/-! ### What a generator makes -/

/-- Where the rule files go under an output root. -/
def outputPath (g : Generator) (root : Path) : Path := root / g.layout.place

/-- Where the ignore file goes under an output root. -/
def ignorePath (g : Generator) (root : Path) : Path := root / g.ignoreFile

/-- Excerpts with a blank line between each two and a newline at the end. -/
def mergeTexts (texts : List String) : String := "\n\n".intercalate texts ++ "\n"

/-- The rule files for a list of documents, in the order of the documents. -/
def files (g : Generator) (ds : List Document) (root : Path) : List OutputFile :=
  let kept := Document.excerptsFor g.assistant ds
  match g.layout with
  | .merged file =>
    if kept.isEmpty then [] else [⟨root / file, mergeTexts (kept.map (·.2))⟩]
  | .perDocument dir =>
    kept.map fun (d, text) => ⟨root / dir / Path.ofString d.filename, text ++ "\n"⟩
  | .frontMatter dir _ =>
    kept.map fun (d, text) =>
      ⟨root / dir / (Path.ofString d.filename).withExtension ['m', 'd', 'c'],
        FrontMatter.ofText d.filename text⟩

/-- The ignore file with the given patterns, which are kept as they are. -/
def ignore? (g : Generator) (patterns : String) (root : Path) : Option OutputFile :=
  if g.makesIgnore then some ⟨g.ignorePath root, patterns⟩ else none

/-- The plain files of earlier layouts that this one would collide with. -/
def legacyPaths (g : Generator) (root : Path) : List LegacyPath :=
  match g.layout with
  | .merged _ => []
  | .perDocument dir => [⟨root / dir, dir.toString⟩]
  | .frontMatter _ legacy => legacy.map fun p => ⟨root / p, p.toString⟩

/-- The same generator without an ignore file. -/
def withoutIgnore (g : Generator) : Generator := { g with makesIgnore := false }

end Generator

end Rulebook
