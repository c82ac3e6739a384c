/-
Rulebook/Main.lean

The command itself.  It takes stock of those parts of the real disk that a command
can look at, runs the command on that, and then does to the real disk what the run
did to its picture.  All decisions are made in the run; here entries are only read
and written.
-/
import Rulebook.Command.Run

namespace Rulebook.Main

open Rulebook Command

/-! ### Places and real paths -/

/-- The names of an absolute path. -/
def namesOf (abs : String) : List Disk.Name :=
  (Text.split '/' abs.toList).filterMap Disk.Name.ofChars?

/-- The absolute path that names lead along from the root. -/
def realOf (way : List Disk.Name) : String :=
  "/" ++ "/".intercalate (way.map fun n => n.text?.getD "")

/-! ### Taking stock -/

/-- The picture with the entry of a real file or directory. -/
def drawTarget (d : Disk) (abs : String) : IO Disk := do
  let p := (← IO.currentDir) / abs
  try
    match (← p.symlinkMetadata).type with
    | .file => return d.putAlong [] (namesOf abs) (.file (← IO.FS.readBinFile p))
    | .symlink => return d
    | _ => return d.putAlong [] (namesOf abs) .directory
  catch _ => return d

/-- What a link that leads nowhere is drawn with: a path into a missing directory. -/
def nowhere : String := "/no such directory/no such entry"

/-- The picture with the entry of this name in a real directory, and with what it
leads to if it is a link. -/
def drawEntry (d : Disk) (dir name : String) : IO Disk := do
  let p := (← IO.currentDir) / dir / name
  try
    match (← p.symlinkMetadata).type with
    | .symlink =>
      let target ← try pure (← IO.FS.realPath p).toString catch _ => pure nowhere
      drawTarget (d.putAlong [] (namesOf p.toString) (.link (Path.ofString target))) target
    | _ => drawTarget d p.toString
  catch _ => return d

/-- The picture with the entry that the last step of a path names. -/
def drawPath (d : Disk) (path : Path) : IO Disk := do
  let p := (← IO.currentDir) / path.toString
  match p.parent, p.fileName with
  | some parent, some name =>
    try
      drawEntry d (← IO.FS.realPath parent).toString name
    catch _ => return d
  | _, _ => return d

/-- The picture with all entries of the directory at a path. -/
def drawListing (d : Disk) (path : Path) : IO Disk := do
  try
    let dir ← IO.FS.realPath ((← IO.currentDir) / path.toString)
    let d ← drawTarget d dir.toString
    (← dir.readDir).foldlM (fun d e => drawEntry d dir.toString e.fileName) d
  catch _ => return d

/-- The directories of which a command may look at every entry. -/
def listed : Invocation → List Path
  | .compile roots | .preview roots =>
    [roots.input / rulesDir, roots.output / ".github", roots.output / ".clinerules",
      roots.output / ".cursor", roots.output / ".cursor/rules"]
  | .setUp root => [root / docsDir / rulesDir]

/-- The other entries that a command may look at. -/
def single : Invocation → List Path
  | .compile roots | .preview roots =>
    (roots.input / ignoreFile) ::
      [".copilotignore", ".clineignore", ".cursorrules", ".cursorignore"].map
        fun name => roots.output / Path.ofString name
  | .setUp root => [root / docsDir / ignoreFile]

/-- The picture of the real disk on which a command is run. -/
def draw (words : List String) (env : Environment) : IO Disk := do
  let here := (← IO.FS.realPath (← IO.currentDir)).toString
  let d := (Disk.empty.putAlong [] (namesOf here) .directory).enter (namesOf here).reverse
  match Invocation.ofWords env words with
  | .error _ => return d
  | .ok invocation =>
    let paths := listed invocation ++ single invocation
    let d ← (paths.flatMap fun p => p.ancestors.reverse).foldlM drawPath d
    (listed invocation).foldlM drawListing d

/-! ### Carrying out -/

/-- Do to the real disk what leads from one picture to another. -/
def carryOut (before after : Disk) : IO Unit :=
  (after.listing []).forM fun (way, e) =>
    if before.entryAt way.reverse = some e then return ()
    else match e with
      | .directory => IO.FS.createDir (realOf way)
      | .file bytes => IO.FS.writeBinFile (realOf way) bytes
      | .link _ => return ()

/-- What is printed of a failure. -/
def errorText (f : Failure) : String :=
  "Error:\n" ++ String.join (f.chain.map fun m => "  " ++ m ++ "\n") ++
    String.join (f.suggestions.map fun m => "\nSuggestion: " ++ m ++ "\n")

/-- How the commands are called. -/
def usage : String :=
  "Usage: ai-docs <COMMAND>\n\n" ++
  "Commands:\n" ++
  "  init     [--root DIR]\n" ++
  "  compile  [--input DIR] [--output DIR] [--plan]\n" ++
  "  preview  [--input DIR] [--output DIR]\n"

/-- Say how the commands are called, where the words ask for that or are no command. -/
def printUsage (words : List String) (env : Environment) : IO Unit :=
  match Invocation.ofWords env words with
  | .error .help => IO.print usage
  | .error .misuse => IO.eprint usage
  | _ => return ()

end Rulebook.Main

def main (words : List String) : IO UInt32 := do
  let env ← ["AI_DOCS_INPUT", "AI_DOCS_OUTPUT"].filterMapM fun name => do
    return (← IO.getEnv name).map (name, ·)
  let before ← Rulebook.Main.draw words env
  let run := Rulebook.Command.run before env words
  Rulebook.Main.carryOut before run.disk
  IO.print run.stdout
  run.failure.forM fun f => IO.eprint (Rulebook.Main.errorText f)
  Rulebook.Main.printUsage words env
  return UInt32.ofNat run.exitCode
