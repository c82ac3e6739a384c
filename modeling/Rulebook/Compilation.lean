/-
Rulebook/Compilation.lean

Compiling rules onto the disk.  A run plans, looks for legacy files of all
assistants, and only then writes, one file after the other.  Nothing is written
before all checks have passed; a write that fails ends the run, and the files
written before it stay.
-/
import Rulebook.Disk.Change
import Rulebook.LegacyGuard
import Rulebook.Plan

namespace Rulebook

/-! ### Before writing -/

/-- The legacy files of some assistants in turn. -/
def legacyPathsFor (r : Registry) (root : Path) : List Assistant → Except Failure (List LegacyPath)
  | [] => .ok []
  | a :: rest => do
    let g ← r.generator a
    return g.legacyPaths root ++ (← legacyPathsFor r root rest)

/-- Look for legacy files of all assistants. -/
def guardLegacy (d : Disk) (r : Registry) (root : Path) : Except Failure Unit := do
  let files ← legacyPathsFor r root Assistant.all
  (checkLegacy d files).mapError (·.inside .checkLegacy)

/-! ### Writing -/

/-- Make the directory that a file goes into. -/
def makeRoom (d : Disk) (file : OutputFile) : Disk × Except Failure Unit :=
  match file.path.parent? with
  | none => (d, .ok ())
  | some dir =>
    let (d', made) := d.makeDirs dir
    (d', made.mapError (.ofFault (.createDirectory dir)))

/-- Write one file, with the directories it needs. -/
def writeGenerated (d : Disk) (file : OutputFile) : Disk × Except Failure Unit :=
  match makeRoom d file with
  | (d', .error f) => (d', .error f)
  | (d', .ok ()) =>
    match d'.writeText file.path file.content with
    | .ok d'' => (d'', .ok ())
    | .error fault => (d', .error (.ofFault (.writeGenerated file.path) fault))

/-- Write files one after the other, up to the first that fails. -/
def writeAll (d : Disk) : List OutputFile → Outcome (List Path)
  | [] => { log := [], result := .ok [], disk := d }
  | file :: rest =>
    match writeGenerated d file with
    | (d', .error f) => { log := [], result := .error f, disk := d' }
    | (d', .ok ()) => ((writeAll d' rest).map (file.path :: ·)).telling .generated

/-! ### The whole run -/

/-- Compile the rules under `input` for all assistants and write what comes of them
under `root`; the result is the paths written. -/
def compile (d : Disk) (r : Registry) (input root : Path) : Outcome (List Path) :=
  let planned := plan d r input root
  let ready := do
    let outputs ← planned.result
    guardLegacy d r root
    return plannedFiles outputs
  match ready with
  | .error f => { log := planned.log, result := .error f, disk := d }
  | .ok files =>
    let written := writeAll d files
    { written with log := planned.log ++ written.log }

end Rulebook
