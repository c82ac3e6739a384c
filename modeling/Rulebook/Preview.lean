/-
Rulebook/Preview.lean

A plan as text: the rule files of every assistant under its title, and then the
ignore files.  The text goes out piece by piece to an output that may be full
before the end; it then holds the beginning of the text, byte for byte.
-/
import Rulebook.Plan

namespace Rulebook

/-! ### The text -/

/-- One file under its path. -/
def fileText (file : OutputFile) : List String :=
  ["\n--- " ++ file.path.toString ++ " ---\n", file.content ++ "\n"]

/-- A block with a title. -/
def blockText (title : String) (files : List OutputFile) : List String :=
  ("\n=== " ++ title ++ " ===\n") :: files.flatMap fileText ++ ["\n=== END PREVIEW ===\n\n"]

/-- The pieces of the text of a plan. -/
def previewPieces (outputs : List Output) : List String :=
  outputs.flatMap (fun o => blockText (o.assistant.title ++ " PREVIEW") o.files) ++
    outputs.flatMap fun o =>
      match o.ignore with
      | some file => blockText (o.assistant.title ++ " IGNORE PREVIEW") [file]
      | none => []

/-- The text of a plan. -/
def previewText (outputs : List Output) : String := String.join (previewPieces outputs)

/-! ### Outputs that fill up -/

/-- An output, with the bytes it has taken and how many more it takes; without a
number it takes any. -/
structure Sink where
  taken : List UInt8 := []
  room : Option Nat := none

/-- An output that takes the bytes it has room for. -/
def Sink.accept (s : Sink) (bytes : List UInt8) : Sink :=
  match s.room with
  | none => { s with taken := s.taken ++ bytes }
  | some n => { taken := s.taken ++ bytes.take n, room := some (n - bytes.length) }

/-- Whether there is room for some bytes. -/
def Sink.fits (s : Sink) (bytes : List UInt8) : Bool :=
  match s.room with
  | none => true
  | some n => bytes.length ≤ n

/-- The bytes an output has taken, as text. -/
def Sink.text (s : Sink) : String := (String.fromUTF8? ⟨s.taken.toArray⟩).getD ""

/-- Send pieces to an output, up to the first that does not fit. -/
def Sink.send (s : Sink) : List String → Sink × Except Disk.Fault Unit
  | [] => (s, .ok ())
  | piece :: pieces =>
    let bytes := piece.toUTF8.data.toList
    if s.fits bytes then (s.accept bytes).send pieces else (s.accept bytes, .error .outputFull)

/-! ### Previews -/

/-- Show what would be written, on a given output. -/
def preview (d : Disk) (r : Registry) (input root : Path) (out : Sink) : Sink × Account Unit :=
  let planned := plan d r input root
  match planned.result with
  | .error f => (out, ⟨planned.log, .error f⟩)
  | .ok outputs =>
    let (out, sent) := out.send (previewPieces outputs)
    let shown := outputs.flatMap fun o => o.files ++ o.ignore.toList
    (out,
      { log := planned.log ++ shown.map fun _ => .previewed
        result := sent.mapError (.ofFault .writePreview) })

end Rulebook
