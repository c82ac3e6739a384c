/-
Rulebook/Proofs/FullOutput.lean

Previews on an output that fills up.  Pieces of text are sent one after the other, and the
first that does not fit is cut where the output is full, be it inside a character.  So what an
output with a limit has taken is the beginning of the whole text, byte for byte, and the
sending fails exactly where the text is longer than the limit (`send_limited`): where the
pieces begin and end does not show.

Main result `preview_limited`: where planning succeeds, a preview on such an output comes to the
beginning of the text that an output without a limit takes, and tells of the same files.
-/
import Rulebook.Proofs.PreviewCommand

namespace Rulebook

variable {d : Disk} {r : Registry} {input root : Path} {outputs : List Output}

/-! ### Bytes of a text -/

/-- The bytes of some pieces of text, one after the other. -/
def bytesOf (pieces : List String) : List UInt8 := (String.join pieces).toUTF8.data.toList

@[simp] theorem bytesOf_nil : bytesOf [] = [] := by
  simp [bytesOf]

@[simp] theorem bytesOf_cons (piece : String) (pieces : List String) :
    bytesOf (piece :: pieces) = piece.toUTF8.data.toList ++ bytesOf pieces := by
  simp [bytesOf, String.toUTF8_eq_toByteArray]

/-! ### Sending -/

/-- An output with a limit takes the beginning of what is sent, and the sending fails where that
is not all. -/
theorem send_limited (taken : List UInt8) (n : Nat) (pieces : List String) :
    Sink.send ⟨taken, some n⟩ pieces =
      (⟨taken ++ (bytesOf pieces).take n, some (n - (bytesOf pieces).length)⟩,
        if n < (bytesOf pieces).length then .error .outputFull else .ok ()) := by
  induction pieces generalizing taken n with
  | nil => simp [Sink.send]
  | cons piece pieces ih =>
    rw [Sink.send, bytesOf_cons]
    generalize piece.toUTF8.data.toList = bytes
    by_cases hfits : bytes.length ≤ n
    · -- the piece goes through whole, and the rest has so much less room
      have hroom : n - bytes.length < (bytesOf pieces).length ↔
          n < bytes.length + (bytesOf pieces).length := by omega
      simp only [Sink.fits, Sink.accept, decide_eq_true hfits, if_true, ih, hroom,
        List.length_append, List.take_append, List.append_assoc, Nat.sub_sub]
    · -- the piece is cut, and nothing is sent after it
      have hfull : n < bytes.length := Nat.lt_of_not_le hfits
      have hcut : n - bytes.length = 0 := Nat.sub_eq_zero_of_le hfull.le
      have hless : n < bytes.length + (bytesOf pieces).length := Nat.lt_add_right _ hfull
      simp [Sink.fits, Sink.accept, hfits, hless, hless.le, hcut, List.take_append]

/-- Whether an output that takes `n` bytes has taken the beginning of some bytes, and whether that
is all of them decides how the sending has ended. -/
structure Fills {ε : Type} (bytes : List UInt8) (n : Nat) (full : ε) (out : Sink)
    (result : Except ε Unit) : Prop where
  taken : out.taken = bytes.take n
  length : out.taken.length = min n bytes.length
  error_iff : result = .error full ↔ n < bytes.length
  ok_iff : result = .ok () ↔ bytes.length ≤ n

theorem fills_send (n : Nat) (pieces : List String) :
    Fills (bytesOf pieces) n Disk.Fault.outputFull (Sink.send ⟨[], some n⟩ pieces).1
      (Sink.send ⟨[], some n⟩ pieces).2 := by
  rw [send_limited, List.nil_append]
  by_cases h : n < (bytesOf pieces).length
  · rw [if_pos h]
    exact ⟨rfl, List.length_take, iff_of_true rfl h, iff_of_false nofun (Nat.not_le_of_lt h)⟩
  · rw [if_neg h]
    exact ⟨rfl, List.length_take, iff_of_false nofun h, iff_of_true rfl (Nat.le_of_not_lt h)⟩

/-- Sending ends in the same way when its failure is given another name. -/
theorem Fills.mapError {ε ε' : Type} {bytes : List UInt8} {n : Nat} {full : ε} {out : Sink}
    {result : Except ε Unit} (h : Fills bytes n full out result) (name : ε → ε') :
    Fills bytes n (name full) out (result.mapError name) := by
  refine ⟨h.taken, h.length, ?_, by rw [mapError_eq_ok_iff, h.ok_iff]⟩
  rcases Nat.lt_or_ge n bytes.length with hless | hmore
  · rw [h.error_iff.2 hless, mapError_error]
    exact iff_of_true rfl hless
  · rw [h.ok_iff.2 hmore, mapError_ok]
    exact iff_of_false nofun (Nat.not_lt_of_le hmore)

/-! ### Previews -/

/-- A preview of a plan sends the pieces of its text, and tells of every file first. -/
theorem preview_of_plan (hplan : (plan d r input root).result = .ok outputs) (out : Sink) :
    preview d r input root out =
      ((out.send (previewPieces outputs)).1,
        { log := (plan d r input root).log ++
            List.replicate (plannedFiles outputs).length .previewed
          result := (out.send (previewPieces outputs)).2.mapError (.ofFault .writePreview) }) := by
  rw [preview, hplan, ← length_shown, ← List.map_const']

/-- The command that shows a preview leaves the disk alone. -/
theorem disk_runPreview (d : Disk) (roots : Command.Roots) :
    (Command.runPreview d roots).disk = d := by
  rw [Command.runPreview]
  split
  · dsimp only
    split <;> rfl
  · rfl

/-- What an output that takes `n` bytes has of a text is its beginning, for any list of outputs
that is rendered and for any plan that is previewed.  A preview fails exactly where there is more of
the text, in the same words wherever that is cut, and tells of every file in any case.  It gives no
disk back, and the command that shows one leaves the disk as it is. -/
theorem preview_limited (d : Disk) (r : Registry) (input root : Path) (n : Nat) :
    (∀ outputs : List Output,
      (Sink.send {} (previewPieces outputs)).1.taken = bytesOf (previewPieces outputs) ∧
      Fills (bytesOf (previewPieces outputs)) n Disk.Fault.outputFull
        (Sink.send ⟨[], some n⟩ (previewPieces outputs)).1
        (Sink.send ⟨[], some n⟩ (previewPieces outputs)).2) ∧
    (∀ outputs, (plan d r input root).result = .ok outputs →
      (preview d r input root {}).1.taken = bytesOf (previewPieces outputs) ∧
      Fills (bytesOf (previewPieces outputs)) n (Failure.ofFault .writePreview .outputFull)
        (preview d r input root ⟨[], some n⟩).1 (preview d r input root ⟨[], some n⟩).2.result ∧
      (preview d r input root ⟨[], some n⟩).2.log = (plan d r input root).log ++
        List.replicate (plannedFiles outputs).length .previewed) ∧
    (Failure.ofFault .writePreview .outputFull).chain =
      ["write preview", "failed to write whole buffer"] ∧
    (Command.runPreview d ⟨input, root⟩).disk = d := by
  have hwhole : ∀ outputs : List Output,
      (Sink.send {} (previewPieces outputs)).1.taken = bytesOf (previewPieces outputs) := by
    intro outputs
    rw [send_unlimited]
    rfl
  refine ⟨fun outputs => ⟨hwhole outputs, fills_send n _⟩, ?_, rfl, disk_runPreview d _⟩
  intro outputs hplan
  rw [preview_of_plan hplan, preview_of_plan hplan]
  exact ⟨hwhole outputs, (fills_send n _).mapError _, rfl⟩

/-- A disk with one document, of one letter that takes two bytes. -/
def oneLetter : Disk := (writeAll .empty [⟨"in/rules/a.md", "é"⟩]).disk

/-- The output is full after the first byte of the letter, and then at the end of the text. -/
theorem preview_limited_oneLetter :
    ∃ outputs, (plan oneLetter .standard "in" "out").result = .ok outputs ∧
      (preview oneLetter .standard "in" "out" ⟨[], some 71⟩).1.taken =
        (bytesOf (previewPieces outputs)).take 71 ∧
      (preview oneLetter .standard "in" "out" ⟨[], some 71⟩).1.taken.getLast? = some 0xc3 ∧
      (preview oneLetter .standard "in" "out" ⟨[], some 71⟩).2.result =
        .error (.ofFault .writePreview .outputFull) ∧
      (preview oneLetter .standard "in" "out" ⟨[], some 71⟩).2.log.count .previewed = 3 ∧
      (preview oneLetter .standard "in" "out" ⟨[], some 306⟩).2.result =
        .error (.ofFault .writePreview .outputFull) ∧
      (preview oneLetter .standard "in" "out" ⟨[], some 307⟩).2.result = .ok () := by
  have hok : (plan oneLetter .standard "in" "out").result.map (fun _ => ()) = .ok () := by
    decide +kernel
  have hlength : (preview oneLetter .standard "in" "out" {}).1.taken.length = 307 := by
    decide +kernel
  obtain ⟨outputs, hplan, -⟩ := map_eq_ok_iff.1 hok
  have hfills : ∀ n, _ := fun n =>
    (preview_limited oneLetter .standard "in" "out" n).2.1 outputs hplan
  obtain ⟨hwhole, hfirst, -⟩ := hfills 71
  rw [hwhole] at hlength
  refine ⟨outputs, hplan, hfirst.taken, by decide +kernel, hfirst.error_iff.2 ?_,
    by decide +kernel, (hfills 306).2.1.error_iff.2 ?_, (hfills 307).2.1.ok_iff.2 ?_⟩
  all_goals omega

end Rulebook
