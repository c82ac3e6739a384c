/-
Rulebook/Proofs/Sections.lean

What an assistant is shown of a text, said line by line.  `Section.select` is a run
that carries the section it is in.  Here the same lines are given by a law without
any state: what a line contributes depends on the line and on the last heading
before it, and on nothing else (`Contributes`).

The run and the law meet in one invariant: the run is in a foreign section exactly
where the last heading before is closed to the assistant (`next_ne_foreign_iff`).
It is kept by every line, so the whole run contributes what the law says
(`select_contributions`).

The run may as well carry two flags, one for whether lines are included and one for
whether they stand in an own section (`Flags`).  The second flag is set and taken
back by headings, and no line that is shown depends on it (`Flags.select_eq`).

Main result `excerpt_eq_contributions`: the excerpt of a text is what its lines
contribute, and it is what the run with two flags shows.
-/
import Mathlib.Logic.ExistsUnique
import Rulebook.Excerpt

namespace Rulebook

open Text

/-! ### Cutting a tag out -/

/-- `rest` is the line without the first occurrence of the tag. -/
def IsCut (tag line rest : List Char) : Prop :=
  ∃ before after, line = before ++ tag ++ after ∧ rest = before ++ after ∧
    ∀ b c, line = b ++ tag ++ c → before.length ≤ b.length

theorem IsCut.isInfix {tag line rest : List Char} (h : IsCut tag line rest) : tag <:+: line := by
  obtain ⟨before, after, hline, -⟩ := h
  exact ⟨before, after, hline.symm⟩

/-- There is one first occurrence, so there is one text without it. -/
theorem IsCut.unique {tag line rest rest' : List Char} (h : IsCut tag line rest)
    (h' : IsCut tag line rest') : rest = rest' := by
  obtain ⟨before, after, hline, rfl, hmin⟩ := h
  obtain ⟨before', after', hline', rfl, hmin'⟩ := h'
  have hlen : before.length = before'.length :=
    Nat.le_antisymm (hmin _ _ hline') (hmin' _ _ hline)
  have heq : before ++ (tag ++ after) = before' ++ (tag ++ after') := by
    rw [← List.append_assoc, ← List.append_assoc, ← hline, ← hline']
  obtain ⟨rfl, htag⟩ := List.append_inj heq hlen
  rw [List.append_cancel_left htag]

theorem cutFirst?_eq_none_iff {tag line : List Char} :
    cutFirst? tag line = none ↔ ¬ tag <:+: line := by
  induction line with
  | nil => by_cases h : tag = [] <;> simp [cutFirst?, h]
  | cons c cs ih =>
    rw [cutFirst?, List.infix_cons_iff]
    by_cases h : tag <+: c :: cs
    · simp [h]
    · simp [h, ih]

theorem isCut_of_cutFirst? {tag line rest : List Char} (h : cutFirst? tag line = some rest) :
    IsCut tag line rest := by
  induction line generalizing rest with
  | nil =>
    by_cases ht : tag = []
    · obtain rfl : [] = rest := by simpa [cutFirst?, ht] using h
      exact ⟨[], [], by simp [ht], rfl, by simp⟩
    · simp [cutFirst?, ht] at h
  | cons c cs ih =>
    rw [cutFirst?] at h
    by_cases hp : tag <+: c :: cs
    · obtain ⟨after, hafter⟩ := hp
      have hrest : after = rest := by simpa [← hafter] using h
      exact ⟨[], after, by simp [hafter], by simp [hrest], by simp⟩
    · rw [if_neg (by simpa using hp)] at h
      obtain ⟨r, hr, rfl⟩ := Option.map_eq_some_iff.1 h
      obtain ⟨before, after, hcs, rfl, hmin⟩ := ih hr
      refine ⟨c :: before, after, by simp [hcs], rfl, fun b k hb => ?_⟩
      -- an occurrence at the very start is ruled out by `hp`
      rcases b with - | ⟨x, b⟩
      · exact absurd ⟨k, by simpa using hb.symm⟩ hp
      · have := hmin b k (by simpa using (List.cons.inj hb).2)
        simpa using this

/-! ### What a line contributes -/

theorem bracket_mem_tag (a : Assistant) : '[' ∈ a.tag := by
  simp [Assistant.tag]

/-- The last heading among some lines. -/
def lastHeading? (ls : List (List Char)) : Option (List Char) := (ls.filter isHeading).getLast?

/-- Whether text under a heading is for an assistant: there is no heading, or it holds
the assistant's tag, or no bracket. -/
def OpenUnder (a : Assistant) (heading? : Option (List Char)) : Prop :=
  ∀ h, heading? = some h → a.tag <:+: h ∨ '[' ∉ h

/-- What a line contributes to the excerpt for an assistant, if anything, under the
last heading before it. -/
inductive Contributes (a : Assistant) (heading? : Option (List Char)) (line : List Char) :
    Option (List Char) → Prop
  | own {rest : List Char} : isHeading line = true → IsCut a.tag line rest →
      Contributes a heading? line (some (trim rest))
  | shared : isHeading line = true → '[' ∉ line → Contributes a heading? line (some line)
  | foreign : isHeading line = true → '[' ∈ line → ¬ a.tag <:+: line →
      Contributes a heading? line none
  | text : isHeading line = false → allBlank line = false → OpenUnder a heading? →
      Contributes a heading? line (some line)
  | hidden : isHeading line = false → allBlank line = true ∨ ¬ OpenUnder a heading? →
      Contributes a heading? line none

/-- A line has one contribution. -/
theorem Contributes.unique {a : Assistant} {heading? : Option (List Char)} {line : List Char}
    {x y : Option (List Char)} (hx : Contributes a heading? line x)
    (hy : Contributes a heading? line y) : x = y := by
  have hbracket : a.tag <:+: line → '[' ∈ line := fun h => h.subset (bracket_mem_tag a)
  cases hx with
  | own hh hcut =>
    cases hy with
    | own _ hcut' => rw [hcut.unique hcut']
    | shared _ hno => exact absurd (hbracket hcut.isInfix) hno
    | foreign _ _ hno => exact absurd hcut.isInfix hno
    | text hh' | hidden hh' => simp [hh] at hh'
  | shared hh hno =>
    cases hy with
    | own _ hcut => exact absurd (hbracket hcut.isInfix) hno
    | shared => rfl
    | foreign _ hyes => exact absurd hyes hno
    | text hh' | hidden hh' => simp [hh] at hh'
  | foreign hh hyes hno =>
    cases hy with
    | own _ hcut => exact absurd hcut.isInfix hno
    | shared _ hno' => exact absurd hyes hno'
    | foreign => rfl
    | text hh' | hidden hh' => simp [hh] at hh'
  | text hh hb ho =>
    cases hy with
    | own hh' | shared hh' | foreign hh' => simp [hh] at hh'
    | text => rfl
    | hidden _ hc => simp [hb, ho] at hc
  | hidden hh hc =>
    cases hy with
    | own hh' | shared hh' | foreign hh' => simp [hh] at hh'
    | text _ hb ho => simp [hb, ho] at hc
    | hidden => rfl

/-- What the lines of a text contribute, line by line. -/
def Contributions (a : Assistant) (ls : List (List Char)) (shown : List (Option (List Char))) :
    Prop :=
  shown.length = ls.length ∧ ∀ (i : Nat) (line : List Char) (out : Option (List Char)),
    ls[i]? = some line → shown[i]? = some out →
      Contributes a (lastHeading? (ls.take i)) line out

theorem Contributions.unique {a : Assistant} {ls : List (List Char)}
    {shown shown' : List (Option (List Char))} (h : Contributions a ls shown)
    (h' : Contributions a ls shown') : shown = shown' := by
  refine List.ext_getElem (h.1.trans h'.1.symm) fun i hi hi' => ?_
  have hlt : i < ls.length := h.1 ▸ hi
  have hline : ls[i]? = some ls[i] := List.getElem?_eq_getElem hlt
  exact (h.2 i _ _ hline (List.getElem?_eq_getElem hi)).unique
    (h'.2 i _ _ hline (List.getElem?_eq_getElem hi'))

/-! ### The run over the lines -/

theorem lastHeading?_append_singleton (done : List (List Char)) (line : List Char) :
    lastHeading? (done ++ [line]) = if isHeading line then some line else lastHeading? done := by
  rcases h : isHeading line with - | - <;> simp [lastHeading?, h]

/-- The invariant of a run: it is in a foreign section exactly where text under the last
heading is not for the assistant. -/
theorem next_ne_foreign_iff {a : Assistant} {s : Section} {done : List (List Char)}
    (h : s ≠ .foreign ↔ OpenUnder a (lastHeading? done)) (line : List Char) :
    s.next (.ofLine a.tag line) ≠ .foreign ↔ OpenUnder a (lastHeading? (done ++ [line])) := by
  rw [lastHeading?_append_singleton]
  rcases hh : isHeading line with - | -
  · rcases hb : allBlank line with - | - <;> simpa [LineRole.ofLine, hh, hb, Section.next] using h
  · rcases hc : cutFirst? a.tag line with - | rest
    · have hno : ¬ a.tag <:+: line := cutFirst?_eq_none_iff.1 hc
      by_cases hbr : '[' ∈ line <;>
        simp [LineRole.ofLine, hh, hc, hbr, hno, Section.next, OpenUnder]
    · have hyes : a.tag <:+: line := (isCut_of_cutFirst? hc).isInfix
      simp [LineRole.ofLine, hh, hc, hyes, Section.next, OpenUnder]

/-- What is shown of a line in a section is what the line contributes. -/
theorem contributes_shown? {a : Assistant} {s : Section} {heading? : Option (List Char)}
    (h : s ≠ .foreign ↔ OpenUnder a heading?) (line : List Char) :
    Contributes a heading? line (s.shown? line (.ofLine a.tag line)) := by
  rcases hh : isHeading line with - | -
  · rcases hb : allBlank line with - | -
    · rw [LineRole.ofLine, if_neg (by simp [hh]), if_neg (by simp [hb])]
      by_cases hs : s = .foreign
      · have hclosed : ¬ OpenUnder a heading? := fun ho => h.2 ho hs
        simpa [Section.shown?, hs] using Contributes.hidden hh (.inr hclosed)
      · simpa [Section.shown?, hs] using Contributes.text hh hb (h.1 hs)
    · rw [LineRole.ofLine, if_neg (by simp [hh]), if_pos hb]
      exact .hidden hh (.inl hb)
  · rcases hc : cutFirst? a.tag line with - | rest
    · have hno : ¬ a.tag <:+: line := cutFirst?_eq_none_iff.1 hc
      by_cases hbr : '[' ∈ line
      · simpa [LineRole.ofLine, Section.shown?, hh, hc, hbr] using Contributes.foreign hh hbr hno
      · simpa [LineRole.ofLine, Section.shown?, hh, hc, hbr] using Contributes.shared hh hbr
    · simpa [LineRole.ofLine, Section.shown?, hh, hc] using
        Contributes.own hh (isCut_of_cutFirst? hc)

/-- A run shows what its lines contribute.  `done` are the lines before them. -/
theorem select_contributions {a : Assistant} {s : Section} {done : List (List Char)}
    (h : s ≠ .foreign ↔ OpenUnder a (lastHeading? done)) (ls : List (List Char)) :
    ∃ shown : List (Option (List Char)), shown.length = ls.length ∧
      (∀ (i : Nat) (line : List Char) (out : Option (List Char)),
        ls[i]? = some line → shown[i]? = some out →
          Contributes a (lastHeading? (done ++ ls.take i)) line out) ∧
      Section.select a.tag s ls = shown.filterMap id := by
  -- every line passes the invariant on to the lines after it
  induction ls generalizing s done with
  | nil => exact ⟨[], rfl, by simp, rfl⟩
  | cons line ls ih =>
    obtain ⟨shown, hlen, hshown, hsel⟩ := ih (next_ne_foreign_iff h line)
    refine ⟨s.shown? line (.ofLine a.tag line) :: shown, by simp [hlen], ?_, ?_⟩
    · intro i l out hl hout
      rcases i with - | i
      · obtain rfl : line = l := by simpa using hl
        obtain rfl : s.shown? line (.ofLine a.tag line) = out := by simpa using hout
        simpa using contributes_shown? h line
      · simpa using hshown i l out (by simpa using hl) (by simpa using hout)
    · rw [Section.select, hsel]
      rcases s.shown? line (.ofLine a.tag line) with - | text <;> rfl

/-! ### Two flags in place of a section -/

/-- What a run may carry in place of a section. -/
structure Flags where
  /-- Whether lines of text are shown. -/
  included : Bool
  /-- Whether they stand under a heading with the assistant's own tag. -/
  inOwn : Bool

namespace Flags

/-- A heading ends the section that it is met in. -/
def leave (f : Flags) : Flags := { f with inOwn := false }

/-- The flags after a line, and what is shown of it. -/
def step (f : Flags) (line : List Char) : LineRole → Flags × Option (List Char)
  | .ownHeading rest => ({ f.leave with included := true, inOwn := true }, some (trim rest))
  | .foreignHeading => ({ f.leave with included := false }, none)
  | .sharedHeading => ({ f.leave with included := !f.leave.inOwn }, some line)
  | .content => (f, if f.included then some line else none)
  | .blank => (f, none)

/-- The lines shown to the assistant with the given tag, starting with some flags. -/
def select (tag : List Char) (f : Flags) : List (List Char) → List (List Char)
  | [] => []
  | line :: ls =>
    match f.step line (LineRole.ofLine tag line) with
    | (f', some text) => text :: select tag f' ls
    | (f', none) => select tag f' ls

/-- Only whether lines are included counts: the run is that of a section.  A heading
without a bracket includes the lines under it in any case, since it has just ended the
section it is met in. -/
theorem select_eq (tag : List Char) (f : Flags) (ls : List (List Char)) :
    f.select tag ls = Section.select tag (if f.included then .shared else .foreign) ls := by
  induction ls generalizing f with
  | nil => rfl
  | cons line ls ih =>
    rw [select, Section.select]
    rcases hf : f.included with - | - <;>
      rcases LineRole.ofLine tag line with rest | - | - | - | - <;>
        simp [step, leave, Section.next, Section.shown?, Section.select_own, ih, hf]

end Flags

/-! ### The excerpt -/

/-- The excerpt of a text for an assistant is what its lines contribute, one below the
other: each line contributes in one way only, which depends on the line and the last
heading before it.  A run with two flags shows the same, and what it shows does not
depend on whether it is in an own section. -/
theorem excerpt_eq_contributions (a : Assistant) (text : String) :
    (∃! shown, Contributions a (lines text.toList) shown) ∧
      (∃ shown, Contributions a (lines text.toList) shown ∧
        excerpt a text = String.ofList (unlines (shown.filterMap id))) ∧
      excerpt a text =
        String.ofList (unlines (Flags.select a.tag ⟨true, false⟩ (lines text.toList))) ∧
      ∀ (included inOwn inOwn' : Bool) (ls : List (List Char)),
        Flags.select a.tag ⟨included, inOwn⟩ ls = Flags.select a.tag ⟨included, inOwn'⟩ ls := by
  have hstart : Section.shared ≠ .foreign ↔ OpenUnder a (lastHeading? []) := by
    simp [OpenUnder, lastHeading?]
  obtain ⟨shown, hlen, hshown, hsel⟩ := select_contributions hstart (lines text.toList)
  have hc : Contributions a (lines text.toList) shown := ⟨hlen, by simpa using hshown⟩
  refine ⟨⟨shown, hc, fun other ho => ho.unique hc⟩, ⟨shown, hc, ?_⟩, ?_, ?_⟩
  · rw [excerpt, excerptLines, hsel]
  · rw [excerpt, excerptLines, Flags.select_eq]
    rfl
  · intro included inOwn inOwn' ls
    rw [Flags.select_eq, Flags.select_eq]

end Rulebook
