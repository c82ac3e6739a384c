/-
Rulebook/Proofs/Registration.lean

Registries that come of registering generators in turn, whatever the generators are.  What is
looked up for an assistant depends only on the registrations for it, and of those on the last
(`lastFor`); where there is none, it is what the registry started with.

One registration is `get?_register_eq`, and a row of them is `get?_registerAll`, by induction on
the row.  Since a generator serves the assistant that it is for, a plan holds for each assistant
what a generator for it makes, and one more generator changes the output of its assistant alone
(`plan_register`).

Main result `registered_in_turn`: all this of every row of generators, registered with an empty
registry or with the assistants' own generators (`InTurn`).
-/
import Rulebook.Proofs.Planning

namespace Rulebook

variable {d : Disk} {r : Registry} {g : Generator} {a : Assistant} {input root : Path}
variable {gs before after : List Generator} {outputs : List Output} {f : Failure}

/-! ### One registration -/

/-- The generator that an assistant has of its own. -/
def Generator.own : Assistant → Generator
  | .copilot => .copilot
  | .cline => .cline
  | .cursor => .cursor

theorem get?_standard (a : Assistant) : Registry.standard.get? a = some (.own a) := by
  cases a <;> rfl

theorem generator_eq_error_iff :
    r.generator a = .error f ↔ r.get? a = none ∧ f = { cause := .unregistered a } := by
  rw [Registry.generator]
  rcases r.get? a with - | g
  · simp [eq_comm]
  · simp

/-- Looking up says whether there is a generator, and which. -/
theorem toOption_generator (r : Registry) (a : Assistant) : (r.generator a).toOption = r.get? a := by
  rw [Registry.generator]
  rcases r.get? a with - | g <;> rfl

theorem generator_congr {r' : Registry} (h : r.get? a = r'.get? a) :
    r.generator a = r'.generator a := by
  rw [Registry.generator, Registry.generator, h]

theorem get?_register_eq (r : Registry) (g : Generator) (a : Assistant) :
    (r.register g).get? a = if a = g.assistant then some g else r.get? a := rfl

/-! ### Registering in turn -/

namespace Registry

/-- The registry after registering some generators in turn, and what each registration hands
back. -/
def registerAll (r : Registry) : List Generator → Registry × List (Option Generator)
  | [] => (r, [])
  | g :: gs =>
    let (reached, answers) := (r.register g).registerAll gs
    (reached, r.replaced? g :: answers)

@[simp] theorem registerAll_nil : r.registerAll [] = (r, []) := rfl

theorem registerAll_cons (r : Registry) (g : Generator) (gs : List Generator) :
    r.registerAll (g :: gs) =
      (((r.register g).registerAll gs).1, r.replaced? g :: ((r.register g).registerAll gs).2) := rfl

theorem registerAll_append (r : Registry) (before after : List Generator) :
    r.registerAll (before ++ after) =
      (((r.registerAll before).1.registerAll after).1,
        (r.registerAll before).2 ++ ((r.registerAll before).1.registerAll after).2) := by
  induction before generalizing r with
  | nil => rfl
  | cons g before ih => rw [List.cons_append, registerAll_cons, registerAll_cons, ih]; rfl

theorem length_registerAll (r : Registry) (gs : List Generator) :
    (r.registerAll gs).2.length = gs.length := by
  induction gs generalizing r with
  | nil => rfl
  | cons g gs ih => rw [registerAll_cons, List.length_cons, ih, List.length_cons]

end Registry

/-- The generator for an assistant that comes last in a row. -/
def lastFor (a : Assistant) (gs : List Generator) : Option Generator :=
  (gs.filter (·.assistant = a)).getLast?

@[simp] theorem lastFor_nil : lastFor a [] = none := rfl

theorem lastFor_cons (a : Assistant) (g : Generator) (gs : List Generator) :
    lastFor a (g :: gs) = (lastFor a gs).or (if a = g.assistant then some g else none) := by
  rw [lastFor, List.filter_cons]
  by_cases hg : g.assistant = a
  · rw [if_pos (by simpa using hg), if_pos hg.symm, List.getLast?_cons, ← lastFor]
    rcases lastFor a gs with - | last <;> rfl
  · rw [if_neg (by simpa using hg), if_neg (Ne.symm hg), Option.or_none, ← lastFor]

/-- After registering in turn, an assistant has the generator registered last for it, or else the
one from before. -/
theorem get?_registerAll (r : Registry) (gs : List Generator) (a : Assistant) :
    (r.registerAll gs).1.get? a = (lastFor a gs).or (r.get? a) := by
  induction gs generalizing r with
  | nil => rfl
  | cons g gs ih =>
    rw [Registry.registerAll_cons, ih, lastFor_cons, get?_register_eq, Option.or_assoc]
    split <;> rfl

/-- The registry after one more registration. -/
theorem registerAll_concat (r : Registry) (before : List Generator) (g : Generator) :
    (r.registerAll (before ++ [g])).1 = (r.registerAll before).1.register g := by
  rw [Registry.registerAll_append]
  rfl

/-- A registration hands back what looking up would have found. -/
theorem getElem?_registerAll (r : Registry) (before : List Generator) (g : Generator)
    (after : List Generator) :
    (r.registerAll (before ++ g :: after)).2[before.length]? =
      some ((r.registerAll before).1.get? g.assistant) := by
  rw [Registry.registerAll_append, Registry.registerAll_cons,
    List.getElem?_append_right (Registry.length_registerAll r before).le,
    Registry.length_registerAll, Nat.sub_self]
  rfl

/-! ### Plans of the registries reached -/

/-- The outputs of a plan are made of what is read, by the generators of their assistants. -/
theorem isMadeBy_of_plan (h : (plan d r input root).result = .ok outputs) :
    ∃ ds patterns, (loadRules d (input / rulesDir)).result = .ok ds ∧
      ReadsIgnore d (input / ignoreFile) patterns ∧
      ∀ output ∈ outputs, ∃ g, r.get? output.assistant = some g ∧
        output.IsMadeBy g ds patterns root := by
  cases plans_iff.2 h with
  | @planned ds patterns _ hload hreads _ hmade => exact ⟨ds, patterns, hload, hreads, hmade⟩

/-- The outputs with that of one generator in the place of the output for its assistant. -/
def replaceOutput (output : Output) (outputs : List Output) : List Output :=
  outputs.map fun old => if old.assistant = output.assistant then output else old

/-- One more generator changes the output for its assistant alone. -/
theorem plan_register (h : (plan d r input root).result = .ok outputs) (g : Generator) :
    ∃ ds patterns, (loadRules d (input / rulesDir)).result = .ok ds ∧
      ReadsIgnore d (input / ignoreFile) patterns ∧
      (plan d (r.register g) input root).result =
        .ok (replaceOutput (g.output ds patterns root) outputs) := by
  obtain ⟨ds, patterns, hload, hreads, gs, hgs, hget, rfl⟩ := plan_eq_ok_iff.1 h
  -- The generators of the new plan, in the same order.
  let now : Generator → Generator := fun old => if old.assistant = g.assistant then g else old
  have hnow : ∀ old, (now old).assistant = old.assistant := by
    intro old
    by_cases hold : old.assistant = g.assistant <;> simp [now, hold]
  refine ⟨ds, patterns, hload, readIgnore_eq_ok_iff.1 hreads,
    plan_eq_ok_iff.2 ⟨ds, patterns, hload, hreads, gs.map now, ?_, ?_, ?_⟩⟩
  · rw [List.map_map, ← hgs]
    exact List.map_congr_left fun old _ => hnow old
  · intro g' hg'
    obtain ⟨old, hold, rfl⟩ := List.mem_map.1 hg'
    rw [hnow, get?_register_eq]
    by_cases ha : old.assistant = g.assistant
    · simp [now, ha]
    · simpa [now, ha] using hget old hold
  · rw [replaceOutput, List.map_map, List.map_map]
    refine List.map_congr_left fun old _ => ?_
    show (if old.assistant = g.assistant then _ else _) = (now old).output ds patterns root
    by_cases ha : old.assistant = g.assistant <;> simp [now, ha]

/-! ### Registering in turn, and looking up and planning after it -/

/-- What registering some generators in turn should come to, for a registry that starts with the
usual generators, if any. -/
structure InTurn (usual : Assistant → Option Generator) (start : Registry)
    (gs : List Generator) : Prop where
  /-- Looking up finds the generator registered last for the assistant, or else the usual one. -/
  found_iff : ∀ a g, (start.registerAll gs).1.generator a = .ok g ↔
    (lastFor a gs).or (usual a) = some g
  /-- It fails just if there is none of the two, and says for which assistant. -/
  refused_iff : ∀ a f, (start.registerAll gs).1.generator a = .error f ↔
    (lastFor a gs).or (usual a) = none ∧ f = { cause := .unregistered a }
  /-- Each registration hands back what looking up would have found just before it. -/
  answers : (start.registerAll gs).2.length = gs.length ∧
    ∀ before g after, gs = before ++ g :: after →
      (start.registerAll gs).2[before.length]? =
        some ((start.registerAll before).1.generator g.assistant).toOption
  /-- It changes nothing for the other assistants. -/
  others : ∀ before g after, gs = before ++ g :: after → ∀ a ≠ g.assistant,
    (start.registerAll (before ++ [g])).1.generator a = (start.registerAll before).1.generator a
  /-- Every output of a plan is made by the generator that is found for its assistant, and which
  is for that assistant. -/
  planned : ∀ d input root outputs,
    (plan d (start.registerAll gs).1 input root).result = .ok outputs →
    ∃ ds patterns, (loadRules d (input / rulesDir)).result = .ok ds ∧
      ReadsIgnore d (input / ignoreFile) patterns ∧
      ∀ output ∈ outputs, ∃ g, (lastFor output.assistant gs).or (usual output.assistant) = some g ∧
        output.IsMadeBy g ds patterns root
  /-- With one more generator, all outputs but that for its assistant are the same. -/
  replanned : ∀ d input root outputs,
    (plan d (start.registerAll gs).1 input root).result = .ok outputs →
    ∀ g, ∃ ds patterns, (loadRules d (input / rulesDir)).result = .ok ds ∧
      ReadsIgnore d (input / ignoreFile) patterns ∧
      (plan d (start.registerAll (gs ++ [g])).1 input root).result =
        .ok (replaceOutput (g.output ds patterns root) outputs)

theorem inTurn (start : Registry) (gs : List Generator) : InTurn start.get? start gs where
  found_iff a g := by rw [generator_eq_ok_iff, get?_registerAll]
  refused_iff a f := by rw [generator_eq_error_iff, get?_registerAll]
  answers := by
    refine ⟨start.length_registerAll gs, fun before g after hgs => ?_⟩
    rw [hgs, getElem?_registerAll, toOption_generator]
  others before g _ _ a ha := by
    rw [registerAll_concat]
    exact generator_congr (Registry.get?_register_of_ne ha)
  planned d input root outputs hplan := by
    obtain ⟨ds, patterns, hload, hreads, hmade⟩ := isMadeBy_of_plan hplan
    refine ⟨ds, patterns, hload, hreads, fun output houtput => ?_⟩
    rw [← get?_registerAll]
    exact hmade output houtput
  replanned d input root outputs hplan g := by
    rw [registerAll_concat]
    exact plan_register hplan g

/-- Generators registered in turn are found, handed back and planned with as they should be, with
none to start with or with the assistants' own. -/
theorem registered_in_turn (gs : List Generator) :
    InTurn (fun _ => none) .empty gs ∧ InTurn (fun a => some (.own a)) .standard gs := by
  have hstandard : Registry.standard.get? = fun a => some (Generator.own a) := funext get?_standard
  exact ⟨inTurn .empty gs, hstandard ▸ inTurn .standard gs⟩

/-- All rules for cursor in one file. -/
def oneFileForCursor : Generator where
  assistant := .cursor
  layout := .merged "CURSOR.md"
  ignoreFile := ".cursorignore"

theorem registered_in_turn_oneFileForCursor :
    (Registry.standard.registerAll [oneFileForCursor]).1.generator .cursor = .ok oneFileForCursor ∧
    (Registry.standard.registerAll [oneFileForCursor]).2[0]? = some (some .cursor) ∧
    (Registry.empty.registerAll [oneFileForCursor]).1.generator .cline =
      .error { cause := .unregistered .cline } ∧
    ∃ ds patterns outputs, (plan oneRule .standard "in" "out").result = .ok outputs ∧
      (plan oneRule (Registry.standard.registerAll [oneFileForCursor]).1 "in" "out").result =
        .ok (replaceOutput (oneFileForCursor.output ds patterns "out") outputs) := by
  obtain ⟨hempty, hstandard⟩ := registered_in_turn [oneFileForCursor]
  have hok : (plan oneRule .standard "in" "out").result.map (fun _ => ()) = .ok () := by
    decide +kernel
  obtain ⟨outputs, hplan, -⟩ := map_eq_ok_iff.1 hok
  obtain ⟨ds, patterns, -, -, hregister⟩ :=
    (registered_in_turn []).2.replanned oneRule "in" "out" outputs hplan oneFileForCursor
  refine ⟨(hstandard.found_iff _ _).2 (by decide), ?_, (hempty.refused_iff _ _).2 (by decide),
    ds, patterns, outputs, hplan, hregister⟩
  exact hstandard.answers.2 [] oneFileForCursor [] rfl

end Rulebook
