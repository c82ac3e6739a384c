/-
Rulebook/Registry.lean

Which generator serves which assistant.  A registry holds at most one generator
for each; registering another one for the same assistant takes its place and
hands the old one back.
-/
import Rulebook.Generator

namespace Rulebook

/-- The generator of each assistant that has one. -/
structure Registry where
  get? : Assistant → Option Generator
  /-- Whatever is held for an assistant is for that assistant. -/
  assistant_eq : ∀ a g, get? a = some g → g.assistant = a

namespace Registry

/-- No generator for anyone. -/
def empty : Registry := ⟨fun _ => none, by simp⟩

/-- A registry in which a generator serves its assistant. -/
def register (r : Registry) (g : Generator) : Registry where
  get? a := if a = g.assistant then some g else r.get? a
  assistant_eq := by
    intro a g' h
    split at h
    · next ha => rw [← Option.some.inj h, ha]
    · exact r.assistant_eq a g' h

/-- The generator that another one would take the place of. -/
def replaced? (r : Registry) (g : Generator) : Option Generator := r.get? g.assistant

/-- The assistants' own generators. -/
def standard : Registry :=
  ((empty.register .copilot).register .cline).register .cursor

/-! ### Looking up -/

@[simp] theorem get?_empty (a : Assistant) : empty.get? a = none := rfl

@[simp] theorem get?_register_self (r : Registry) (g : Generator) :
    (r.register g).get? g.assistant = some g := by
  simp [register]

theorem get?_register_of_ne {r : Registry} {g : Generator} {a : Assistant}
    (h : a ≠ g.assistant) : (r.register g).get? a = r.get? a := by
  simp [register, h]

end Registry

end Rulebook
