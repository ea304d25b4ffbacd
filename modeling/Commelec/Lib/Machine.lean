/-
Commelec/Lib/Machine.lean

Machines that react to events, one after the other.  The library names nothing of the program it
is used for.
-/
import Mathlib.Data.List.Basic

namespace Effectful

/-- A reaction to an event: the next state, and what is put out.  No reaction means that the
event cannot happen. -/
def Machine (S E O : Type) : Type := E → S → Option (S × List O)

namespace Machine

variable {S E O : Type} {m : Machine S E O}

/-- Reactions to a sequence of events. -/
def run (m : Machine S E O) : List E → S → Option (S × List O)
  | [], s => some (s, [])
  | e :: es, s =>
    match m e s with
    | none => none
    | some (s', os) => (m.run es s').map fun r => (r.1, os ++ r.2)

theorem run_cons {e : E} {es : List E} {s s' : S} {os : List O} :
    m.run (e :: es) s = some (s', os) ↔
      ∃ s₁ os₁ os₂, m e s = some (s₁, os₁) ∧ m.run es s₁ = some (s', os₂) ∧ os = os₁ ++ os₂ := by
  rw [run]
  rcases he : m e s with - | ⟨s₁, os₁⟩
  · simp
  · simp only [Option.map_eq_some_iff, Prod.mk.injEq]
    constructor
    · rintro ⟨⟨s₂, os₂⟩, hes, rfl, rfl⟩
      exact ⟨s₁, os₁, os₂, rfl, hes, rfl⟩
    · rintro ⟨s₂, os₂, os₃, heq, hes, rfl⟩
      obtain ⟨rfl, rfl⟩ : s₁ = s₂ ∧ os₁ = os₂ := by simpa using heq
      exact ⟨(s', os₃), hes, rfl, rfl⟩

end Machine

end Effectful
