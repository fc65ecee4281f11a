import Mathlib.Tactic.Common

/-!
# Calls that throw

What a sequence of fallible calls did when it came to an end. Each lemma is an equivalence, so
a hypothesis that a method returned unfolds, step by step, into what its steps returned.
-/

set_option autoImplicit false

namespace TokuQa.Lib

variable {ε α β : Type}

theorem bind_eq_ok {x : Except ε α} {f : α → Except ε β} {b : β} :
    (x >>= f) = .ok b ↔ ∃ a, x = .ok a ∧ f a = .ok b := by
  constructor
  · intro h
    cases x with
    | error e => cases h
    | ok a => exact ⟨a, rfl, h⟩
  · rintro ⟨a, rfl, h⟩
    exact h

/-- A check that throws, at the head of a method. -/
theorem check_eq_ok {c : Prop} [Decidable c] {e : ε} {x : Except ε α} {a : α} :
    (do
      if c then
        throw e
      x) = .ok a ↔ ¬ c ∧ x = .ok a := by
  by_cases hc : c
  · rw [if_pos hc]
    refine iff_of_false (fun h => ?_) (fun h => h.1 hc)
    cases h
  · rw [if_neg hc]
    exact ⟨fun h => ⟨hc, h⟩, And.right⟩

end TokuQa.Lib
