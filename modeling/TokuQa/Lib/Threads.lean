import Mathlib.Algebra.BigOperators.Fin
import Mathlib.Tactic.Abel

/-!
# One thread moves

The threads of a system are a function from their numbers to their states, and a step of the
system changes it at one number. Three facts are all that is used of it: what holds of every
thread, or of any two, still does if it holds of the one that moved, and a sum over the threads
changes by what that one contributes.

A thread that adds up a number of all threads reads them one after another. What it will have
in the end is what it has and the numbers it has yet to read (`remaining`), as they are then.
-/

set_option autoImplicit false

namespace TokuQa.Lib

variable {ι τ : Type} [DecidableEq ι]

theorem forall_update {P : ι → τ → Prop} {g : ι → τ} {i : ι} {a : τ} (hg : ∀ j, P j (g j))
    (ha : P i a) : ∀ j, P j (Function.update g i a j) := by
  intro j
  by_cases hj : j = i
  · subst hj
    rw [Function.update_self]
    exact ha
  · rw [Function.update_of_ne hj]
    exact hg j

/-- What holds of any two threads still does if it holds of the one that moved and each other. -/
theorem pairwise_update {R : τ → τ → Prop} (symm : ∀ {a b}, R a b → R b a) {g : ι → τ} {i : ι}
    {a : τ} (hg : ∀ j k, j ≠ k → R (g j) (g k)) (ha : ∀ j, j ≠ i → R a (g j)) :
    ∀ j k, j ≠ k → R (Function.update g i a j) (Function.update g i a k) := by
  intro j k hne
  by_cases hj : j = i
  · subst hj
    rw [Function.update_self, Function.update_of_ne (Ne.symm hne)]
    exact ha k (Ne.symm hne)
  · rw [Function.update_of_ne hj]
    by_cases hk : k = i
    · subst hk
      rw [Function.update_self]
      exact symm (ha j hj)
    · rw [Function.update_of_ne hk]
      exact hg j k hne

/-- Changing one thread changes a sum by what that thread contributes. -/
theorem sum_update [Fintype ι] {M : Type} [AddCommMonoid M] (f : τ → M) (g : ι → τ) (i : ι)
    (a : τ) : ∑ j, f (Function.update g i a j) + f (g i) = ∑ j, f (g j) + f a := by
  have hnew := Finset.add_sum_erase Finset.univ (fun j => f (Function.update g i a j))
    (Finset.mem_univ i)
  have hold := Finset.add_sum_erase Finset.univ (fun j => f (g j)) (Finset.mem_univ i)
  have hrest : ∑ j ∈ Finset.univ.erase i, f (Function.update g i a j) =
      ∑ j ∈ Finset.univ.erase i, f (g j) := by
    refine Finset.sum_congr rfl fun j hj => ?_
    rw [Function.update_of_ne (Finset.ne_of_mem_erase hj)]
  rw [← hnew, ← hold, hrest]
  simp only [Function.update_self]
  abel

/-! ## Reading one after another -/

section

variable {n : Nat}

/-- The numbers from the `k`th on. -/
def remaining (k : Nat) (f : Fin n → Nat) : Nat := ∑ j, if k ≤ j.val then f j else 0

theorem remaining_zero (f : Fin n → Nat) : remaining 0 f = ∑ j, f j :=
  Finset.sum_congr rfl fun _ _ => if_pos (Nat.zero_le _)

theorem remaining_of_le {k : Nat} (h : n ≤ k) (f : Fin n → Nat) : remaining k f = 0 :=
  Finset.sum_eq_zero fun j _ => if_neg (Nat.not_le_of_lt (j.isLt.trans_le h))

theorem remaining_eq {k : Nat} (h : k < n) (f : Fin n → Nat) :
    remaining k f = f ⟨k, h⟩ + remaining (k + 1) f := by
  have hsplit : ∀ j : Fin n, (if k ≤ j.val then f j else 0) =
      (if ⟨k, h⟩ = j then f j else 0) + if k + 1 ≤ j.val then f j else 0 := by
    intro j
    by_cases hj : k = j.val
    · have he : (⟨k, h⟩ : Fin n) = j := Fin.ext hj
      rw [if_pos hj.le, if_pos he, if_neg (by omega), Nat.add_zero]
    · have hne : ¬ (⟨k, h⟩ : Fin n) = j := fun he => hj (congrArg Fin.val he)
      rw [if_neg hne, Nat.zero_add]
      by_cases hle : k + 1 ≤ j.val
      · rw [if_pos hle, if_pos (by omega)]
      · rw [if_neg hle, if_neg (by omega)]
  unfold remaining
  rw [Finset.sum_congr rfl fun j _ => hsplit j, Finset.sum_add_distrib, Finset.sum_ite_eq,
    if_pos (Finset.mem_univ _)]

/-- One of the numbers goes up, and shows if it has yet to be read. -/
theorem remaining_update (k : Nat) (f : Fin n → Nat) (i : Fin n) :
    remaining k (Function.update f i (f i + 1)) =
      remaining k f + if k ≤ i.val then 1 else 0 := by
  have hterm : ∀ j, (if k ≤ j.val then Function.update f i (f i + 1) j else 0) =
      (if k ≤ j.val then f j else 0) + if i = j then (if k ≤ i.val then 1 else 0) else 0 := by
    intro j
    by_cases hj : i = j
    · subst hj
      rw [Function.update_self, if_pos rfl]
      split <;> rfl
    · rw [Function.update_of_ne (Ne.symm hj), if_neg hj, Nat.add_zero]
  unfold remaining
  rw [Finset.sum_congr rfl fun j _ => hterm j, Finset.sum_add_distrib, Finset.sum_ite_eq,
    if_pos (Finset.mem_univ _)]

end

end TokuQa.Lib
