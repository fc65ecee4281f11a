import Mathlib.Algebra.BigOperators.Group.List.Basic
import Mathlib.Tactic.Ring

/-!
# Summation by parts

The mean of a list of weights, each counted with its position. It is what the sums from every
position on add up to, and a position that gets another weight changes it by the difference.
-/

set_option autoImplicit false

namespace TokuQa.Lib

variable {R : Type} [CommRing R]

/-- The weights, the first of them at position `k`. -/
def momentFrom (k : R) : List R → R
  | [] => 0
  | x :: xs => k * x + momentFrom (k + 1) xs

theorem momentFrom_succ (k : R) (xs : List R) :
    momentFrom (k + 1) xs = momentFrom k xs + xs.sum := by
  induction xs generalizing k with
  | nil => simp [momentFrom]
  | cons x xs ih =>
    rw [momentFrom, momentFrom, ih, List.sum_cons]
    ring

theorem momentFrom_replicate_zero (k : R) (n : Nat) : momentFrom k (List.replicate n 0) = 0 := by
  induction n generalizing k with
  | zero => rfl
  | succ n ih => rw [List.replicate_succ, momentFrom, ih, mul_zero, zero_add]

theorem momentFrom_set (k : R) {xs : List R} {i : Nat} (h : i < xs.length) (x : R) :
    momentFrom k (xs.set i x) = momentFrom k xs + (k + i) * (x - xs[i]) := by
  induction xs generalizing k i with
  | nil => exact absurd h (Nat.not_lt_zero i)
  | cons y ys ih =>
    cases i with
    | zero =>
      rw [List.set_cons_zero, momentFrom, momentFrom, List.getElem_cons_zero, Nat.cast_zero]
      ring
    | succ i =>
      have hi : i < ys.length := Nat.lt_of_succ_lt_succ h
      rw [List.set_cons_succ, momentFrom, momentFrom, ih (k + 1) hi, List.getElem_cons_succ,
        Nat.cast_succ]
      ring

theorem foldr_add (xs : List R) (last : R) :
    xs.foldr (fun x sum => sum + x) last = xs.sum + last := by
  induction xs with
  | nil => rw [List.foldr_nil, List.sum_nil, zero_add]
  | cons x xs ih =>
    rw [List.foldr_cons, ih, List.sum_cons]
    ring

/-- **Summation by parts**: the sums of the weights from each position on. -/
theorem sum_scanr (xs : List R) (last : R) :
    (xs.scanr (fun x sum => sum + x) last).sum = momentFrom 1 (xs ++ [last]) := by
  induction xs with
  | nil => simp [momentFrom]
  | cons x xs ih =>
    rw [List.scanr_cons, List.sum_cons, ih, foldr_add, List.cons_append, momentFrom, momentFrom_succ,
      List.sum_append, List.sum_singleton, List.sum_cons]
    ring

end TokuQa.Lib
