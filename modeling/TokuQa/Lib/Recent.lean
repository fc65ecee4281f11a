import Mathlib.Algebra.BigOperators.Group.List.Basic
import Mathlib.Algebra.Field.Rat
import Mathlib.Data.List.DropRight
import Mathlib.Data.List.GetD
import Mathlib.Tactic.FieldSimp
import Mathlib.Tactic.Linarith

/-!
# The last results of a stream

A queue keeps the last results: before one is pushed, the oldest is shifted out if there are more
than `n` of them. So it is the last `n + 1` that are kept (`foldl_pushRecent`), and their mean is
that of the last `n` exactly when the result that is one too many is this mean itself
(`mean_recent_iff`).
-/

set_option autoImplicit false

namespace TokuQa.Lib

variable {α : Type}

/-- The oldest element is at the head. -/
def pushRecent (n : Nat) (recent : List α) (x : α) : List α :=
  (if n < recent.length then recent.tail else recent) ++ [x]

theorem pushRecent_rtake (n : Nat) (xs : List α) (x : α) :
    pushRecent n (xs.rtake (n + 1)) x = (xs ++ [x]).rtake (n + 1) := by
  have hlen : (xs.rtake (n + 1)).length = xs.length - (xs.length - (n + 1)) := by
    rw [List.rtake, List.length_drop]
  rw [pushRecent, hlen, List.rtake, List.rtake, List.length_append, List.length_singleton]
  rcases Nat.lt_or_ge n xs.length with hlt | hge
  · rw [if_pos (by omega), List.tail_drop,
      (by omega : xs.length - (n + 1) + 1 = xs.length + 1 - (n + 1)),
      List.drop_append_of_le_length (by omega)]
  · rw [if_neg (by omega), (by omega : xs.length + 1 - (n + 1) = 0),
      (by omega : xs.length - (n + 1) = 0), List.drop_zero, List.drop_zero]

/-- **One more than `n` are kept.** -/
theorem foldl_pushRecent (n : Nat) (xs : List α) : xs.foldl (pushRecent n) [] = xs.rtake (n + 1) := by
  induction xs using List.reverseRecOn with
  | nil => exact (List.drop_nil).symm
  | append_singleton xs x ih => rw [List.foldl_concat, ih, pushRecent_rtake]

def mean (xs : List ℚ) : ℚ := xs.sum / xs.length

/-- A mean stays when a number comes in that is the mean. -/
theorem mean_cons_iff (x : ℚ) {xs : List ℚ} (h : xs ≠ []) :
    mean (x :: xs) = mean xs ↔ x = mean xs := by
  have hlen : (xs.length : ℚ) ≠ 0 :=
    Nat.cast_ne_zero.mpr fun h0 => h (List.length_eq_zero_iff.mp h0)
  have hlen' : (xs.length : ℚ) + 1 ≠ 0 := Nat.cast_add_one_ne_zero _
  unfold mean
  rw [List.sum_cons, List.length_cons, Nat.cast_add_one, div_eq_div_iff hlen' hlen, eq_div_iff hlen]
  constructor
  · intro heq
    linarith
  · intro heq
    linarith

/-- The mean of the last `n + 1` is that of the last `n`: there are no more than `n`, or the one
before these is their mean. -/
def SameMean (n : Nat) (xs : List ℚ) : Prop :=
  n < xs.length → xs.getD (xs.length - (n + 1)) 0 = mean (xs.rtake n)

instance (n : Nat) (xs : List ℚ) : Decidable (SameMean n xs) := inferInstanceAs (Decidable (_ → _))

theorem mean_recent_iff {n : Nat} (hn : 0 < n) (xs : List ℚ) :
    mean (xs.rtake (n + 1)) = mean (xs.rtake n) ↔ SameMean n xs := by
  rcases Nat.lt_or_ge n xs.length with hlt | hge
  · have hidx : xs.length - (n + 1) < xs.length := by omega
    have hcons : xs.rtake (n + 1) = xs[xs.length - (n + 1)] :: xs.rtake n := by
      rw [List.rtake, List.drop_eq_getElem_cons hidx,
        (by omega : xs.length - (n + 1) + 1 = xs.length - n)]
      rfl
    have hne : xs.rtake n ≠ [] := by
      rw [List.rtake, ne_eq, List.drop_eq_nil_iff]
      omega
    rw [hcons, mean_cons_iff _ hne, SameMean, List.getD_eq_getElem _ _ hidx]
    exact ⟨fun h _ => h, fun h => h hlt⟩
  · have hall : ∀ k, n ≤ k → xs.rtake k = xs := by
      intro k hk
      rw [List.rtake, (by omega : xs.length - k = 0), List.drop_zero]
    rw [hall n le_rfl, hall (n + 1) (Nat.le_succ n)]
    exact iff_of_true rfl fun hlt => absurd hlt (not_lt.mpr hge)

end TokuQa.Lib
