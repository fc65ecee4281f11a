import Mathlib.Algebra.BigOperators.Group.List.Basic
import Mathlib.Algebra.Order.BigOperators.Group.List
import Mathlib.Algebra.Order.Ring.Nat
import Mathlib.Order.Bounds.Defs

/-!
# Cumulative counts

A histogram is searched by adding up its counts until there are enough of them. `firstReaching` is
such a loop, from some place on; what is enough is any property of the number counted.

* `counts` is the histogram of a list, and its cumulative counts are numbers of elements up to a
  bound (`cumulative_counts`);
* `firstReaching_spec`: where the loop stops, and that it does not stop before;
* `isLeast_firstReaching_iff`: it finds the first place of another property exactly when the two are
  not told apart by a count the loop comes to, and no place before its first one would do.
-/

set_option autoImplicit false

namespace TokuQa.Lib

/-- The counts up to a place, and of the place. -/
def cumulative (values : List Nat) (i : Nat) : Nat := (values.take (i + 1)).sum

/-- The loop from place `i` on, with `ncur` counted before it: the first place with enough of them,
or the place behind the last one. -/
def firstReaching (reached : Nat → Bool) : Nat → Nat → List Nat → Nat
  | _, i, [] => i
  | ncur, i, v :: values =>
    if reached (ncur + v) then i else firstReaching reached (ncur + v) (i + 1) values

/-! ## Histograms -/

/-- How many times each number below `n` is in the list. -/
def counts (n : Nat) (l : List Nat) : List Nat := (List.range n).map fun i => l.count i

section

variable {n i : Nat} {l l' : List Nat}

theorem length_counts (n : Nat) (l : List Nat) : (counts n l).length = n := by
  rw [counts, List.length_map, List.length_range]

theorem counts_nil (n : Nat) : counts n [] = List.replicate n 0 := by
  refine List.eq_replicate_iff.mpr ⟨length_counts n [], fun c hc => ?_⟩
  obtain ⟨i, -, rfl⟩ := List.mem_map.mp hc
  exact List.count_nil

/-- One more element. -/
theorem counts_concat (l : List Nat) (i : Nat) :
    counts n (l ++ [i]) = (counts n l).modify i (· + 1) := by
  refine List.ext_getElem? fun j => ?_
  rw [List.getElem?_modify, counts, counts, List.getElem?_map, List.getElem?_map]
  cases hj : (List.range n)[j]? with
  | none => rfl
  | some k =>
    obtain ⟨-, rfl⟩ := List.getElem?_eq_some_iff.mp hj
    rw [List.getElem_range, Option.map_some, Option.map_some, Option.map_eq_map, Option.map_some,
      List.count_append]
    by_cases hij : i = j
    · rw [if_pos hij, hij, List.count_singleton_self]
    · rw [if_neg hij, List.count_singleton, beq_false_of_ne hij]
      rfl

theorem counts_append (l l' : List Nat) :
    List.zipWith (· + ·) (counts n l) (counts n l') = counts n (l ++ l') := by
  rw [counts, counts, counts, List.zipWith_map, List.zipWith_self]
  refine List.map_congr_left fun i _ => List.count_append.symm

theorem countP_lt_succ (n : Nat) (l : List Nat) :
    l.countP (· < n + 1) = l.countP (· < n) + l.count n := by
  induction l with
  | nil => rfl
  | cons x l ih =>
    rw [List.countP_cons, List.countP_cons, List.count_cons, ih]
    simp only [decide_eq_true_eq, beq_iff_eq]
    split_ifs <;> omega

/-- The counts below a bound. -/
theorem sum_counts (n : Nat) (l : List Nat) : (counts n l).sum = l.countP (· < n) := by
  induction n with
  | zero => simp [counts]
  | succ n ih =>
    rw [counts, List.range_succ, List.map_append, List.sum_append, ← counts, ih, List.map_singleton,
      List.sum_singleton, countP_lt_succ]

theorem cumulative_counts (hi : i < n) : cumulative (counts n l) i = l.countP (· ≤ i) := by
  rw [cumulative, counts, ← List.map_take, List.take_range, Nat.min_eq_left hi, ← counts,
    sum_counts]
  exact List.countP_congr fun x _ => by rw [decide_eq_true_eq, decide_eq_true_eq, Nat.lt_succ_iff]

/-- All of them. -/
theorem sum_counts_of_lt (h : ∀ x ∈ l, x < n) : (counts n l).sum = l.length := by
  rw [sum_counts, List.countP_eq_length]
  exact fun x hx => decide_eq_true (h x hx)

end

/-! ## The search -/

section

variable {reached : Nat → Bool} {values pre post : List Nat} {i j : Nat}

theorem cumulative_mono (values : List Nat) (h : i ≤ j) :
    cumulative values i ≤ cumulative values j :=
  (List.take_sublist_take_left (by omega)).sum_le_sum fun _ _ => Nat.zero_le _

theorem cumulative_append_cons (pre : List Nat) (v : Nat) (post : List Nat) :
    cumulative (pre ++ v :: post) pre.length = pre.sum + v := by
  rw [cumulative, List.take_length_add_append, List.take_succ_cons, List.take_zero, List.sum_append,
    List.sum_singleton]

theorem cumulative_last (h : values ≠ []) : cumulative values (values.length - 1) = values.sum := by
  have hpos := List.length_pos_iff.mpr h
  rw [cumulative, Nat.sub_add_cancel hpos, List.take_length]

/-- **Where the loop stops.** -/
theorem firstReaching_spec (pre post : List Nat)
    (hj : firstReaching reached pre.sum pre.length post = j) :
    pre.length ≤ j ∧ j ≤ (pre ++ post).length ∧
      (∀ k, pre.length ≤ k → k < j → reached (cumulative (pre ++ post) k) = false) ∧
      (j < (pre ++ post).length → reached (cumulative (pre ++ post) j) = true) := by
  induction post generalizing pre with
  | nil =>
    rw [firstReaching] at hj
    subst hj
    rw [List.append_nil]
    exact ⟨le_rfl, le_rfl, fun k hk hlt => absurd hlt (not_lt.mpr hk),
      fun h => absurd h (lt_irrefl _)⟩
  | cons v post ih =>
    rw [firstReaching] at hj
    split_ifs at hj with hv
    · subst hj
      rw [List.length_append, cumulative_append_cons]
      exact ⟨le_rfl, Nat.le_add_right _ _, fun k hk hlt => absurd hlt (not_lt.mpr hk), fun _ => hv⟩
    · have hpre : (pre ++ [v]).sum = pre.sum + v := by rw [List.sum_append, List.sum_singleton]
      have hlength : (pre ++ [v]).length = pre.length + 1 := List.length_append
      have hall : (pre ++ [v]) ++ post = pre ++ v :: post := List.append_cons pre v post ▸ rfl
      obtain ⟨hfirst, hlast, hbefore, hstop⟩ := ih (pre ++ [v]) (by rw [hpre, hlength]; exact hj)
      rw [hall] at hlast hbefore hstop
      rw [hlength] at hfirst hbefore
      refine ⟨by omega, hlast, fun k hk hlt => ?_, hstop⟩
      rcases hk.eq_or_lt with rfl | hk
      · rw [cumulative_append_cons]
        exact Bool.eq_false_iff.mpr hv
      · exact hbefore k hk hlt

/-- **When the loop finds the first place with what is wanted.** -/
theorem isLeast_firstReaching_iff (pre post : List Nat) {wanted : Nat → Prop}
    (hreached : ∀ {a b}, reached a = true → a ≤ b → reached b = true)
    (hwanted : ∀ {a b}, wanted a → a ≤ b → wanted b) (hsum : wanted (pre ++ post).sum)
    (hne : pre ++ post ≠ []) :
    IsLeast {i | i < (pre ++ post).length ∧ wanted (cumulative (pre ++ post) i)}
        (firstReaching reached pre.sum pre.length post) ↔
      (∀ i < pre.length, ¬ wanted (cumulative (pre ++ post) i)) ∧
        ∀ i, pre.length ≤ i → i < (pre ++ post).length →
          (wanted (cumulative (pre ++ post) i) ↔ reached (cumulative (pre ++ post) i) = true) := by
  obtain ⟨j, hj⟩ : ∃ j, firstReaching reached pre.sum pre.length post = j := ⟨_, rfl⟩
  obtain ⟨hfirst, hlast, hbefore, hstop⟩ := firstReaching_spec pre post hj
  have hpos := List.length_pos_iff.mpr hne
  rw [hj]
  constructor
  · rintro ⟨⟨hlt, hwant⟩, hleast⟩
    have hnot : ∀ i < j, ¬ wanted (cumulative (pre ++ post) i) := fun i hi hw =>
      absurd (hleast ⟨hi.trans hlt, hw⟩) (not_le.mpr hi)
    refine ⟨fun i hi => hnot i (hi.trans_le hfirst), fun i hi hi' => ?_⟩
    rcases Nat.lt_or_ge i j with hij | hij
    · refine iff_of_false (hnot i hij) ?_
      rw [hbefore i hi hij]
      exact Bool.false_ne_true
    · exact iff_of_true (hwanted hwant (cumulative_mono _ hij))
        (hreached (hstop hlt) (cumulative_mono _ hij))
  · rintro ⟨hnone, hsame⟩
    have hend : wanted (cumulative (pre ++ post) ((pre ++ post).length - 1)) := by
      rwa [cumulative_last hne]
    have hin : pre.length ≤ (pre ++ post).length - 1 := by
      by_contra hout
      exact hnone _ (not_le.mp hout) hend
    have hlt : j < (pre ++ post).length := by
      by_contra hover
      have hmiss := hbefore _ hin (by omega)
      rw [(hsame _ hin (by omega)).mp hend] at hmiss
      cases hmiss
    refine ⟨⟨hlt, (hsame j hfirst hlt).mpr (hstop hlt)⟩, fun i hi => ?_⟩
    by_contra hij
    rcases Nat.lt_or_ge i pre.length with hearly | hlate
    · exact hnone i hearly hi.2
    · have hmiss := hbefore i hlate (not_le.mp hij)
      rw [(hsame i hlate hi.1).mp hi.2] at hmiss
      cases hmiss

end

end TokuQa.Lib
