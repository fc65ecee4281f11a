import Mathlib.Algebra.BigOperators.Fin
import Mathlib.Order.BoundedOrder.Basic
import Mathlib.Order.Lattice

/-!
# Tallies

How many values there were, what they add up to, the smallest and the largest. Tallies are
merged part by part, and the tally of nothing has the greatest value for its smallest one. That
makes them a commutative monoid, so a tally of many values is a sum of tallies of one, and what
is known of sums is known of them: neither the order of the values matters nor how they are
split up (`sum_parts`).
-/

set_option autoImplicit false

namespace TokuQa.Lib

@[ext]
structure Tally (S T : Type) where
  events : S
  sum : S
  min : T
  max : T
deriving DecidableEq

namespace Tally

variable {S T : Type} [AddCommMonoid S] [LinearOrder T]

instance : Add (Tally S T) :=
  ⟨fun a b => ⟨a.events + b.events, a.sum + b.sum, a.min ⊓ b.min, a.max ⊔ b.max⟩⟩

@[simp] theorem events_add (a b : Tally S T) : (a + b).events = a.events + b.events := rfl
@[simp] theorem sum_add (a b : Tally S T) : (a + b).sum = a.sum + b.sum := rfl
@[simp] theorem min_add (a b : Tally S T) : (a + b).min = a.min ⊓ b.min := rfl
@[simp] theorem max_add (a b : Tally S T) : (a + b).max = a.max ⊔ b.max := rfl

variable [BoundedOrder T]

instance : Zero (Tally S T) := ⟨⟨0, 0, ⊤, ⊥⟩⟩

@[simp] theorem events_zero : (0 : Tally S T).events = 0 := rfl
@[simp] theorem sum_zero : (0 : Tally S T).sum = 0 := rfl
@[simp] theorem min_zero : (0 : Tally S T).min = ⊤ := rfl
@[simp] theorem max_zero : (0 : Tally S T).max = ⊥ := rfl

instance : AddCommMonoid (Tally S T) where
  add_assoc a b c := Tally.ext (add_assoc _ _ _) (add_assoc _ _ _) (inf_assoc _ _ _)
    (sup_assoc _ _ _)
  zero_add a := Tally.ext (zero_add _) (zero_add _) (top_inf_eq _) (bot_sup_eq _)
  add_zero a := Tally.ext (add_zero _) (add_zero _) (inf_top_eq _) (sup_bot_eq _)
  add_comm a b := Tally.ext (add_comm _ _) (add_comm _ _) (inf_comm _ _) (sup_comm _ _)
  nsmul := nsmulRec

theorem events_sum (ts : List (Tally S T)) : ts.sum.events = (ts.map events).sum := by
  induction ts with
  | nil => rfl
  | cons t ts ih => rw [List.sum_cons, events_add, ih, List.map_cons, List.sum_cons]

/-- The extremes of a sum bound those of its terms. -/
theorem bounds_of_mem {ts : List (Tally S T)} {t : Tally S T} (h : t ∈ ts) :
    ts.sum.min ≤ t.min ∧ t.max ≤ ts.sum.max := by
  induction ts with
  | nil => cases h
  | cons u us ih =>
    rw [List.sum_cons, min_add, max_add]
    rcases List.mem_cons.mp h with rfl | h
    · exact ⟨inf_le_left, le_sup_left⟩
    · exact ⟨inf_le_right.trans (ih h).1, (ih h).2.trans le_sup_right⟩

end Tally

/-- **Parts do not matter**: what is added up in parts, and then over the parts, is what is
added up at once. -/
theorem sum_parts {ι α M : Type} [Fintype ι] [DecidableEq ι] [AddCommMonoid M] (f : α → M)
    (xs : List (ι × α)) :
    ∑ i, ((xs.filter fun x => x.1 = i).map fun x => f x.2).sum = (xs.map fun x => f x.2).sum := by
  induction xs with
  | nil => simp
  | cons x xs ih =>
    have hsplit : ∀ i, (((x :: xs).filter fun y => y.1 = i).map fun y => f y.2).sum =
        (if x.1 = i then f x.2 else 0) +
          ((xs.filter fun y => y.1 = i).map fun y => f y.2).sum := by
      intro i
      by_cases hi : x.1 = i
      · simp [hi]
      · simp [hi]
    rw [Finset.sum_congr rfl fun i _ => hsplit i, Finset.sum_add_distrib, ih, Finset.sum_ite_eq,
      if_pos (Finset.mem_univ _), List.map_cons, List.sum_cons]

section

variable {ι α σ M : Type} [AddCommMonoid M]

theorem sum_map_ite (p : α → Prop) [DecidablePred p] (f : α → M) (xs : List α) :
    (xs.map fun x => if p x then f x else 0).sum = ((xs.filter fun x => p x).map f).sum := by
  induction xs with
  | nil => rfl
  | cons x xs ih =>
    rw [List.map_cons, List.sum_cons, ih]
    by_cases hp : p x
    · rw [if_pos hp, List.filter_cons_of_pos (by simpa using hp), List.map_cons, List.sum_cons]
    · rw [if_neg hp, List.filter_cons_of_neg (by simpa using hp), zero_add]

/-- What every step of a loop adds to. -/
theorem foldl_adds {step : σ → α → σ} {f : σ → M} {g : α → M}
    (add : ∀ s x, f (step s x) = f s + g x) (xs : List α) (s : σ) :
    f (xs.foldl step s) = f s + (xs.map g).sum := by
  induction xs generalizing s with
  | nil => rw [List.foldl_nil, List.map_nil, List.sum_nil, add_zero]
  | cons x xs ih => rw [List.foldl_cons, ih, add, List.map_cons, List.sum_cons, add_assoc]

/-- A loop over the parts. -/
theorem foldl_finRange {n : Nat} {step : M → Fin n → M} {g : Fin n → M}
    (add : ∀ s i, step s i = s + g i) (s : M) :
    (List.finRange n).foldl step s = s + ∑ i, g i := by
  rw [Fin.sum_univ_def]
  exact foldl_adds (f := id) add _ s

/-- **A loop that adds to one of several totals at a time** adds up all that it adds. -/
theorem foldl_adds_parts [Fintype ι] [DecidableEq ι] {step : σ → ι × α → σ} {f : ι → σ → M}
    {g : α → M} (add : ∀ s x i, f i (step s x) = f i s + if x.1 = i then g x.2 else 0)
    (xs : List (ι × α)) (s : σ) :
    ∑ i, f i (xs.foldl step s) = ∑ i, f i s + (xs.map fun x => g x.2).sum := by
  refine foldl_adds (f := fun s => ∑ i, f i s) (fun s x => ?_) xs s
  rw [Finset.sum_congr rfl fun i _ => add s x i, Finset.sum_add_distrib, Finset.sum_ite_eq,
    if_pos (Finset.mem_univ _)]

end

end TokuQa.Lib
