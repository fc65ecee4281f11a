import Mathlib.Order.Basic
import TokuQa.Lib.Deck

/-!
# Selection

An array is sorted in place from its front: the least of what is left changes places with the first
of what is left. `SelectedTo` is what holds in between, `selectedTo_exchange` is a round, and after
the last one the array is in order (`pairwise_of_selectedTo`).

Arrays in order by one key agree on what comes first of two elements they share
(`idxOf_lt_idxOf_iff`).
-/

set_option autoImplicit false

namespace TokuQa.Lib

variable {α κ : Type}

/-- The first `i` places are in order, with nothing less behind them. -/
def SelectedTo [LE κ] (key : α → κ) (i : Nat) (seq : List α) : Prop :=
  ∀ (p q : Nat) (hp : p < seq.length) (hq : q < seq.length), p < q → p < i →
    key seq[p] ≤ key seq[q]

theorem selectedTo_zero [LE κ] (key : α → κ) (seq : List α) : SelectedTo key 0 seq :=
  fun _ _ _ _ _ h => absurd h (Nat.not_lt_zero _)

/-- What an exchange leaves where. -/
theorem getElem_exchange {seq seq' : List α} {i j p : Nat} (h : exchange seq i j = some seq')
    (hp : p < seq'.length) : ∃ q, ∃ hq : q < seq.length, seq'[p] = seq[q] ∧
      (p = i ∧ q = j ∨ p ≠ i ∧ p = j ∧ q = i ∨ p ≠ i ∧ p ≠ j ∧ q = p) := by
  obtain ⟨tmp, htmp, h⟩ := Option.bind_eq_some_iff.mp h
  obtain ⟨x, hx, h⟩ := Option.bind_eq_some_iff.mp h
  obtain ⟨hj, rfl⟩ := List.getElem?_eq_some_iff.mp htmp
  obtain ⟨hi, rfl⟩ := List.getElem?_eq_some_iff.mp hx
  rw [setAt_of_lt hj, Option.bind_eq_bind, Option.bind_some,
    setAt_of_lt (by rwa [List.length_set])] at h
  obtain rfl := Option.some.inj h
  rw [List.length_set, List.length_set] at hp
  by_cases hpi : p = i
  · subst hpi
    exact ⟨j, hj, List.getElem_set_self _, .inl ⟨rfl, rfl⟩⟩
  by_cases hpj : p = j
  · subst hpj
    refine ⟨i, hi, ?_, .inr (.inl ⟨hpi, rfl, rfl⟩)⟩
    rw [List.getElem_set_ne (Ne.symm hpi), List.getElem_set_self]
  · refine ⟨p, hp, ?_, .inr (.inr ⟨hpi, hpj, rfl⟩)⟩
    rw [List.getElem_set_ne (Ne.symm hpi), List.getElem_set_ne (Ne.symm hpj)]

section

variable [Preorder κ] {key : α → κ} {seq seq' : List α} {i m : Nat}

/-- Nothing has to move. -/
theorem selectedTo_stay (h : SelectedTo key i seq) (hi : i < seq.length)
    (hmin : ∀ (q : Nat) (hq : q < seq.length), i ≤ q → key seq[i] ≤ key seq[q]) :
    SelectedTo key (i + 1) seq := by
  intro p q hp hq hpq hpi
  rcases Nat.lt_succ_iff_lt_or_eq.mp hpi with hpi | rfl
  · exact h p q hp hq hpq hpi
  · exact hmin q hq hpq.le

/-- **A round.** The least element of the rest comes to the front of it. -/
theorem selectedTo_exchange (h : SelectedTo key i seq) (him : i ≤ m) (hm : m < seq.length)
    (hmin : ∀ (q : Nat) (hq : q < seq.length), i ≤ q → key seq[m] ≤ key seq[q])
    (hswap : exchange seq i m = some seq') : SelectedTo key (i + 1) seq' := by
  intro p q hp hq hpq hpi
  obtain ⟨p', hp', hp'eq, hpcases⟩ := getElem_exchange hswap hp
  obtain ⟨q', hq', hq'eq, hqcases⟩ := getElem_exchange hswap hq
  rw [hp'eq, hq'eq]
  rcases Nat.lt_succ_iff_lt_or_eq.mp hpi with hpi | rfl
  · -- what is in order stays where it is
    obtain rfl : p' = p := by omega
    exact h p' q' hp' hq' (by omega) hpi
  · obtain rfl : p' = m := by omega
    exact hmin q' hq' (by omega)

/-- The last element needs no round. -/
theorem pairwise_of_selectedTo (h : SelectedTo key i seq) (hi : seq.length ≤ i + 1) :
    seq.Pairwise fun x y => key x ≤ key y :=
  List.pairwise_iff_getElem.mpr fun p q hp hq hpq => h p q hp hq hpq (by omega)

end

/-- **One order for all**: in an array that is in order, the first of two elements is the one with
the lesser key. -/
theorem idxOf_lt_idxOf_iff [LinearOrder κ] [BEq α] [LawfulBEq α] {key : α → κ} {seq : List α}
    {x y : α} (hsorted : seq.Pairwise fun x y => key x ≤ key y) (hx : x ∈ seq) (hy : y ∈ seq)
    (hne : key x ≠ key y) : seq.idxOf x < seq.idxOf y ↔ key x < key y := by
  have hpairs := List.pairwise_iff_getElem.mp hsorted
  have hx' := List.idxOf_lt_length_of_mem hx
  have hy' := List.idxOf_lt_length_of_mem hy
  constructor
  · intro hlt
    have hle := hpairs _ _ hx' hy' hlt
    rw [List.getElem_idxOf, List.getElem_idxOf] at hle
    exact lt_of_le_of_ne hle hne
  · intro hlt
    by_contra hge
    rcases (not_lt.mp hge).lt_or_eq with hgt | heq
    · have hle := hpairs _ _ hy' hx' hgt
      rw [List.getElem_idxOf, List.getElem_idxOf] at hle
      exact absurd hlt (not_lt.mpr hle)
    · exact hne (congrArg key ((List.idxOf_inj hy).mp heq).symm)

end TokuQa.Lib
