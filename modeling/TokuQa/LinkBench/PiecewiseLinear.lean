import Mathlib.Algebra.Order.Ring.Rat
import Mathlib.Data.List.Pairwise
import Mathlib.Tactic.Linarith
import TokuQa.Lib.Fallible
import TokuQa.Lib.JavaInt
import TokuQa.Lib.Moments

/-!
# `PiecewiseLinearDistribution.java`, the tables

A distribution is read as a list of points, a value and the probability of the values up to it. From
it come arrays with an entry for every value: the probability of the value (`getPDF`), of the values
from it on (`getCCDF`), and the sums of the latter (`getCumulativeSum`). The last sum is the mean by
summation by parts, and `expectedValue` computes the mean from the points
(`last_cumulativeSum`).

A `double` is a rational here.
-/

set_option autoImplicit false

namespace TokuQa.LinkBench.PiecewiseLinear

open TokuQa.Lib

inductive Exn where
  | indexOutOfBounds
  | negativeArraySize
  | assertionError
  | outOfFuel
deriving DecidableEq

structure Point where
  value : Int
  probability : ℚ
deriving DecidableEq

/-! ## Arrays -/

variable {α : Type}

/-- `xs[i]`, or `xs.get(i)`. -/
def load (xs : List α) (i : Int) : Except Exn α :=
  if i < 0 then .error .indexOutOfBounds
  else
    match xs[i.toNat]? with
    | some x => .ok x
    | none => .error .indexOutOfBounds

def store (xs : List α) (i : Int) (x : α) : Except Exn (List α) :=
  if 0 ≤ i ∧ i < xs.length then .ok (xs.set i.toNat x) else .error .indexOutOfBounds

/-- `new double[length]`. -/
def newArray (length : Int) : Except Exn (List ℚ) :=
  if length < 0 then .error .negativeArraySize else .ok (List.replicate length.toNat 0)

theorem load_eq_ok {xs : List α} {i : Int} {x : α} :
    load xs i = .ok x ↔ 0 ≤ i ∧ xs[i.toNat]? = some x := by
  unfold load
  split
  · exact iff_of_false nofun (by omega)
  · rw [and_iff_right (by omega)]
    cases xs[i.toNat]? <;> simp

theorem load_of_lt {xs : List α} {i : Nat} (h : i < xs.length) : load xs i = .ok xs[i] :=
  load_eq_ok.mpr ⟨by omega, List.getElem?_eq_getElem h⟩

theorem store_of_lt {xs : List α} {i : Int} (h : 0 ≤ i) (h' : i < xs.length) (x : α) :
    store xs i x = .ok (xs.set i.toNat x) := if_pos ⟨h, h'⟩

/-! ## The tables -/

/-- The loop of `getPDF`: "convert cdf to pdf". -/
def storeIncrements (pdf : List ℚ) (prev : Point) : List Point → Except Exn (List ℚ)
  | [] => .ok pdf
  | curr :: rest => do
    storeIncrements (← store pdf curr.value (curr.probability - prev.probability)) curr rest

def getPDF : List Point → Except Exn (List ℚ)
  | [] => .error .indexOutOfBounds
  | first :: rest => do
    let max_value := ((first :: rest).getLast (List.cons_ne_nil _ _)).value
    let pdf ← newArray (wrap32 (max_value + 1))
    let pdf ← store pdf first.value first.probability
    storeIncrements pdf first rest

def getCCDF (pdf : List ℚ) : Except Exn (List ℚ) :=
  match pdf.getLast? with
  | none => .error .indexOutOfBounds
  | some last => .ok (pdf.dropLast.scanr (fun p sum => sum + p) last)

/-- "ignore cdf[0]". -/
def getCumulativeSum : List ℚ → Except Exn (List ℚ)
  | [] => .error .indexOutOfBounds
  | _ :: rest => .ok (rest.scanl (fun sum p => sum + p) 0)

/-- The three of them, as `init` and `getStatisticalData` call them. -/
def cumulativeSum (cdf : List Point) : Except Exn (List ℚ) := do
  getCumulativeSum (← getCCDF (← getPDF cdf))

/-- The loop of `expectedValue`. -/
def addIncrements (sum : ℚ) (prev : Point) : List Point → ℚ
  | [] => sum
  | curr :: rest =>
    addIncrements (sum + (curr.probability - prev.probability) * curr.value) curr rest

def expectedValue : List Point → ℚ
  | [] => 0
  | first :: rest => addIncrements (first.probability * first.value) first rest

/-! ## The mean -/

section

variable {cdf : List Point} {pdf : List ℚ}

theorem foldl_add (sum : ℚ) (xs : List ℚ) : xs.foldl (fun sum p => sum + p) sum = sum + xs.sum := by
  induction xs generalizing sum with
  | nil => rw [List.foldl_nil, List.sum_nil, add_zero]
  | cons x xs ih => rw [List.foldl_cons, ih, List.sum_cons, add_assoc]

/-- The last of the sums is the mean of the array they come from, each entry at its index. -/
theorem getLast?_getCumulativeSum (hne : pdf ≠ []) :
    ∃ cs, (do getCumulativeSum (← getCCDF pdf)) = .ok cs ∧ cs.length = pdf.length ∧
      cs.getLast? = some (momentFrom 0 pdf) := by
  obtain ⟨init, last, rfl⟩ := pdf.eq_nil_or_concat.resolve_left hne
  rw [List.concat_eq_append]
  have hccdf : getCCDF (init ++ [last]) = .ok (init.scanr (fun p sum => sum + p) last) := by
    rw [getCCDF, List.getLast?_append_of_ne_nil _ (List.cons_ne_nil _ _), List.getLast?_singleton,
      List.dropLast_concat]
  rw [hccdf]
  cases init with
  | nil => exact ⟨[0], rfl, rfl, by simp [momentFrom]⟩
  | cons p init =>
    refine ⟨(init.scanr (fun p sum => sum + p) last).scanl (fun sum p => sum + p) 0, ?_, ?_, ?_⟩
    · rw [List.scanr_cons]
      rfl
    · rw [List.length_scanl, List.length_scanr, List.length_append, List.length_cons,
        List.length_singleton]
    · rw [List.getLast?_scanl, foldl_add, zero_add, sum_scanr, List.cons_append, momentFrom, zero_mul,
        zero_add, zero_add]

/-- The invariant of the two loops: behind the last value nothing is stored yet, and the mean of
what is stored is the sum so far. -/
structure Stored (pdf : List ℚ) (value : Int) (sum : ℚ) : Prop where
  zero : ∀ i (h : i < pdf.length), value < i → pdf[i] = 0
  moment : momentFrom 0 pdf = sum

theorem stored_replicate (n : Nat) : Stored (List.replicate n 0) (-1) 0 where
  zero := fun _ _ _ => List.getElem_replicate _
  moment := momentFrom_replicate_zero 0 n

theorem Stored.set {value value' : Int} {sum : ℚ} (h : Stored pdf value sum) (hlt : value < value')
    (hpos : 0 ≤ value') (hlen : value' < pdf.length) (p : ℚ) :
    Stored (pdf.set value'.toNat p) value' (sum + p * value') where
  zero := fun i hi hlt' => by
    rw [List.getElem_set_of_ne (by omega)]
    exact h.zero i (by simpa using hi) (by omega)
  moment := by
    have hindex : value'.toNat < pdf.length := by omega
    have hcast : ((value'.toNat : Nat) : ℚ) = value' := by exact_mod_cast Int.toNat_of_nonneg hpos
    rw [momentFrom_set 0 hindex, h.zero _ hindex (by omega), h.moment, hcast, zero_add, sub_zero,
      mul_comm]

theorem storeIncrements_moment {rest : List Point} {prev : Point} {sum : ℚ}
    (hsorted : (prev :: rest).Pairwise (·.value < ·.value)) (hpos : 0 ≤ prev.value)
    (hlen : ∀ pt ∈ rest, pt.value < pdf.length) (h : Stored pdf prev.value sum) :
    ∃ pdf', storeIncrements pdf prev rest = .ok pdf' ∧ pdf'.length = pdf.length ∧
      momentFrom 0 pdf' = addIncrements sum prev rest := by
  induction rest generalizing pdf prev sum with
  | nil => exact ⟨pdf, rfl, rfl, h.moment⟩
  | cons curr rest ih =>
    obtain ⟨hprev, hrest⟩ := List.pairwise_cons.mp hsorted
    have hlt : prev.value < curr.value := hprev curr (by simp)
    have hcurr : curr.value < pdf.length := hlen curr (by simp)
    have hlen' : ∀ pt ∈ rest,
        pt.value < (pdf.set curr.value.toNat (curr.probability - prev.probability)).length := by
      rw [List.length_set]
      exact fun pt hpt => hlen pt (by simp [hpt])
    obtain ⟨pdf', hstore, hlength, hmean⟩ := ih hrest (by omega) hlen'
      (h.set hlt (by omega) hcurr (curr.probability - prev.probability))
    refine ⟨pdf', ?_, hlength.trans List.length_set, hmean⟩
    rw [storeIncrements, store_of_lt (by omega) hcurr]
    exact hstore

theorem getPDF_moment (hne : cdf ≠ []) (hsorted : cdf.Pairwise (·.value < ·.value))
    (hpos : ∀ pt ∈ cdf, 0 ≤ pt.value) (hmax : ∀ pt ∈ cdf, pt.value < 2 ^ 31 - 1) :
    ∃ pdf, getPDF cdf = .ok pdf ∧ pdf ≠ [] ∧ momentFrom 0 pdf = expectedValue cdf := by
  cases cdf with
  | nil => exact absurd rfl hne
  | cons first rest =>
    have hle : ∀ pt ∈ first :: rest,
        pt.value ≤ ((first :: rest).getLast (List.cons_ne_nil _ _)).value := fun pt hpt =>
      (hsorted.imp le_of_lt).rel_getLast_of_rel_getLast_getLast hpt le_rfl
    have hlast := hmax _ (List.getLast_mem (List.cons_ne_nil first rest))
    have hfirst := hpos first (by simp)
    unfold getPDF
    dsimp only
    generalize ((first :: rest).getLast (List.cons_ne_nil _ _)).value = last at *
    have hfirstle := hle first (by simp)
    have hwrap : wrap32 (last + 1) = last + 1 := wrap_eq_self (by omega) (by omega)
    have hnew : newArray (last + 1) = .ok (List.replicate (last + 1).toNat 0) := if_neg (by omega)
    have hlen : (List.replicate (last + 1).toNat (0 : ℚ)).length = (last + 1).toNat :=
      List.length_replicate
    have hstored := (stored_replicate (last + 1).toNat).set (by omega : -1 < first.value) hfirst
      (by omega) first.probability
    rw [zero_add] at hstored
    have hrest : ∀ pt ∈ rest, pt.value <
        ((List.replicate (last + 1).toNat 0).set first.value.toNat first.probability).length := by
      intro pt hpt
      have hptle := hle pt (by simp [hpt])
      rw [List.length_set, hlen]
      omega
    obtain ⟨pdf, hpdf, hlength, hmean⟩ := storeIncrements_moment hsorted hfirst hrest hstored
    rw [hwrap, hnew]
    refine ⟨pdf, ?_, ?_, hmean⟩
    · simp only [bind, Except.bind]
      rw [store_of_lt hfirst (by omega)]
      exact hpdf
    · rintro rfl
      rw [List.length_set, hlen, List.length_nil] at hlength
      omega

end

/-- **The last of the cumulative sums is the expected value**, from strictly increasing values that
an array can be indexed by. -/
theorem last_cumulativeSum {cdf : List Point} (hne : cdf ≠ [])
    (hsorted : cdf.Pairwise (·.value < ·.value)) (hpos : ∀ pt ∈ cdf, 0 ≤ pt.value)
    (hmax : ∀ pt ∈ cdf, pt.value < 2 ^ 31 - 1) :
    ∃ cs, cumulativeSum cdf = .ok cs ∧ cs.getLast? = some (expectedValue cdf) := by
  obtain ⟨pdf, hpdf, hpdfne, hmean⟩ := getPDF_moment hne hsorted hpos hmax
  obtain ⟨cs, hcs, -, hlast⟩ := getLast?_getCumulativeSum hpdfne
  refine ⟨cs, ?_, hlast.trans (congrArg some hmean)⟩
  rw [cumulativeSum, hpdf]
  exact hcs

/-- A value nobody has, and more mass than there is. -/
theorem last_cumulativeSum_gap :
    ∃ cs, cumulativeSum [⟨0, 1 / 2⟩, ⟨3, 1 / 4⟩, ⟨5, 2⟩] = .ok cs ∧
      cs.getLast? = some (expectedValue [⟨0, 1 / 2⟩, ⟨3, 1 / 4⟩, ⟨5, 2⟩]) :=
  last_cumulativeSum (by decide) (by decide) (by decide) (by decide)

/-- There is no table of no points, and none that has an entry for every `int`. -/
theorem no_table :
    (¬ ∃ cs, cumulativeSum [] = .ok cs ∧ cs.getLast? = some (expectedValue [])) ∧
      ¬ ∃ cs, cumulativeSum [⟨2 ^ 31 - 1, 1⟩] = .ok cs ∧
        cs.getLast? = some (expectedValue [⟨2 ^ 31 - 1, 1⟩]) := by
  constructor <;> rintro ⟨cs, hcs, -⟩ <;> cases hcs

end TokuQa.LinkBench.PiecewiseLinear
