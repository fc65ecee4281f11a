import Mathlib.Algebra.BigOperators.Intervals
import Mathlib.Algebra.Field.Rat
import Mathlib.Algebra.Order.Interval.Finset.SuccPred
import Mathlib.Tactic.Ring
import TokuQa.Scripts.Texts

/-!
# `file-averager-boxcar.py`

The average of the lines around each line is taken from a running sum, to which the line that comes
into the window is added, and from which the one that leaves it is subtracted. `float` is what
Python makes of a text, `none` if it raises an exception; sums and quotients are exact.

What is printed is the `x` value of a line and the average, a pair for each line.
-/

set_option autoImplicit false

namespace TokuQa.Scripts.Boxcar

/-- How the script ends. -/
inductive End where
  | done
  | tooManyPoints
  | raised
deriving DecidableEq

variable (float : List Char → Option ℚ)

/-- An element of a list; a negative index counts from the end. -/
def element {α : Type} (xs : List α) (k : Int) : Option α :=
  if 0 ≤ k then xs[k.toNat]? else if -xs.length ≤ k then xs[(k + xs.length).toNat]? else none

/-- `float(lines[i].split()[col-1])`. -/
def value (lines : List (List Char)) (col : Int) (i : Nat) : Option ℚ := do
  let line ← lines[i]?
  let cell ← element (splitBlank line) (col - 1)
  float cell

/-- The first sum, with `n` turns left from line `i` on. -/
def firstSum (lines : List (List Char)) (yCol : Int) : (n i : Nat) → ℚ → Option ℚ
  | 0, _, sumVals => some sumVals
  | n + 1, i, sumVals => do firstSum lines yCol n (i + 1) (sumVals + (← value float lines yCol i))

structure Arguments where
  boxBack : Nat
  boxFront : Nat
  yCol : Int
  xCol : Int

def Arguments.numPoints (a : Arguments) : Nat := a.boxBack + a.boxFront + 1

/-- A turn of the loop: the sum, and the `x` value. -/
def slide (a : Arguments) (lines : List (List Char)) (i : Nat) (sumVals : ℚ) :
    Option (ℚ × ℚ) := do
  let sumVals := sumVals + (← value float lines a.yCol (i + a.boxFront))
  let sumVals := sumVals - (← value float lines a.yCol (i - a.boxBack - 1))
  return (sumVals, ← value float lines a.xCol i)

/-- The loop, with `n` turns left from line `i` on. -/
def loop (a : Arguments) (lines : List (List Char)) : (n i : Nat) → ℚ → List (ℚ × ℚ) × End
  | 0, _, _ => ([], .done)
  | n + 1, i, sumVals =>
    match slide float a lines i sumVals with
    | none => ([], .raised)
    | some (sumVals, x) =>
      let (printed, end_) := loop a lines n (i + 1) sumVals
      ((x, sumVals / a.numPoints) :: printed, end_)

/-- What is printed, and how the script ends. -/
def boxcar (a : Arguments) (lines : List (List Char)) : List (ℚ × ℚ) × End :=
  if lines.length < a.numPoints then ([], .tooManyPoints)
  else
    match firstSum float lines a.yCol a.numPoints 0 0, value float lines a.xCol a.boxBack with
    | some sumVals, some x =>
      let (printed, end_) := loop float a lines (lines.length - a.boxFront - (a.boxBack + 1))
        (a.boxBack + 1) sumVals
      ((x, sumVals / a.numPoints) :: printed, end_)
    | _, _ => ([], .raised)

/-- The sum of the lines around line `i`. -/
def Arguments.windowSum (a : Arguments) (ys : Nat → ℚ) (i : Nat) : ℚ :=
  ∑ k ∈ Finset.Icc (i - a.boxBack) (i + a.boxFront), ys k

/-! ## The sum slides -/

variable {float} {a : Arguments} {lines : List (List Char)} {xs ys : Nat → ℚ} {n i : Nat}

theorem firstSum_eq {yCol : Int} (hy : ∀ k < lines.length, value float lines yCol k = some (ys k))
    (h : i + n ≤ lines.length) (sumVals : ℚ) :
    firstSum float lines yCol n i sumVals = some (sumVals + ∑ k ∈ Finset.Ico i (i + n), ys k) := by
  induction n generalizing i sumVals with
  | zero => simp [firstSum]
  | succ n ih =>
    have hsplit : ∑ k ∈ Finset.Ico i (i + (n + 1)), ys k =
        ys i + ∑ k ∈ Finset.Ico (i + 1) (i + 1 + n), ys k := by
      rw [Finset.sum_eq_sum_Ico_succ_bot (by omega), Nat.add_right_comm i 1 n, Nat.add_assoc i n 1]
    rw [firstSum, hy i (by omega), Option.bind_eq_bind, Option.bind_some, ih (by omega), hsplit,
      add_assoc]

/-- One line comes in and one leaves. -/
theorem windowSum_succ (ys : Nat → ℚ) (h : a.boxBack ≤ i) :
    a.windowSum ys (i + 1) = a.windowSum ys i + ys (i + 1 + a.boxFront) - ys (i - a.boxBack) := by
  have hto : i - a.boxBack ≤ i + a.boxFront + 1 := by omega
  have hin : a.windowSum ys i + ys (i + 1 + a.boxFront) =
      ∑ k ∈ Finset.Icc (i - a.boxBack) (i + a.boxFront + 1), ys k := by
    rw [Arguments.windowSum, Nat.add_right_comm i 1, Finset.sum_Icc_succ_top hto]
  have hout : ∑ k ∈ Finset.Icc (i - a.boxBack) (i + a.boxFront + 1), ys k =
      ys (i - a.boxBack) + a.windowSum ys (i + 1) := by
    rw [Arguments.windowSum, Nat.sub_add_comm h, Nat.add_right_comm i 1,
      ← Finset.Ico_add_one_right_eq_Icc, ← Finset.Ico_add_one_right_eq_Icc,
      Finset.sum_eq_sum_Ico_succ_bot (by omega)]
  rw [hin, hout]
  ring

theorem slide_eq (hy : ∀ k < lines.length, value float lines a.yCol k = some (ys k))
    (hx : ∀ k < lines.length, value float lines a.xCol k = some (xs k))
    (hback : a.boxBack ≤ i) (hfront : i + 1 + a.boxFront < lines.length) :
    slide float a lines (i + 1) (a.windowSum ys i) = some (a.windowSum ys (i + 1), xs (i + 1)) := by
  have hleaves : i + 1 - a.boxBack - 1 = i - a.boxBack := by omega
  simp only [slide, hleaves, hy _ hfront, hy (i - a.boxBack) (by omega), hx (i + 1) (by omega),
    Option.bind_eq_bind, Option.bind_some, windowSum_succ ys hback]
  rfl

theorem loop_eq (hy : ∀ k < lines.length, value float lines a.yCol k = some (ys k))
    (hx : ∀ k < lines.length, value float lines a.xCol k = some (xs k))
    (hback : a.boxBack ≤ i) (hfront : i + n + a.boxFront < lines.length) :
    loop float a lines n (i + 1) (a.windowSum ys i) =
      ((List.range' (i + 1) n).map fun k => (xs k, a.windowSum ys k / a.numPoints), .done) := by
  induction n generalizing i with
  | zero => rfl
  | succ n ih =>
    rw [loop, slide_eq hy hx hback (by omega)]
    dsimp only
    rw [ih (by omega) (by omega), List.range'_succ, List.map_cons]

/-- **Every line from the first with a whole window to the last is printed once**, with its `x`
value and the mean of the window's `y` values. -/
theorem boxcar_eq (hy : ∀ k < lines.length, value float lines a.yCol k = some (ys k))
    (hx : ∀ k < lines.length, value float lines a.xCol k = some (xs k))
    (hpoints : a.boxBack + a.boxFront + 1 ≤ lines.length) :
    boxcar float a lines =
      ((List.range' a.boxBack (lines.length - a.boxFront - a.boxBack)).map fun i =>
        (xs i, (∑ k ∈ Finset.Icc (i - a.boxBack) (i + a.boxFront), ys k) / a.numPoints),
        .done) := by
  have hfirst : firstSum float lines a.yCol a.numPoints 0 0 = some (a.windowSum ys a.boxBack) := by
    rw [firstSum_eq hy (by unfold Arguments.numPoints; omega), zero_add, Arguments.windowSum,
      Nat.sub_self, Arguments.numPoints, Nat.zero_add, Finset.Ico_add_one_right_eq_Icc]
  have hturns : lines.length - a.boxFront - a.boxBack =
      lines.length - a.boxFront - (a.boxBack + 1) + 1 := by omega
  rw [boxcar, if_neg (by unfold Arguments.numPoints; omega), hfirst, hx a.boxBack (by omega)]
  dsimp only
  rw [loop_eq hy hx le_rfl (by omega), hturns, List.range'_succ, List.map_cons]
  rfl

/-- Four lines, in windows of three. -/
theorem boxcar_four_lines :
    boxcar (fun s => some (Nat.ofDigitChars 10 s 0)) ⟨1, 1, 2, 1⟩
        ["1 10".toList, "2 20".toList, "3 60".toList, "4 10".toList] =
      ([(2, 30), (3, 30)], .done) := by
  have h := @boxcar_eq (fun s => some (Nat.ofDigitChars 10 s 0)) ⟨1, 1, 2, 1⟩
    ["1 10".toList, "2 20".toList, "3 60".toList, "4 10".toList] (fun k => k + 1)
    (fun k => [10, 20, 60, 10].getD k 0) (by decide +kernel) (by decide +kernel) (by decide +kernel)
  rw [h]
  decide +kernel

end TokuQa.Scripts.Boxcar
