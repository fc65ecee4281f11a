import Mathlib.Algebra.Order.Archimedean.Real.Basic
import Mathlib.Analysis.SpecialFunctions.Log.Base
import Mathlib.Analysis.SpecialFunctions.Pow.Real

/-!
# `double` without rounding

A `double` is a real number, one of the infinities or no number, and the operations are exact. What
`Math` and the division do with special operands is kept: a positive number divided by zero is
infinite, the logarithm of zero is, and no number is cast to 0. A zero has no sign: a divisor zero
counts as positive.
-/

set_option autoImplicit false

namespace TokuQa.Lib

inductive JavaDouble where
  | nan
  | negInf
  | posInf
  | fin (x : ℝ)

namespace JavaDouble

noncomputable def div : JavaDouble → JavaDouble → JavaDouble
  | fin x, fin y =>
    if y = 0 then if 0 < x then posInf else if x < 0 then negInf else nan
    else fin (x / y)
  | fin _, posInf => fin 0
  | fin _, negInf => fin 0
  | posInf, fin y => if 0 ≤ y then posInf else negInf
  | negInf, fin y => if 0 ≤ y then negInf else posInf
  | _, _ => nan

/-- `Math.ceil`. -/
noncomputable def ceil : JavaDouble → JavaDouble
  | nan => nan
  | negInf => negInf
  | posInf => posInf
  | fin x => fin (⌈x⌉ : Int)

/-- `Math.log`. -/
noncomputable def log : JavaDouble → JavaDouble
  | nan => nan
  | negInf => nan
  | posInf => posInf
  | fin x => if x = 0 then negInf else if 0 < x then fin (Real.log x) else nan

/-- `Math.pow` of a finite number. -/
noncomputable def pow (x : ℝ) : JavaDouble → JavaDouble
  | nan => nan
  | posInf => if |x| = 1 then nan else if 1 < |x| then posInf else fin 0
  | negInf => if |x| = 1 then nan else if 1 < |x| then fin 0 else posInf
  | fin y =>
    if x = 0 ∧ y < 0 then posInf
    else if x < 0 ∧ (⌊y⌋ : ℝ) ≠ y then nan
    else fin (x ^ y)

/-- The cast to `long`: in the direction of 0, and to the closest `long`. -/
noncomputable def toLong : JavaDouble → Int
  | nan => 0
  | negInf => -2 ^ 63
  | posInf => 2 ^ 63 - 1
  | fin x => max (-2 ^ 63) (min (2 ^ 63 - 1) (if 0 ≤ x then ⌊x⌋ else ⌈x⌉))

/-! ## Finite operands -/

section

variable {x y : ℝ} {n : Int}

theorem div_fin (hy : y ≠ 0) : div (fin x) (fin y) = fin (x / y) := if_neg hy

theorem div_zero (hx : 0 < x) : div (fin x) (fin 0) = posInf := by
  rw [div, if_pos rfl, if_pos hx]

theorem log_fin (hx : 0 < x) : log (fin x) = fin (Real.log x) := by
  rw [log, if_neg hx.ne', if_pos hx]

theorem log_zero : log (fin 0) = negInf := if_pos rfl

theorem pow_fin (hx : 0 ≤ x) (hy : 0 ≤ y) : pow x (fin y) = fin (x ^ y) := by
  rw [pow, if_neg fun h => h.2.not_ge hy, if_neg fun h => h.1.not_ge hx]

theorem pow_fin_of_pos (hx : 0 < x) : pow x (fin y) = fin (x ^ y) := by
  rw [pow, if_neg fun h => hx.ne' h.1, if_neg fun h => h.1.not_gt hx]

/-- A `long` is cast to itself. -/
theorem toLong_int (h : -2 ^ 63 ≤ n) (h' : n < 2 ^ 63) : toLong (fin n) = n := by
  rw [toLong, Int.floor_intCast, Int.ceil_intCast, ite_self]
  omega

/-- A larger whole number is cast to the largest `long`. -/
theorem toLong_whole (hn : 0 ≤ n) : toLong (fin n) = min n (2 ^ 63 - 1) := by
  rw [toLong, Int.floor_intCast, Int.ceil_intCast, ite_self]
  omega

/-- The cast keeps the bounds that are `long`s. -/
theorem le_toLong (hn : 0 ≤ n) (hn' : n < 2 ^ 63) (h : (n : ℝ) ≤ x) : n ≤ toLong (fin x) := by
  have hx : 0 ≤ x := le_trans (by exact_mod_cast hn) h
  have hfloor : n ≤ ⌊x⌋ := Int.le_floor.mpr h
  rw [toLong, if_pos hx]
  omega

theorem toLong_ceil_le (hx : 0 ≤ x) (hn : n < 2 ^ 63) (h : x ≤ n) : toLong (ceil (fin x)) ≤ n := by
  have hceil : ⌈x⌉ ≤ n := Int.ceil_le.mpr h
  have hpos : 0 ≤ ⌈x⌉ := Int.ceil_nonneg hx
  rw [ceil, toLong_int (by omega) (by omega)]
  exact hceil

end

/-! ## Logarithms and roots, rounded up -/

section

variable {x b n : ℝ}

/-- A power with the logarithm rounded up is large enough. -/
theorem le_rpow_ceil_log (hb : 1 < b) (hx : 0 < x) :
    x ≤ b ^ ((⌈Real.log x / Real.log b⌉ : Int) : ℝ) := by
  have hle : Real.logb b x ≤ (⌈Real.log x / Real.log b⌉ : Int) := Int.le_ceil _
  calc x = b ^ Real.logb b x := (Real.rpow_logb (by linarith) hb.ne' hx).symm
    _ ≤ b ^ ((⌈Real.log x / Real.log b⌉ : Int) : ℝ) :=
      Real.rpow_le_rpow_of_exponent_le hb.le hle

/-- A power of the root rounded up is large enough. -/
theorem le_rpow_ceil_root (hn : 0 < n) (hx : 0 ≤ x) :
    x ≤ ((⌈x ^ (1 / n)⌉ : Int) : ℝ) ^ n := by
  have hle : x ^ (1 / n) ≤ (⌈x ^ (1 / n)⌉ : Int) := Int.le_ceil _
  calc x = (x ^ (1 / n)) ^ n := by rw [← Real.rpow_mul hx, one_div_mul_cancel hn.ne', Real.rpow_one]
    _ ≤ ((⌈x ^ (1 / n)⌉ : Int) : ℝ) ^ n :=
      Real.rpow_le_rpow (Real.rpow_nonneg hx _) hle hn.le

/-- The root of a `long`, rounded up, is one. -/
theorem toLong_ceil_root {m : Int} (hm : 1 ≤ m) (hm' : m < 2 ^ 63) (hn : 1 ≤ n) :
    toLong (ceil (pow m (div (fin 1) (fin n)))) = ⌈(m : ℝ) ^ (1 / n)⌉ ∧
      0 ≤ ⌈(m : ℝ) ^ (1 / n)⌉ ∧ ⌈(m : ℝ) ^ (1 / n)⌉ ≤ m := by
  have hm1 : (1 : ℝ) ≤ m := by exact_mod_cast hm
  have hinv : (0 : ℝ) ≤ 1 / n := by positivity
  have hle : (m : ℝ) ^ (1 / n) ≤ m := by
    refine (Real.rpow_le_rpow_of_exponent_le hm1 ?_).trans_eq (Real.rpow_one _)
    rwa [div_le_one (by linarith)]
  have hceil : ⌈(m : ℝ) ^ (1 / n)⌉ ≤ m := Int.ceil_le.mpr hle
  have hpos : 0 ≤ ⌈(m : ℝ) ^ (1 / n)⌉ := Int.ceil_nonneg (Real.rpow_nonneg (by linarith) _)
  refine ⟨?_, hpos, hceil⟩
  rw [div_fin (by linarith), pow_fin (by linarith) hinv, ceil, toLong_int (by omega) (by omega)]

end

end JavaDouble

end TokuQa.Lib
