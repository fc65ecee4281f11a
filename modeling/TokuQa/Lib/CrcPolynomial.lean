import Mathlib.Algebra.Polynomial.Div
import Mathlib.Algebra.CharP.Two
import Mathlib.Algebra.Field.ZMod
import Mathlib.RingTheory.Polynomial.DegreeLT
import Mathlib.Tactic.LinearCombination
import TokuQa.Lib.Crc

/-!
# What a CRC is the remainder of

A register stands for a polynomial over two elements, with the highest power in the lowest bit,
and a message for one with its first bit as the highest power. A turn of the register multiplies
by `X` modulo the generator (`X_mul_toPoly`), so what a message leaves is the remainder of the
message behind what was in the register before (`toPoly_feedBits`).
-/

set_option autoImplicit false

namespace TokuQa.Lib.Crc

open Polynomial Finset

variable {w : Nat}

noncomputable def toPoly (c : BitVec w) : (ZMod 2)[X] :=
  ∑ i ∈ range w, if c.getLsbD i then X ^ (w - 1 - i) else 0

/-- The generator, whose highest term does not fit into the register. -/
noncomputable def generator (poly : BitVec w) : (ZMod 2)[X] := X ^ w + toPoly poly

noncomputable def coefficient (b : Bool) : (ZMod 2)[X] := if b then 1 else 0

/-- A message, the first bit for the highest power. -/
noncomputable def message (bits : List Bool) : (ZMod 2)[X] :=
  bits.foldl (fun m b => X * m + coefficient b) 0

/-! ## Registers as polynomials -/

theorem toPoly_xor (c d : BitVec w) : toPoly (c ^^^ d) = toPoly c + toPoly d := by
  rw [toPoly, toPoly, toPoly, ← sum_add_distrib]
  apply sum_congr rfl
  intro i _
  rw [BitVec.getLsbD_xor]
  cases c.getLsbD i <;> cases d.getLsbD i
  · simp
  · simp
  · simp
  · simp only [Bool.xor_self, Bool.false_eq_true, if_false, if_true]
    exact (CharTwo.add_self_eq_zero _).symm

theorem toPoly_bit (hw : 0 < w) (b : Bool) :
    toPoly (bit b : BitVec w) = coefficient b * X ^ (w - 1) := by
  rw [toPoly, sum_eq_single_of_mem 0 (mem_range.mpr hw)]
  · rw [getLsbD_bit]
    cases b <;> simp [coefficient, hw]
  · intro i _ hi
    simp [getLsbD_bit, hi]

theorem degree_toPoly_lt (c : BitVec w) : (toPoly c).degree < w := by
  rw [← mem_degreeLT]
  apply Submodule.sum_mem
  intro i hi
  rw [mem_degreeLT]
  split
  · have hlt : w - 1 - i < w := by
      have := mem_range.mp hi
      omega
    exact (degree_X_pow_le _).trans_lt (by exact_mod_cast hlt)
  · rw [degree_zero]
    exact WithBot.bot_lt_coe _

theorem monic_generator (poly : BitVec w) : (generator poly).Monic :=
  monic_X_pow_add (degree_toPoly_lt poly)

theorem degree_generator (poly : BitVec w) : (generator poly).degree = w := by
  rw [generator, degree_add_eq_left_of_degree_lt, degree_X_pow]
  rw [degree_X_pow]
  exact degree_toPoly_lt poly

/-- The bit that is shifted out, and the others. -/
theorem X_mul_toPoly_eq_shift (hw : 0 < w) (c : BitVec w) :
    X * toPoly c = coefficient (c.getLsbD 0) * X ^ w + toPoly (c >>> 1) := by
  obtain ⟨n, rfl⟩ : ∃ n, w = n + 1 := ⟨w - 1, by omega⟩
  have hlast : (c >>> 1).getLsbD n = false := by
    rw [BitVec.getLsbD_ushiftRight, BitVec.getLsbD_of_ge c _ (by omega)]
  rw [toPoly, toPoly, sum_range_succ', sum_range_succ, hlast, mul_add, mul_sum, add_comm]
  simp only [Nat.add_sub_cancel, Nat.sub_zero, Bool.false_eq_true, if_false, add_zero]
  congr 1
  · cases c.getLsbD 0
    · simp [coefficient]
    · simp [coefficient, pow_succ']
  · apply sum_congr rfl
    intro i hi
    have hsub : n - i = n - (i + 1) + 1 := by
      have := mem_range.mp hi
      omega
    rw [BitVec.getLsbD_ushiftRight, Nat.add_comm 1 i, hsub]
    cases c.getLsbD (i + 1)
    · simp
    · simp [pow_succ']

/-- **A turn multiplies by `X`**, up to the generator when a one is shifted out. -/
theorem X_mul_toPoly (hw : 0 < w) (poly c : BitVec w) :
    X * toPoly c = toPoly (step poly c) + coefficient (c.getLsbD 0) * generator poly := by
  rw [X_mul_toPoly_eq_shift hw, step, generator]
  cases c.getLsbD 0
  · simp [coefficient]
  · have hcancel : toPoly poly + toPoly poly = 0 := CharTwo.add_self_eq_zero _
    simp only [if_true, coefficient, one_mul, toPoly_xor]
    calc X ^ w + toPoly (c >>> 1) = X ^ w + toPoly (c >>> 1) + (toPoly poly + toPoly poly) := by
          rw [hcancel, add_zero]
      _ = toPoly poly + toPoly (c >>> 1) + (X ^ w + toPoly poly) := by ring

/-! ## Messages -/

theorem message_append_singleton (bits : List Bool) (b : Bool) :
    message (bits ++ [b]) = X * message bits + coefficient b := by
  rw [message, List.foldl_append]
  rfl

/-- The quotient by `g` when one more coefficient `b` comes in and `l` is shifted out. -/
theorem quotient_step {R : Type*} [CommRing R] {x xn xw xv c m f f' b l g q : R}
    (hq : xn * c + xw * m - f = g * q) (hturn : x * (f + b * xv) = f' + l * g)
    (hpow : xw = x * xv) : x * xn * c + xw * (x * m + b) - f' = g * (x * q + l) := by
  linear_combination x * hq + hturn + b * hpow

theorem generator_dvd (hw : 0 < w) (poly c : BitVec w) (bits : List Bool) :
    generator poly ∣ X ^ bits.length * toPoly c + X ^ w * message bits -
      toPoly (feedBits poly c bits) := by
  induction bits using List.reverseRecOn with
  | nil => simp [message]
  | append_singleton bits b ih =>
    obtain ⟨q, hq⟩ := ih
    have hpow : (X : (ZMod 2)[X]) ^ w = X * X ^ (w - 1) := by
      rw [← pow_succ']
      congr 1
      omega
    have hturn := X_mul_toPoly hw poly (feedBits poly c bits ^^^ bit b)
    rw [toPoly_xor, toPoly_bit hw] at hturn
    refine ⟨X * q + coefficient ((feedBits poly c bits ^^^ bit b).getLsbD 0), ?_⟩
    rw [feedBits_append, feedBits_cons, feedBits_nil, feed, message_append_singleton,
      List.length_append, List.length_singleton, pow_succ']
    exact quotient_step hq hturn hpow

/-- **What a message leaves in the register is a remainder**: of what was in the register, with
the message behind it. -/
theorem toPoly_feedBits (hw : 0 < w) (poly c : BitVec w) (bits : List Bool) :
    toPoly (feedBits poly c bits) =
      (X ^ bits.length * toPoly c + X ^ w * message bits) %ₘ generator poly := by
  have hmonic := monic_generator poly
  have hself := (modByMonic_eq_self_iff hmonic).mpr
    ((degree_toPoly_lt (feedBits poly c bits)).trans_eq (degree_generator poly).symm)
  rw [modByMonic_eq_of_dvd_sub hmonic (generator_dvd hw poly c bits), hself]

end TokuQa.Lib.Crc
