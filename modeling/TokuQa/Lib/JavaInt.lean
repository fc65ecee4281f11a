import Mathlib.Algebra.Order.Ring.Int
import Mathlib.Data.List.Nodup

/-!
# Two's-complement arithmetic

`int` and `long` of the source are integers here, wrapped where an operation can leave their
range. `wrap w` is the wrap-around to `w + 1` bits: the representative of an integer in
`[-2 ^ w, 2 ^ w)`.
-/

set_option autoImplicit false

namespace TokuQa.Lib

/-- Wrap-around to the range `[-2 ^ w, 2 ^ w)`. -/
def wrap (w : Nat) (x : Int) : Int := Int.bmod x (2 ^ (w + 1))

/-- `int` arithmetic. -/
abbrev wrap32 : Int → Int := wrap 31

/-- `long` arithmetic. -/
abbrev wrap64 : Int → Int := wrap 63

variable {w : Nat} {x : Int}

theorem half_pow (w : Nat) : ((2 ^ (w + 1) : Nat) : Int) = 2 * 2 ^ w := by
  rw [Nat.pow_succ, Nat.mul_comm]
  push_cast
  rfl

theorem wrap_eq_self (h : -2 ^ w ≤ x) (h' : x < 2 ^ w) : wrap w x = x := by
  have hpow := half_pow w
  refine Int.bmod_eq_of_le ?_ ?_ <;> omega

theorem wrap_add_wrap (y : Int) : wrap w (wrap w x + y) = wrap w (x + y) := Int.bmod_add_bmod

/-- Wrap-around only looks at the low bits. -/
theorem wrap_emod (w : Nat) (x : Int) : wrap w (x % 2 ^ (w + 1)) = wrap w x := by
  have hbmod := Int.emod_bmod (x := x) (n := 2 ^ (w + 1))
  push_cast at hbmod
  exact hbmod

/-- Values wrap around to the same one exactly when they are whole turns apart. -/
theorem wrap_eq_wrap_iff {y : Int} :
    wrap w x = wrap w y ↔ x % 2 ^ (w + 1) = y % 2 ^ (w + 1) := by
  constructor
  · intro h
    have hmod := congrArg (· % ((2 ^ (w + 1) : Nat) : Int)) h
    simp only [wrap, Int.bmod_emod] at hmod
    push_cast at hmod
    exact hmod
  · intro h
    rw [← wrap_emod w x, h, wrap_emod]

theorem le_wrap (w : Nat) (x : Int) : -2 ^ w ≤ wrap w x := by
  have hpow := half_pow w
  have := Int.le_bmod (x := x) (m := 2 ^ (w + 1)) (Nat.two_pow_pos _)
  unfold wrap
  omega

theorem wrap_lt (w : Nat) (x : Int) : wrap w x < 2 ^ w := by
  have hpow := half_pow w
  have := Int.bmod_lt (x := x) (m := 2 ^ (w + 1)) (Nat.two_pow_pos _)
  unfold wrap
  omega

/-- A value past the top of the range comes back a whole turn lower. -/
theorem wrap_of_overflow (h : 2 ^ w ≤ x) (h' : x < 3 * 2 ^ w) : wrap w x = x - 2 * 2 ^ w := by
  have hself : wrap w (x - 2 * 2 ^ w) = x - 2 * 2 ^ w := wrap_eq_self (by omega) (by omega)
  rw [← hself, ← half_pow]
  exact (Int.sub_bmod_right x (2 ^ (w + 1))).symm

/-- Wrap-around does not confuse values that are less than a turn apart. -/
theorem wrap_injective {y : Int} (h : wrap w x = wrap w y) (hxy : (x - y).natAbs < 2 ^ (w + 1)) :
    x = y := by
  have hmod : (x - y).bmod (2 ^ (w + 1)) = 0 := Int.bmod_eq_bmod_iff_bmod_sub_eq_zero.mp h
  have hdvd : ((2 ^ (w + 1) : Nat) : Int) ∣ x - y := Int.dvd_of_bmod_eq_zero hmod
  have hzero : x - y = 0 := Int.eq_zero_of_dvd_of_natAbs_lt_natAbs hdvd (by simpa using hxy)
  omega

/-- Adding the same number does not tell apart what wraps around to one value. -/
theorem wrap_add_left_inj (a : Int) {y : Int} :
    wrap w (a + x) = wrap w (a + y) ↔ wrap w x = wrap w y := by
  have hsub : a + x - (a + y) = x - y := by omega
  unfold wrap
  rw [Int.bmod_eq_bmod_iff_bmod_sub_eq_zero, Int.bmod_eq_bmod_iff_bmod_sub_eq_zero, hsub]

/-- **Wrap-around is seen** exactly outside the range. -/
theorem wrap_eq_self_iff : wrap w x = x ↔ -2 ^ w ≤ x ∧ x < 2 ^ w := by
  constructor
  · intro h
    rw [← h]
    exact ⟨le_wrap w x, wrap_lt w x⟩
  · exact fun h => wrap_eq_self h.1 h.2

/-! ## Counting up -/

/-- A loop that counts up from `a` does not meet a number twice. -/
theorem nodup_range_add (a : Int) (n : Nat) :
    ((List.range n).map fun i : Nat => a + (i : Int)).Nodup := by
  refine List.nodup_range.map fun i j h => ?_
  have heq : (i : Int) = j := Int.add_left_cancel h
  exact_mod_cast heq

end TokuQa.Lib
