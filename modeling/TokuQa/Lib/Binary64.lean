import Mathlib.Data.Int.Log
import TokuQa.Lib.Decimal

/-!
# Rounding to `double`

Where a quotient is truncated it matters that a `double` has 53 bits: 29 percent of 100 are a
little less than 29. `roundBits w` is the nearest number of `w + 1` bits, of two the one whose last
bit is 0. There is no largest and no smallest exponent: what is rounded here is far from both.
Rounding keeps the order, and leaves a number that has no more bits as it is. A quotient of whole
numbers is then rounded to the right side of a number of few bits (`roundBits_div_lt_iff`).
-/

set_option autoImplicit false

namespace TokuQa.Lib

/-- What the last of `w + 1` bits stands for. -/
def lastBit (w : Nat) (x : ℚ) : ℚ := 2 ^ (Int.log 2 |x| - w)

def roundBits (w : Nat) (x : ℚ) : ℚ := roundHalfEven (x / lastBit w x) * lastBit w x

/-- The nearest `double`. -/
abbrev roundDouble : ℚ → ℚ := roundBits 52

variable {w : Nat} {x y : ℚ}

theorem roundHalfEven_mono (h : x ≤ y) : roundHalfEven x ≤ roundHalfEven y := by
  have hfloor : ⌊x⌋ ≤ ⌊y⌋ := Int.floor_le_floor h
  have hup : ∀ z : ℚ, ⌊z⌋ ≤ roundHalfEven z ∧ roundHalfEven z ≤ ⌊z⌋ + 1 := by
    intro z
    unfold roundHalfEven
    dsimp only
    split_ifs <;> omega
  have hx := hup x
  have hy := hup y
  by_cases heq : ⌊x⌋ = ⌊y⌋
  · have hfrac : x - ⌊x⌋ ≤ y - ⌊y⌋ := by
      rw [heq]
      linarith
    unfold roundHalfEven
    dsimp only
    rw [heq] at hfrac ⊢
    split_ifs <;> grind
  · omega

theorem lastBit_pos (w : Nat) (x : ℚ) : 0 < lastBit w x := zpow_pos two_pos _

theorem two_pow_mul_lastBit (w : Nat) (hx : 0 < x) : 2 ^ w * lastBit w x = 2 ^ Int.log 2 x := by
  rw [lastBit, abs_of_pos hx, ← zpow_natCast, ← zpow_add₀ two_ne_zero]
  congr 1
  omega

/-- A number has `w + 1` bits down to its last one. -/
theorem div_lastBit_bounds (w : Nat) (hx : 0 < x) :
    2 ^ w ≤ x / lastBit w x ∧ x / lastBit w x < 2 * 2 ^ w := by
  have hpos := lastBit_pos w x
  have hlow : ((2 : ℕ) : ℚ) ^ Int.log 2 x ≤ x := Int.zpow_log_le_self (by decide) hx
  have hhigh : x < ((2 : ℕ) : ℚ) ^ (Int.log 2 x + 1) := Int.lt_zpow_succ_log_self (by decide) x
  push_cast at hlow hhigh
  rw [zpow_add_one₀ two_ne_zero] at hhigh
  rw [le_div_iff₀ hpos, div_lt_iff₀ hpos, mul_assoc, two_pow_mul_lastBit w hx]
  exact ⟨hlow, hhigh.trans_eq (mul_comm _ _)⟩

theorem roundHalfEven_div_bounds (w : Nat) (hx : 0 < x) :
    2 ^ w ≤ roundHalfEven (x / lastBit w x) ∧ roundHalfEven (x / lastBit w x) ≤ 2 * 2 ^ w := by
  have hbounds := div_lastBit_bounds w hx
  have hlow := roundHalfEven_mono hbounds.1
  have hhigh := roundHalfEven_mono hbounds.2.le
  have hint : ∀ m : ℤ, roundHalfEven m = m := roundHalfEven_intCast
  have hpow := hint (2 ^ w)
  have hdouble := hint (2 * 2 ^ w)
  push_cast at hpow hdouble
  exact ⟨hpow.symm.trans_le hlow, hhigh.trans_eq hdouble⟩

theorem roundBits_zero (w : Nat) : roundBits w 0 = 0 := by simp [roundBits, roundHalfEven]

theorem roundBits_nonneg (hx : 0 ≤ x) : 0 ≤ roundBits w x := by
  rcases hx.eq_or_lt with rfl | hx
  · exact (roundBits_zero w).ge
  · have hlow := (roundHalfEven_div_bounds w hx).1
    have hpow : (0 : ℤ) < 2 ^ w := by positivity
    exact mul_nonneg (by exact_mod_cast (hpow.trans_le hlow).le) (lastBit_pos w x).le

/-- **Rounding keeps the order.** Of two numbers with different first bits the smaller one is
rounded to at most the first bit of the other. -/
theorem roundBits_mono (hx : 0 ≤ x) (h : x ≤ y) : roundBits w x ≤ roundBits w y := by
  rcases hx.eq_or_lt with rfl | hx
  · rw [roundBits_zero]
    exact roundBits_nonneg h
  have hy : 0 < y := hx.trans_le h
  have hbit := lastBit_pos w x
  have hlog : Int.log 2 x ≤ Int.log 2 y := Int.log_mono_right hx h
  rcases hlog.eq_or_lt with heq | hlt
  · have hsame : lastBit w x = lastBit w y := by
      rw [lastBit, lastBit, abs_of_pos hx, abs_of_pos hy, heq]
    have hround : roundHalfEven (x / lastBit w x) ≤ roundHalfEven (y / lastBit w x) :=
      roundHalfEven_mono (div_le_div_of_nonneg_right h hbit.le)
    rw [roundBits, roundBits, ← hsame]
    exact mul_le_mul_of_nonneg_right (by exact_mod_cast hround) hbit.le
  · have htop := (roundHalfEven_div_bounds w hx).2
    have hbottom := (roundHalfEven_div_bounds w hy).1
    have hnext : (2 : ℚ) * 2 ^ Int.log 2 x ≤ 2 ^ Int.log 2 y := by
      rw [← zpow_one_add₀ two_ne_zero]
      exact zpow_le_zpow_right₀ one_le_two (by omega)
    calc roundBits w x ≤ 2 * 2 ^ w * lastBit w x :=
          mul_le_mul_of_nonneg_right (by exact_mod_cast htop) hbit.le
      _ = 2 * 2 ^ Int.log 2 x := by rw [mul_assoc, two_pow_mul_lastBit w hx]
      _ ≤ 2 ^ Int.log 2 y := hnext
      _ = 2 ^ w * lastBit w y := (two_pow_mul_lastBit w hy).symm
      _ ≤ roundBits w y := mul_le_mul_of_nonneg_right (by exact_mod_cast hbottom) (lastBit_pos w y).le

/-- The last bit of a whole number of no more than `w + 1` bits is not before the point. -/
theorem roundBits_natCast {n : Nat} (hn : n < 2 * 2 ^ w) : roundBits w n = n := by
  have hlog : Nat.log 2 n ≤ w := by
    rcases Nat.eq_zero_or_pos n with rfl | hpos
    · exact Nat.zero_le w
    · exact Nat.lt_succ_iff.mp (Nat.log_lt_of_lt_pow hpos.ne' (hn.trans_eq (pow_succ' 2 w).symm))
  have hbit : lastBit w n = (2 ^ (w - Nat.log 2 n))⁻¹ := by
    rw [lastBit, Nat.abs_cast, Int.log_natCast, ← zpow_natCast, ← zpow_neg]
    congr 1
    omega
  have hwhole : (n : ℚ) / lastBit w n = ((n * 2 ^ (w - Nat.log 2 n) : ℕ) : ℤ) := by
    rw [hbit, div_inv_eq_mul]
    push_cast
    rfl
  have hround : roundHalfEven ((n : ℚ) / lastBit w n) * lastBit w n = n := by
    rw [hwhole, roundHalfEven_intCast, ← hwhole, div_mul_cancel₀ _ (lastBit_pos w n).ne']
  exact hround

/-! ## Numbers of few bits -/

theorem abs_roundHalfEven_sub_le (x : ℚ) : |roundHalfEven x - x| ≤ 1 / 2 := by
  have hlow : (⌊x⌋ : ℚ) ≤ x := Int.floor_le x
  have hhigh : x < ⌊x⌋ + 1 := Int.lt_floor_add_one x
  rw [abs_le]
  unfold roundHalfEven
  dsimp only
  split_ifs with hdown hup
  · constructor <;> linarith
  · push_cast
    constructor <;> linarith
  · have hhalf : ¬ 1 / 2 < x - ⌊x⌋ := fun h => hup (.inl h)
    constructor <;> linarith

theorem abs_roundBits_sub_le (w : Nat) (x : ℚ) : |roundBits w x - x| ≤ lastBit w x / 2 := by
  have hpos := lastBit_pos w x
  have herror : roundBits w x - x =
      (roundHalfEven (x / lastBit w x) - x / lastBit w x) * lastBit w x := by
    rw [roundBits, sub_mul, div_mul_cancel₀ _ hpos.ne']
  rw [herror, abs_mul, abs_of_pos hpos]
  have hhalf := abs_roundHalfEven_sub_le (x / lastBit w x)
  linarith [mul_le_mul_of_nonneg_right hhalf hpos.le]

/-- The error, beside the number. -/
theorem abs_roundBits_sub_le_mul (w : Nat) (hx : 0 ≤ x) :
    |roundBits w x - x| ≤ x / 2 ^ (w + 1) := by
  rcases hx.eq_or_lt with rfl | hpos
  · rw [roundBits_zero, sub_zero, abs_zero, zero_div]
  have hlog : ((2 : ℕ) : ℚ) ^ Int.log 2 x ≤ x := Int.zpow_log_le_self (by decide) hpos
  push_cast at hlog
  rw [← two_pow_mul_lastBit w hpos] at hlog
  refine (abs_roundBits_sub_le w x).trans ?_
  rw [div_le_div_iff₀ two_pos (pow_pos two_pos _), pow_succ]
  linarith

theorem roundBits_neg (w : Nat) (hx : x < 0) : roundBits w x < 0 := by
  have hpos := lastBit_pos w x
  have hsame : lastBit w (-x) = lastBit w x := by rw [lastBit, lastBit, abs_neg]
  have hbits := (div_lastBit_bounds w (neg_pos.mpr hx)).1
  rw [hsame, neg_div] at hbits
  have hint : roundHalfEven ((-2 ^ w : ℤ) : ℚ) = -2 ^ w := roundHalfEven_intCast _
  have hround : roundHalfEven (x / lastBit w x) ≤ -2 ^ w := by
    rw [← hint]
    refine roundHalfEven_mono ?_
    push_cast
    linarith
  have hpow : (0 : ℤ) < 2 ^ w := by positivity
  have hlt : roundHalfEven (x / lastBit w x) < 0 := by omega
  exact mul_neg_of_neg_of_pos (by exact_mod_cast hlt) hpos

theorem log_mul_two_zpow (hx : 0 < x) (e : ℤ) : Int.log 2 (x * 2 ^ e) = Int.log 2 x + e := by
  have hpow : (0 : ℚ) < 2 ^ e := zpow_pos two_pos e
  have hlow : ((2 : ℕ) : ℚ) ^ Int.log 2 x ≤ x := Int.zpow_log_le_self (by decide) hx
  have hhigh : x < ((2 : ℕ) : ℚ) ^ (Int.log 2 x + 1) := Int.lt_zpow_succ_log_self (by decide) x
  have hle : Int.log 2 x + e ≤ Int.log 2 (x * 2 ^ e) := by
    refine (Int.zpow_le_iff_le_log (by decide) (mul_pos hx hpow)).mp ?_
    push_cast at hlow ⊢
    rw [zpow_add₀ two_ne_zero]
    exact mul_le_mul_of_nonneg_right hlow hpow.le
  have hlt : Int.log 2 (x * 2 ^ e) < Int.log 2 x + 1 + e := by
    refine (Int.lt_zpow_iff_log_lt (by decide) (mul_pos hx hpow)).mp ?_
    push_cast at hhigh ⊢
    rw [zpow_add₀ two_ne_zero]
    exact mul_lt_mul_of_pos_right hhigh hpow
  omega

/-- The point can be anywhere. -/
theorem roundBits_mul_two_zpow (hx : 0 ≤ x) (e : ℤ) :
    roundBits w (x * 2 ^ e) = roundBits w x * 2 ^ e := by
  have hpow : (0 : ℚ) < 2 ^ e := zpow_pos two_pos e
  rcases hx.eq_or_lt with rfl | hx
  · rw [zero_mul, roundBits_zero, zero_mul]
  have hbit : lastBit w (x * 2 ^ e) = lastBit w x * 2 ^ e := by
    rw [lastBit, lastBit, abs_of_pos (mul_pos hx hpow), abs_of_pos hx, log_mul_two_zpow hx,
      ← zpow_add₀ two_ne_zero]
    congr 1
    ring
  rw [roundBits, hbit, mul_div_mul_right _ _ hpow.ne', ← mul_assoc]
  rfl

/-- A number that takes no more than `digits` bits. -/
def HasBits (digits : Nat) (q : ℚ) : Prop := ∃ (m : Nat) (e : ℤ), m < 2 ^ digits ∧ q = m * 2 ^ e

section

variable {digits a b : Nat} {q : ℚ}

theorem HasBits.roundBits_eq (h : HasBits digits q) (hfit : digits ≤ w + 1) :
    roundBits w q = q := by
  obtain ⟨m, e, hm, rfl⟩ := h
  have hlt : m < 2 * 2 ^ w := by
    rw [← pow_succ']
    exact hm.trans_le (Nat.pow_le_pow_right two_pos hfit)
  rw [roundBits_mul_two_zpow (Nat.cast_nonneg m), roundBits_natCast hlt]

/-- Between a quotient and a larger number `m / d` there is at least one part in `b * d`. -/
theorem one_div_le_sub {m d : Nat} (hb : 0 < b) (hd : 0 < d) (hlt : (a / b : ℚ) < m / d) :
    (1 : ℚ) / (b * d) ≤ m / d - a / b := by
  have hbpos : (0 : ℚ) < b := Nat.cast_pos.mpr hb
  have hdpos : (0 : ℚ) < d := Nat.cast_pos.mpr hd
  have hnext : a * d + 1 ≤ m * b := by
    rw [div_lt_div_iff₀ hbpos hdpos] at hlt
    exact_mod_cast hlt
  have hcast : (a : ℚ) * d + 1 ≤ m * b := by exact_mod_cast hnext
  rw [div_sub_div _ _ hdpos.ne' hbpos.ne', mul_comm (d : ℚ) b]
  exact div_le_div_of_nonneg_right (by linarith) (mul_pos hbpos hdpos).le

/-- The last bit of a quotient below a whole number: the numerator is short. -/
theorem lastBit_lt_of_whole {m : Nat} (hb : 0 < b) (ha : 0 < a) (halt : a < 2 ^ (w + 1))
    (hlt : (a / b : ℚ) < m) : lastBit w (a / b : ℚ) / 2 < m - a / b := by
  have hbpos : (0 : ℚ) < b := Nat.cast_pos.mpr hb
  have hxpos : (0 : ℚ) < a / b := div_pos (Nat.cast_pos.mpr ha) hbpos
  have hgap : (1 : ℚ) / b ≤ m - a / b := by
    simpa using one_div_le_sub (m := m) hb Nat.one_pos (by simpa using hlt)
  have hlog : ((2 : ℕ) : ℚ) ^ Int.log 2 (a / b : ℚ) ≤ a / b :=
    Int.zpow_log_le_self (by decide) hxpos
  have hsmall : (a : ℚ) < 2 ^ w * 2 := by exact_mod_cast (pow_succ 2 w) ▸ halt
  have hwpos : (0 : ℚ) < 2 ^ w := pow_pos two_pos w
  push_cast at hlog
  rw [← two_pow_mul_lastBit w hxpos, le_div_iff₀ hbpos] at hlog
  refine lt_of_lt_of_le ?_ hgap
  rw [lt_div_iff₀ hbpos]
  nlinarith

/-- The last bit of a quotient below a number with a fraction: the number is short. -/
theorem lastBit_lt_of_part {m k : Nat} (hm : m < 2 ^ digits) (hb : 0 < b) (ha : 0 < a)
    (hfew : 2 ^ digits * b < 2 ^ (w + 2)) (hlt : (a / b : ℚ) < m / 2 ^ k) :
    lastBit w (a / b : ℚ) / 2 < m / 2 ^ k - a / b := by
  have hbpos : (0 : ℚ) < b := Nat.cast_pos.mpr hb
  have hxpos : (0 : ℚ) < a / b := div_pos (Nat.cast_pos.mpr ha) hbpos
  have hkpos : (0 : ℚ) < 2 ^ k := pow_pos two_pos k
  have hgap : (1 : ℚ) / (b * 2 ^ k) ≤ m / 2 ^ k - a / b := by
    exact_mod_cast one_div_le_sub (m := m) hb (Nat.two_pow_pos k) (by exact_mod_cast hlt)
  have hlog : (2 : ℚ) ^ (Int.log 2 (a / b : ℚ) + 1) ≤ 2 ^ digits / 2 ^ k := by
    have hbelow : (a / b : ℚ) < ((2 : ℕ) : ℚ) ^ ((digits : ℤ) - k) := by
      refine hlt.trans ?_
      push_cast
      rw [zpow_sub₀ two_ne_zero, zpow_natCast, zpow_natCast]
      exact div_lt_div_of_pos_right (by exact_mod_cast hm) hkpos
    have hlog := (Int.lt_zpow_iff_log_lt (by decide) hxpos).mp hbelow
    rw [← zpow_natCast, ← zpow_natCast, ← zpow_sub₀ two_ne_zero]
    exact zpow_le_zpow_right₀ one_le_two (by omega)
  have hfew' : (2 : ℚ) ^ digits * b < 2 ^ w * 4 := by
    have : (2 : ℕ) ^ digits * b < 2 ^ w * 4 := by rwa [pow_add] at hfew
    exact_mod_cast this
  have hwpos : (0 : ℚ) < 2 ^ w := pow_pos two_pos w
  rw [zpow_add_one₀ two_ne_zero, ← two_pow_mul_lastBit w hxpos, le_div_iff₀ hkpos] at hlog
  refine lt_of_lt_of_le ?_ hgap
  rw [lt_div_iff₀ (mul_pos hbpos hkpos)]
  nlinarith

/-- What lies between a quotient and a larger number of few bits is more than the rounding can
add. Whether the number is whole decides which of the two bounds says so. -/
theorem lastBit_lt_gap (h : HasBits digits q) (hb : 0 < b) (ha : 0 < a) (halt : a < 2 ^ (w + 1))
    (hfew : 2 ^ digits * b < 2 ^ (w + 2)) (hlt : (a / b : ℚ) < q) :
    lastBit w (a / b : ℚ) / 2 < q - a / b := by
  obtain ⟨m, e, hm, rfl⟩ := h
  rcases le_or_gt 0 e with hwhole | hpart
  · obtain ⟨k, rfl⟩ := Int.eq_ofNat_of_zero_le hwhole
    have hcast : (m * 2 ^ (k : ℤ) : ℚ) = (m * 2 ^ k : Nat) := by
      rw [zpow_natCast]
      push_cast
      rfl
    rw [hcast] at hlt ⊢
    exact lastBit_lt_of_whole hb ha halt hlt
  · obtain ⟨k, hk⟩ := Int.eq_ofNat_of_zero_le (Int.neg_nonneg_of_nonpos hpart.le)
    obtain rfl : e = -k := by omega
    rw [zpow_neg, zpow_natCast, ← div_eq_mul_inv] at hlt ⊢
    exact lastBit_lt_of_part hm hb ha hfew hlt

/-- **A quotient is rounded to the right side** of a number of few bits. -/
theorem roundBits_div_lt_iff (h : HasBits digits q) (hb : 0 < b) (ha : a < 2 ^ (w + 1))
    (hfew : 2 ^ digits * b < 2 ^ (w + 2)) :
    roundBits w (a / b : ℚ) < q ↔ (a / b : ℚ) < q := by
  have hxnonneg : (0 : ℚ) ≤ a / b := by positivity
  have hfit : digits ≤ w + 1 := by
    have hlt : 2 ^ digits < 2 ^ (w + 2) := (Nat.le_mul_of_pos_right _ hb).trans_lt hfew
    have := (Nat.pow_lt_pow_iff_right one_lt_two).mp hlt
    omega
  constructor
  · intro hround
    by_contra hle
    have hqnonneg : 0 ≤ q := by
      obtain ⟨m, e, -, rfl⟩ := h
      exact mul_nonneg (Nat.cast_nonneg m) (zpow_pos two_pos e).le
    have hmono := roundBits_mono (w := w) hqnonneg (not_lt.mp hle)
    rw [h.roundBits_eq hfit] at hmono
    exact absurd hround (not_lt.mpr hmono)
  · intro hlt
    rcases Nat.eq_zero_or_pos a with rfl | hapos
    · rw [Nat.cast_zero, zero_div] at hlt ⊢
      rwa [roundBits_zero]
    · have hgap := lastBit_lt_gap h hb hapos ha hfew hlt
      have herror := (abs_le.mp (abs_roundBits_sub_le w (a / b : ℚ))).2
      linarith

end

/-! ## A part of a whole number -/

theorem roundBits_le_one (hx : 0 ≤ x) (h : x ≤ 1) : roundBits w x ≤ 1 := by
  have hpow : 0 < 2 ^ w := Nat.two_pow_pos w
  have hone : roundBits w (1 : ℕ) = (1 : ℕ) := roundBits_natCast (by omega)
  rw [Nat.cast_one] at hone
  exact (roundBits_mono hx h).trans_eq hone

theorem roundBits_mul_le {n : Nat} (hx : 0 ≤ x) (h : x ≤ 1) (hn : n < 2 * 2 ^ w) :
    roundBits w (roundBits w x * n) ≤ n := by
  have hmul : roundBits w x * n ≤ n :=
    mul_le_of_le_one_left (Nat.cast_nonneg n) (roundBits_le_one hx h)
  have hnonneg : 0 ≤ roundBits w x * n := mul_nonneg (roundBits_nonneg hx) (Nat.cast_nonneg n)
  exact (roundBits_mono hnonneg hmul).trans_eq (roundBits_natCast hn)

/-- Both roundings together. -/
theorem abs_roundBits_mul_sub_le {n : Nat} (hx : 0 ≤ x) (h : x ≤ 1) :
    |roundBits w (roundBits w x * n) - x * n| ≤ n / 2 ^ w := by
  have hnnonneg : (0 : ℚ) ≤ n := Nat.cast_nonneg n
  have hnonneg : 0 ≤ roundBits w x * n := mul_nonneg (roundBits_nonneg hx) hnnonneg
  have hle : roundBits w x * n ≤ n := mul_le_of_le_one_left hnnonneg (roundBits_le_one hx h)
  have hsecond : |roundBits w (roundBits w x * n) - roundBits w x * n| ≤ n / 2 ^ (w + 1) :=
    (abs_roundBits_sub_le_mul w hnonneg).trans (by gcongr)
  have hfirst : |roundBits w x * n - x * n| ≤ n / 2 ^ (w + 1) := by
    rw [← sub_mul, abs_mul, abs_of_nonneg hnnonneg, mul_comm, div_eq_mul_inv]
    refine mul_le_mul_of_nonneg_left ((abs_roundBits_sub_le_mul w hx).trans ?_) hnnonneg
    rw [div_eq_mul_inv]
    exact mul_le_of_le_one_left (by positivity) h
  calc |roundBits w (roundBits w x * n) - x * n|
      ≤ |roundBits w (roundBits w x * n) - roundBits w x * n| + |roundBits w x * n - x * n| :=
        abs_sub_le _ _ _
    _ ≤ n / 2 ^ (w + 1) + n / 2 ^ (w + 1) := add_le_add hsecond hfirst
    _ = n / 2 ^ w := by
        rw [pow_succ]
        field_simp
        ring

/-! ## What a quotient loses -/

section

variable {a b s : Nat}

theorem div_lastBit_eq (hb : 0 < b) (hbit : lastBit w (a / b : ℚ) = (2 ^ s)⁻¹) :
    (a / b : ℚ) / lastBit w (a / b : ℚ) = (a * 2 ^ s / b : ℕ) + (a * 2 ^ s % b : ℕ) / b := by
  have hbpos : (b : ℚ) ≠ 0 := Nat.cast_ne_zero.mpr hb.ne'
  have hparts : (b : ℚ) * (a * 2 ^ s / b : ℕ) + (a * 2 ^ s % b : ℕ) = a * 2 ^ s := by
    exact_mod_cast Nat.div_add_mod (a * 2 ^ s) b
  rw [hbit, div_inv_eq_mul]
  field_simp
  linarith

theorem floor_div_lastBit (hb : 0 < b) (hbit : lastBit w (a / b : ℚ) = (2 ^ s)⁻¹) :
    ⌊(a / b : ℚ) / lastBit w (a / b : ℚ)⌋ = (a * 2 ^ s / b : ℕ) := by
  have hbpos : (0 : ℚ) < b := Nat.cast_pos.mpr hb
  have hlt : ((a * 2 ^ s % b : ℕ) : ℚ) < b := Nat.cast_lt.mpr (Nat.mod_lt _ hb)
  rw [div_lastBit_eq hb hbit, Int.floor_eq_iff, Int.cast_natCast]
  constructor
  · linarith [div_nonneg (Nat.cast_nonneg (α := ℚ) (a * 2 ^ s % b)) hbpos.le]
  · linarith [(div_lt_one hbpos).mpr hlt]

/-- Less than half of the last bit is cut off. -/
theorem roundBits_div_of_rest_lt (hb : 0 < b) (hbit : lastBit w (a / b : ℚ) = (2 ^ s)⁻¹)
    (hrest : 2 * (a * 2 ^ s % b) < b) :
    roundBits w (a / b : ℚ) = a / b - (a * 2 ^ s % b : ℕ) / (b * 2 ^ s) := by
  have hbpos : (0 : ℚ) < b := Nat.cast_pos.mpr hb
  have hunits := div_lastBit_eq hb hbit
  have hcast : (2 : ℚ) * (a * 2 ^ s % b : ℕ) < b := by exact_mod_cast hrest
  have hdown : ((a * 2 ^ s % b : ℕ) : ℚ) / b < 1 / 2 := by
    rw [div_lt_iff₀ hbpos]
    linarith
  have hround : roundHalfEven ((a / b : ℚ) / lastBit w (a / b : ℚ)) = (a * 2 ^ s / b : ℕ) := by
    unfold roundHalfEven
    dsimp only
    rw [floor_div_lastBit hb hbit, Int.cast_natCast, hunits, if_pos (by linarith)]
  have hwhole : ((a * 2 ^ s / b : ℕ) : ℚ) = a / b * 2 ^ s - (a * 2 ^ s % b : ℕ) / b := by
    rw [hbit, div_inv_eq_mul] at hunits
    linarith
  rw [roundBits, hround, hbit, Int.cast_natCast, hwhole]
  field_simp

/-- More than half: the last bit is one more. -/
theorem lt_roundBits_div_of_lt_rest (hb : 0 < b) (hbit : lastBit w (a / b : ℚ) = (2 ^ s)⁻¹)
    (hrest : b < 2 * (a * 2 ^ s % b)) : (a / b : ℚ) < roundBits w (a / b : ℚ) := by
  have hbpos : (0 : ℚ) < b := Nat.cast_pos.mpr hb
  have hunits := div_lastBit_eq hb hbit
  have hcast : (b : ℚ) < 2 * (a * 2 ^ s % b : ℕ) := by exact_mod_cast hrest
  have hlt : ((a * 2 ^ s % b : ℕ) : ℚ) < b := Nat.cast_lt.mpr (Nat.mod_lt _ hb)
  have hup : (1 / 2 : ℚ) < (a * 2 ^ s % b : ℕ) / b := by
    rw [lt_div_iff₀ hbpos]
    linarith
  have hround : roundHalfEven ((a / b : ℚ) / lastBit w (a / b : ℚ)) =
      (a * 2 ^ s / b : ℕ) + 1 := by
    have hfract : (a / b : ℚ) / lastBit w (a / b : ℚ) - ((a * 2 ^ s / b : ℕ) : ℤ) =
        (a * 2 ^ s % b : ℕ) / b := by
      rw [hunits, Int.cast_natCast]
      ring
    unfold roundHalfEven
    dsimp only
    rw [floor_div_lastBit hb hbit, hfract, if_neg (not_lt.mpr hup.le), if_pos (.inl hup)]
  have hless : (a / b : ℚ) / lastBit w (a / b : ℚ) < (a * 2 ^ s / b : ℕ) + 1 := by
    rw [hunits]
    linarith [(div_lt_one hbpos).mpr hlt]
  rw [roundBits, hround]
  rw [div_lt_iff₀ (lastBit_pos w _)] at hless
  exact_mod_cast hless

end

/-! ## Below a whole number -/

/-- Half of what lies between a whole number and the number of `w + 1` bits before it. -/
def halfGap (w m : Nat) : ℚ := 2 ^ ((Nat.clog 2 m : ℤ) - (w + 2))

theorem roundHalfEven_sub_half (k : ℤ) : roundHalfEven ((2 * k : ℤ) - 1 / 2) = 2 * k := by
  have hfloor : ⌊((2 * k : ℤ) - 1 / 2 : ℚ)⌋ = 2 * k - 1 := by
    rw [Int.floor_eq_iff]
    push_cast
    constructor <;> linarith
  have hodd : (2 * k - 1) % 2 = 1 := by omega
  have hfract : ((2 * k : ℤ) - 1 / 2 : ℚ) - (2 * k - 1 : ℤ) = 1 / 2 := by
    push_cast
    ring
  unfold roundHalfEven
  dsimp only
  rw [hfloor, hfract, if_neg (lt_irrefl _), if_pos (.inr hodd), sub_add_cancel]

section

variable {m : Nat}

/-- The numbers before a whole number have all the same last bit. -/
theorem lastBit_eq_halfGap (hlow : 2 ^ ((Nat.clog 2 m : ℤ) - 1) ≤ x) (hx : x < m) :
    lastBit w x = 2 * halfGap w m := by
  have hpos : 0 < x := (zpow_pos two_pos _).trans_le hlow
  have htop : (m : ℚ) ≤ 2 ^ Nat.clog 2 m := by exact_mod_cast Nat.le_pow_clog one_lt_two m
  have hlog : Int.log 2 x = Nat.clog 2 m - 1 := by
    refine le_antisymm (Int.le_sub_one_of_lt ?_) ?_
    · refine (Int.lt_zpow_iff_log_lt one_lt_two hpos).mp ?_
      rw [zpow_natCast]
      exact_mod_cast hx.trans_le htop
    · exact (Int.zpow_le_iff_le_log one_lt_two hpos).mp (by exact_mod_cast hlow)
  rw [lastBit, abs_of_pos hpos, hlog, halfGap, ← zpow_one_add₀ two_ne_zero]
  congr 1
  ring

theorem pow_add_halfGap_le (hpos : 0 < m) (hm : m ≤ 2 ^ w) :
    2 ^ ((Nat.clog 2 m : ℤ) - 1) + halfGap w m ≤ m := by
  have hfew : Nat.clog 2 m ≤ w := Nat.clog_le_of_le_pow hm
  have hquarter : halfGap w m ≤ 2 ^ (-2 : ℤ) := zpow_le_zpow_right₀ one_le_two (by omega)
  rcases Nat.lt_or_ge 1 m with hone | hone
  · have hlow : 2 ^ (Nat.clog 2 m - 1) + 1 ≤ m := Nat.pow_pred_clog_lt_self one_lt_two hone
    have hclog : 0 < Nat.clog 2 m := Nat.clog_pos one_lt_two hone
    have hcast : ((2 : ℚ) ^ ((Nat.clog 2 m : ℤ) - 1)) = (2 ^ (Nat.clog 2 m - 1) : Nat) := by
      rw [Nat.cast_pow, ← zpow_natCast, Nat.cast_sub hclog]
      rfl
    have hlow' : ((2 ^ (Nat.clog 2 m - 1) : Nat) : ℚ) + 1 ≤ m := by exact_mod_cast hlow
    rw [hcast]
    norm_num at hquarter
    linarith
  · obtain rfl : m = 1 := by omega
    rw [Nat.clog_one_right]
    norm_num at hquarter ⊢
    linarith

/-- In units of the last bit, which is before the point, this is an even number less a half. -/
theorem roundBits_sub_halfGap (hpos : 0 < m) (hm : m ≤ 2 ^ w) :
    roundBits w (m - halfGap w m) = m := by
  have hgap : 0 < halfGap w m := zpow_pos two_pos _
  have hlow := pow_add_halfGap_le hpos hm
  have hbit := lastBit_eq_halfGap (w := w) (x := m - halfGap w m) (by linarith) (by linarith)
  have hfew : Nat.clog 2 m ≤ w := Nat.clog_le_of_le_pow hm
  have hone : (2 : ℚ) * 2 ^ (w - Nat.clog 2 m) * (2 * halfGap w m) = 1 := by
    rw [halfGap, ← zpow_natCast, ← zpow_one_add₀ two_ne_zero, ← zpow_one_add₀ two_ne_zero,
      ← zpow_add₀ two_ne_zero, ← zpow_zero 2]
    congr 1
    omega
  have hunits : (m : ℚ) = (2 * (m * 2 ^ (w - Nat.clog 2 m) : ℕ) : ℤ) * (2 * halfGap w m) :=
    calc (m : ℚ) = m * (2 * 2 ^ (w - Nat.clog 2 m) * (2 * halfGap w m)) := by rw [hone, mul_one]
      _ = _ := by
        push_cast
        ring
  have hhalf : (m - halfGap w m) / (2 * halfGap w m) =
      (2 * (m * 2 ^ (w - Nat.clog 2 m) : ℕ) : ℤ) - 1 / 2 := by
    rw [div_eq_iff (by positivity), sub_mul, ← hunits]
    ring
  rw [roundBits, hbit, hhalf, roundHalfEven_sub_half, ← hunits]

/-- **What is rounded to less than a whole number.** The number itself is the even one of the two
that are as near. -/
theorem roundBits_lt_natCast_iff (hpos : 0 < m) (hm : m ≤ 2 ^ w) :
    roundBits w x < m ↔ x < m - halfGap w m := by
  have hgap : 0 < halfGap w m := zpow_pos two_pos _
  have hlow := pow_add_halfGap_le hpos hm
  constructor
  · intro hround
    by_contra hle
    have hnonneg : 0 ≤ (m : ℚ) - halfGap w m := by
      have hbottom : (0 : ℚ) < 2 ^ ((Nat.clog 2 m : ℤ) - 1) := zpow_pos two_pos _
      linarith
    have hmono := roundBits_mono (w := w) hnonneg (not_lt.mp hle)
    rw [roundBits_sub_halfGap hpos hm] at hmono
    exact absurd hround (not_lt.mpr hmono)
  · intro hlt
    rcases lt_or_ge x 0 with hneg | hnonneg
    · exact (roundBits_neg w hneg).trans (Nat.cast_pos.mpr hpos)
    rcases lt_or_ge x (2 ^ ((Nat.clog 2 m : ℤ) - 1)) with hbefore | hbinade
    · have hbits : HasBits 1 (2 ^ ((Nat.clog 2 m : ℤ) - 1)) :=
        ⟨1, (Nat.clog 2 m : ℤ) - 1, by decide, by simp⟩
      have hmono := roundBits_mono (w := w) hnonneg hbefore.le
      rw [hbits.roundBits_eq (by omega)] at hmono
      linarith
    · have hbit := lastBit_eq_halfGap (w := w) hbinade (by linarith)
      have herror := (abs_le.mp (abs_roundBits_sub_le w x)).2
      rw [hbit] at herror
      linarith

end

end TokuQa.Lib
