import Mathlib.Algebra.Order.Round
import Mathlib.Data.Rat.Floor
import Mathlib.Tactic.Ring
import Mathlib.Tactic.Positivity
import Mathlib.Tactic.FieldSimp
import Mathlib.Tactic.NormNum
import TokuQa.Lib.JavaString

/-!
# Decimals as text

`printF` is `printf` with `%f`: six decimals, the last one rounded, half to even. `decimalValue`
reads a sign, digits, a point and digits, and `roundTo` is what a `decimal` column keeps of a
number: so many decimals, half away from zero. `decimalValue_printFixed` says that nothing is lost
of a number that has no more decimals than are printed.
-/

set_option autoImplicit false

namespace TokuQa.Lib

/-- The last `w` decimal digits, the highest first. -/
def fixedDigits : (w n : Nat) → List Char
  | 0, _ => []
  | w + 1, n => fixedDigits w (n / 10) ++ [Nat.digitChar (n % 10)]

/-- The nearest integer, of two the even one. -/
def roundHalfEven (x : ℚ) : ℤ :=
  let r := x - ⌊x⌋
  if r < 1 / 2 then ⌊x⌋ else if 1 / 2 < r ∨ ⌊x⌋ % 2 = 1 then ⌊x⌋ + 1 else ⌊x⌋

/-- The integer part and `d` decimals, of a number of units in the last place. -/
def decimalDigits (d n : Nat) : List Char :=
  Nat.toDigits 10 (n / 10 ^ d) ++ '.' :: fixedDigits d (n % 10 ^ d)

/-- `%.df`, for a positive `d`. -/
def printFixed (d : Nat) (x : ℚ) : List Char :=
  let digits := decimalDigits d (roundHalfEven (|x| * 10 ^ d)).toNat
  if x < 0 then '-' :: digits else digits

/-- `%f`. -/
def printF (x : ℚ) : List Char := printFixed 6 x

def unsignedDecimal (s : List Char) : Option ℚ :=
  let whole := s.takeWhile (· ≠ '.')
  let decimals := (s.dropWhile (· ≠ '.')).tail
  (digitsValue (whole ++ decimals)).map fun n => (n : ℚ) / 10 ^ decimals.length

def decimalValue (s : List Char) : Option ℚ :=
  match s with
  | '-' :: s => (unsignedDecimal s).map fun x => -x
  | '+' :: s => unsignedDecimal s
  | s => unsignedDecimal s

/-- What is left of a number with `d` decimals. -/
def roundTo (d : Nat) (x : ℚ) : ℚ :=
  if x < 0 then -((round (-x * 10 ^ d) : ℤ) / 10 ^ d) else (round (x * 10 ^ d) : ℤ) / 10 ^ d

/-- A number with at most `d` decimals. -/
def HasDecimals (d : Nat) (x : ℚ) : Prop := ∃ m : ℤ, x = m / 10 ^ d

theorem HasDecimals.mono {d d' : Nat} {x : ℚ} (h : HasDecimals d x) (hd : d ≤ d') :
    HasDecimals d' x := by
  obtain ⟨m, rfl⟩ := h
  refine ⟨m * 10 ^ (d' - d), ?_⟩
  rw [div_eq_div_iff (by positivity) (by positivity)]
  push_cast
  rw [mul_assoc, ← pow_add, Nat.sub_add_cancel hd]

theorem hasDecimals_intCast (d : Nat) (m : ℤ) : HasDecimals d m :=
  HasDecimals.mono ⟨m, by simp⟩ (Nat.zero_le d)

/-! ## Digits -/

theorem length_fixedDigits (w n : Nat) : (fixedDigits w n).length = w := by
  induction w generalizing n with
  | zero => rfl
  | succ w ih => rw [fixedDigits, List.length_append, ih, List.length_singleton]

theorem isDigit_fixedDigits {w n : Nat} {c : Char} (h : c ∈ fixedDigits w n) : c.isDigit = true := by
  induction w generalizing n with
  | zero => exact absurd h (List.not_mem_nil)
  | succ w ih =>
    rw [fixedDigits, List.mem_append, List.mem_singleton] at h
    rcases h with h | rfl
    · exact ih h
    · rw [Nat.isDigit_digitChar, decide_eq_true_eq]
      exact Nat.mod_lt _ (by decide)

theorem ofDigitChars_fixedDigits (w n v : Nat) :
    Nat.ofDigitChars 10 (fixedDigits w n) v = v * 10 ^ w + n % 10 ^ w := by
  induction w generalizing n with
  | zero => simp [fixedDigits, Nat.mod_one]
  | succ w ih =>
    have hdigit := Nat.toNat_digitChar_sub_48_of_lt_ten (Nat.mod_lt n (by decide : 0 < 10))
    have hzero : '0'.toNat = 48 := rfl
    rw [fixedDigits, Nat.ofDigitChars_append, ih, Nat.ofDigitChars_cons, Nat.ofDigitChars_nil, hzero,
      hdigit, pow_succ', Nat.mod_mul]
    ring

section

variable {d n : Nat} {x : ℚ} {c : Char}

theorem mem_decimalDigits (h : c ∈ decimalDigits d n) : c = '.' ∨ c.isDigit = true := by
  rw [decimalDigits, List.mem_append, List.mem_cons] at h
  rcases h with h | rfl | h
  · exact .inr (Nat.isDigit_of_mem_toDigits (by decide) (by decide) h)
  · exact .inl rfl
  · exact .inr (isDigit_fixedDigits h)

theorem mem_printFixed (h : c ∈ printFixed d x) : c = '-' ∨ c = '.' ∨ c.isDigit = true := by
  simp only [printFixed] at h
  split at h
  · exact (List.mem_cons.mp h).imp_right mem_decimalDigits
  · exact .inr (mem_decimalDigits h)

/-! ## What is printed is read back -/

theorem isDigit_toDigits (h : c ∈ Nat.toDigits 10 n) : c.isDigit = true :=
  Nat.isDigit_of_mem_toDigits (by decide) (by decide) h

theorem ne_point_toDigits (n : Nat) : ∀ c ∈ Nat.toDigits 10 n, decide (c ≠ '.') = true := by
  intro c hc
  rw [decide_eq_true_eq]
  rintro rfl
  exact absurd (isDigit_toDigits hc) (by decide)

/-- A text that begins with a digit has no sign. -/
theorem decimalValue_of_isDigit {s : List Char} (h : ∀ c ∈ s.head?, c.isDigit = true) :
    decimalValue s = unsignedDecimal s := by
  unfold decimalValue
  split
  · exact absurd (h '-' rfl) (by decide)
  · exact absurd (h '+' rfl) (by decide)
  · rfl

theorem unsignedDecimal_toDigits (n : Nat) : unsignedDecimal (Nat.toDigits 10 n) = some (n : ℚ) := by
  have hpoint := ne_point_toDigits n
  simp only [unsignedDecimal]
  rw [List.takeWhile_eq_self_iff.mpr hpoint, List.dropWhile_eq_nil_iff.mpr hpoint, List.tail_nil,
    List.append_nil, digitsValue_toDigits]
  simp

theorem unsignedDecimal_decimalDigits (d n : Nat) :
    unsignedDecimal (decimalDigits d n) = some ((n : ℚ) / 10 ^ d) := by
  have hpoint := ne_point_toDigits (n / 10 ^ d)
  have hwhole : (decimalDigits d n).takeWhile (· ≠ '.') = Nat.toDigits 10 (n / 10 ^ d) := by
    rw [decimalDigits, List.takeWhile_append_of_pos hpoint, List.takeWhile_cons_of_neg (by decide),
      List.append_nil]
  have hdecimals : ((decimalDigits d n).dropWhile (· ≠ '.')).tail = fixedDigits d (n % 10 ^ d) := by
    rw [decimalDigits, List.dropWhile_append_of_pos hpoint, List.dropWhile_cons_of_neg (by decide),
      List.tail_cons]
  have hvalue : digitsValue (Nat.toDigits 10 (n / 10 ^ d) ++ fixedDigits d (n % 10 ^ d)) =
      some (n : ℤ) := by
    rw [digitsValue_of_isDigit (by simp [Nat.toDigits_ne_nil]) fun c hc => ?_,
      Nat.ofDigitChars_append, Nat.ofDigitChars_ten_toDigits, ofDigitChars_fixedDigits,
      Nat.mod_mod, Nat.div_add_mod']
    exact (List.mem_append.mp hc).elim isDigit_toDigits isDigit_fixedDigits
  simp only [unsignedDecimal]
  rw [hwhole, hdecimals, hvalue, length_fixedDigits]
  rfl

theorem decimalValue_decimalDigits (d n : Nat) :
    decimalValue (decimalDigits d n) = some ((n : ℚ) / 10 ^ d) := by
  rw [decimalValue_of_isDigit, unsignedDecimal_decimalDigits]
  intro c hc
  rw [decimalDigits, List.head?_append_of_ne_nil _ Nat.toDigits_ne_nil] at hc
  exact isDigit_toDigits (List.mem_of_mem_head? hc)

theorem roundHalfEven_intCast (m : ℤ) : roundHalfEven m = m := by
  simp [roundHalfEven]

/-- **A number with no more decimals than are printed is read back.** -/
theorem decimalValue_printFixed (h : HasDecimals d x) : decimalValue (printFixed d x) = some x := by
  obtain ⟨m, rfl⟩ := h
  have hpos : (0 : ℚ) < 10 ^ d := by positivity
  have hunits : |(m : ℚ) / 10 ^ d| * 10 ^ d = ((m.natAbs : ℤ) : ℚ) := by
    rw [abs_div, abs_of_pos hpos, div_mul_cancel₀ _ hpos.ne', Int.natCast_natAbs, Int.cast_abs]
  have hsign : (m : ℚ) / 10 ^ d < 0 ↔ m < 0 := by
    rw [div_lt_iff₀ hpos, zero_mul, Int.cast_lt_zero]
  simp only [printFixed]
  rw [hunits, roundHalfEven_intCast, Int.toNat_natCast]
  split
  · next hneg =>
    have hm := hsign.mp hneg
    rw [decimalValue, unsignedDecimal_decimalDigits, Option.map_some, ← neg_div, Nat.cast_natAbs,
      abs_of_neg hm, Int.cast_neg, neg_neg]
  · next hneg =>
    have hm : 0 ≤ m := not_lt.mp fun hm => hneg (hsign.mpr hm)
    rw [decimalValue_decimalDigits, Nat.cast_natAbs, abs_of_nonneg hm]

/-- An integer is a decimal, too. -/
theorem decimalValue_longToString (m : ℤ) : decimalValue (longToString m) = some (m : ℚ) := by
  cases m with
  | ofNat n =>
    rw [Int.ofNat_eq_natCast, longToString_natCast, decimalValue_of_isDigit fun c hc =>
      isDigit_toDigits (List.mem_of_mem_head? hc), unsignedDecimal_toDigits]
    simp
  | negSucc n =>
    rw [longToString_negSucc, decimalValue, unsignedDecimal_toDigits, Option.map_some,
      Int.cast_negSucc]

end

end TokuQa.Lib
