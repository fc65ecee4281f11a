import TokuQa.Lib.Binary64

/-!
# `jiibench`: the character fields

A character field is a part of the random holder and a part of the compressible one, both from the
same random position. How long the two parts are is computed from the percentages `p` and
`100 - p` of the declared length, each truncated to an `int`. Together they are as long as declared
if both percentages are whole numbers of characters, and none of them comes out below
(`declaredLength_iff`): one character is missing otherwise.

A percentage that is whole comes out below if a hundredth of it is rounded down to a `double`, and
what this takes from the product is more than what lies half way to the next smaller one (`Short`).
Of 100 characters 29 percent are 28.
-/

set_option autoImplicit false

namespace TokuQa.Jiibench

open TokuQa.Lib

def randomStringLength : Nat := 4 * 1024 * 1024

def compressibleStringLength : Nat := 4 * 1024 * 1024

/-- The options that are read, as `main` admits the percentage; a random position is below
`randomStringLength - lengthCharFields`. -/
structure Options where
  lengthCharFields : Nat
  percentCompressible : Nat
  length_lt : lengthCharFields < randomStringLength
  percent_le : percentCompressible ≤ 100

/-- `(int) (((double) percent / 100.0) * (double) length)`; the conversions are exact. -/
def numCharacters (percent length : Nat) : Nat :=
  ⌊roundDouble (roundDouble (percent / 100) * length)⌋.toNat

def Options.numCompressibleCharacters (o : Options) : Nat :=
  numCharacters o.percentCompressible o.lengthCharFields

/-- With `100.0 - (double) percentCompressible`, which is exact. -/
def Options.numUncompressibleCharacters (o : Options) : Nat :=
  numCharacters (100 - o.percentCompressible) o.lengthCharFields

/-- Nothing stands for the exception. -/
def substring (s : List Char) (beginIndex endIndex : Nat) : Option (List Char) :=
  if beginIndex ≤ endIndex ∧ endIndex ≤ s.length then some ((s.take endIndex).drop beginIndex)
  else none

/-- Random letters. -/
structure RandomString where
  chars : List Char
  length_eq : chars.length = randomStringLength

def compressibleStringHolder : List Char := List.replicate compressibleStringLength 'a'

variable (o : Options) (randomStringHolder : RandomString)
  (startPosition : Fin (randomStringLength - o.lengthCharFields))

def charField : Option (List Char) := do
  let random ← substring randomStringHolder.chars startPosition
    (startPosition + o.numUncompressibleCharacters)
  let compressible ← substring compressibleStringHolder startPosition
    (startPosition + o.numCompressibleCharacters)
  return random ++ compressible

/-- The field is made, and has the declared length; of its characters the last ones are from the
compressible holder. -/
def DeclaredLength : Prop :=
  ∃ random compressible,
    charField o randomStringHolder startPosition = some (random ++ compressible) ∧
    (random ++ compressible).length = o.lengthCharFields ∧
    compressible <:+: compressibleStringHolder ∧
    compressible.length = o.numCompressibleCharacters

/-! ## When a percentage comes out below -/

/-- The last of the 53 bits of `percent / 100` stands for `2 ^ -lastPlace`. -/
def lastPlace (percent : Nat) : Nat := 52 + Nat.clog 2 ((99 + percent) / percent)

/-- What comes behind this bit, in hundredths of it. -/
def rest (percent : Nat) : Nat := percent * 2 ^ lastPlace percent % 100

/-- A hundredth of the percentage is rounded down, and for `length` characters what is cut off is
more than half of what lies between their number and the `double` before it. -/
def Short (percent length : Nat) : Prop :=
  rest percent < 50 ∧
    100 * 2 ^ (lastPlace percent + Nat.clog 2 (percent * length / 100)) <
      rest percent * length * 2 ^ 54

instance (percent length : Nat) : Decidable (Short percent length) :=
  inferInstanceAs (Decidable (_ ∧ _))

variable {percent length : Nat}

/-- `lastPlace` is what it is said to be. -/
theorem lastBit_percent (hpos : 0 < percent) (hle : percent ≤ 100) :
    lastBit 52 ((percent : ℚ) / (100 : ℕ)) = (2 ^ lastPlace percent)⁻¹ := by
  have hpercent : (0 : ℚ) < percent := Nat.cast_pos.mpr hpos
  have hone : (percent : ℚ) / (100 : ℕ) ≤ 1 := by
    rw [div_le_one (by norm_num)]
    exact_mod_cast hle
  have hceil : ⌈((percent : ℚ) / (100 : ℕ))⁻¹⌉₊ = (99 + percent) / percent := by
    refine eq_of_forall_ge_iff fun k => ?_
    rw [Nat.ceil_le, inv_div, div_le_iff₀ hpercent, Nat.div_le_iff_le_mul hpos]
    have hcast : ((100 : ℕ) : ℚ) ≤ k * percent ↔ 100 ≤ k * percent := by exact_mod_cast Iff.rfl
    rw [hcast]
    omega
  rw [lastBit, abs_of_pos (by positivity), Int.log_of_right_le_one _ hone, hceil, lastPlace,
    ← zpow_natCast, ← zpow_neg]
  congr 1
  push_cast
  ring

/-- There are more than two factors 2 in the quotient, so what comes behind is never half a bit. -/
theorem rest_ne (percent : Nat) : rest percent ≠ 50 := by
  have hfour : percent * 2 ^ lastPlace percent =
      4 * (percent * 2 ^ (50 + Nat.clog 2 ((99 + percent) / percent))) := by
    rw [lastPlace, show 52 = 2 + 50 by rfl, Nat.add_assoc, Nat.pow_add]
    ring
  rw [rest, hfour]
  omega

/-! ## The number of characters -/

theorem percent_le_one (hle : percent ≤ 100) : (percent : ℚ) / 100 ≤ 1 := by
  rw [div_le_one (by norm_num)]
  exact_mod_cast hle

theorem numCharacters_le (hle : percent ≤ 100) (hlength : length < randomStringLength) :
    numCharacters percent length ≤ length := by
  have hproduct : roundDouble (roundDouble (percent / 100) * length) ≤ length :=
    roundBits_mul_le (by positivity) (percent_le_one hle) (hlength.trans (by decide))
  have hfloor : ⌊roundDouble (roundDouble (percent / 100) * length)⌋ ≤ length := by
    exact_mod_cast (Int.floor_le_floor hproduct).trans_eq (Int.floor_natCast length)
  rw [numCharacters]
  omega

/-- The roundings are far too small to move a number past a hundredth. -/
theorem product_near (hle : percent ≤ 100) (hlength : length < randomStringLength) :
    |roundDouble (roundDouble (percent / 100) * length) - (percent * length : ℕ) / 100| <
      1 / 100 := by
  have hcast : (length : ℚ) < 4194304 := by exact_mod_cast hlength
  have hsmall : (length : ℚ) / 2 ^ 52 < 1 / 100 := by
    rw [div_lt_div_iff₀ (by norm_num) (by norm_num)]
    linarith
  have hnear := abs_roundBits_mul_sub_le (w := 52) (n := length) (by positivity)
    (percent_le_one hle)
  rw [div_mul_eq_mul_div, ← Nat.cast_mul] at hnear
  exact hnear.trans_lt hsmall

/-- A percentage that is not whole is truncated as it should be. -/
theorem numCharacters_of_not_dvd (hle : percent ≤ 100) (hlength : length < randomStringLength)
    (hdvd : ¬ 100 ∣ percent * length) :
    numCharacters percent length = percent * length / 100 := by
  obtain ⟨hlow, hhigh⟩ := abs_lt.mp (product_near hle hlength)
  have hparts : ((percent * length : ℕ) : ℚ) =
      100 * (percent * length / 100 : ℕ) + (percent * length % 100 : ℕ) := by
    exact_mod_cast (Nat.div_add_mod _ 100).symm
  have hrest : (1 : ℚ) ≤ (percent * length % 100 : ℕ) := by
    exact_mod_cast Nat.one_le_iff_ne_zero.mpr fun h => hdvd (Nat.dvd_of_mod_eq_zero h)
  have hrest' : ((percent * length % 100 : ℕ) : ℚ) ≤ 99 := by
    exact_mod_cast Nat.le_of_lt_succ (Nat.mod_lt _ (by decide))
  have hfloor : ⌊roundDouble (roundDouble (percent / 100) * length)⌋ =
      (percent * length / 100 : ℕ) := by
    rw [Int.floor_eq_iff, Int.cast_natCast]
    constructor <;> linarith
  rw [numCharacters, hfloor, Int.toNat_natCast]

/-- **A whole percentage comes out below** exactly if it is short: the product of the rounded
hundredth lies before the half of the gap. -/
theorem product_lt_iff (hle : percent ≤ 100) {m : Nat} (hm : percent * length = 100 * m)
    (hpos : 0 < m) (hfew : m ≤ 2 ^ 52) :
    roundDouble (roundDouble (percent / 100) * length) < m ↔ Short percent length := by
  have hpercent : 0 < percent := by
    by_contra h
    have hzero : percent * length = 0 := by rw [Nat.eq_zero_of_not_pos h, Nat.zero_mul]
    omega
  have hlength : 0 < length := by
    by_contra h
    have hzero : percent * length = 0 := by rw [Nat.eq_zero_of_not_pos h, Nat.mul_zero]
    omega
  have hbit := lastBit_percent hpercent hle
  have hwhole : (percent : ℚ) / (100 : ℕ) * length = m := by
    have hcast : (percent : ℚ) * length = 100 * m := by exact_mod_cast hm
    rw [div_mul_eq_mul_div, hcast]
    push_cast
    ring
  have hproduct : percent * length / 100 = m := by omega
  rw [Nat.cast_ofNat] at hbit hwhole
  rw [roundBits_lt_natCast_iff hpos hfew, Short, hproduct]
  rcases lt_or_gt_of_ne (rest_ne percent) with hdown | hup
  · have hround := roundBits_div_of_rest_lt (a := percent) (b := 100) (by decide)
      (by rwa [Nat.cast_ofNat]) (show 2 * rest percent < 100 by omega)
    have hgap : halfGap 52 m * (100 * 2 ^ lastPlace percent) * 2 ^ 54 =
        (100 * 2 ^ (lastPlace percent + Nat.clog 2 m) : ℕ) := by
      have hpow : halfGap 52 m * 2 ^ 54 = 2 ^ Nat.clog 2 m := by
        rw [halfGap, ← zpow_natCast, ← zpow_natCast, ← zpow_add₀ two_ne_zero]
        congr 1
        push_cast
        ring
      push_cast
      rw [pow_add, ← hpow]
      ring
    have hcast : (rest percent * length * 2 ^ 54 : ℚ) = (rest percent * length * 2 ^ 54 : ℕ) := by
      push_cast
      rfl
    rw [Nat.cast_ofNat] at hround
    rw [and_iff_right hdown, roundDouble, hround, sub_mul, hwhole, sub_lt_sub_iff_left,
      div_mul_eq_mul_div, lt_div_iff₀ (by positivity),
      ← mul_lt_mul_iff_left₀ (show (0 : ℚ) < 2 ^ 54 by positivity), hgap, ← Nat.cast_lt (α := ℚ),
      ← hcast]
    rfl
  · have hround := lt_roundBits_div_of_lt_rest (a := percent) (b := 100) (by decide)
      (by rwa [Nat.cast_ofNat]) (show 100 < 2 * rest percent by omega)
    have hgap : 0 < halfGap 52 m := zpow_pos two_pos _
    rw [Nat.cast_ofNat] at hround
    have hmore := mul_lt_mul_of_pos_right hround (Nat.cast_pos.mpr hlength)
    rw [hwhole] at hmore
    constructor
    · intro hless
      linarith
    · rintro ⟨hdown, -⟩
      omega

theorem not_short_of_zero (h : percent * length = 0) : ¬ Short percent length := by
  rintro ⟨-, hlt⟩
  rcases Nat.mul_eq_zero.mp h with rfl | rfl
  · simp [rest] at hlt
  · simp at hlt

theorem numCharacters_add_short (hle : percent ≤ 100) (hlength : length < randomStringLength)
    (hdvd : 100 ∣ percent * length) :
    numCharacters percent length + (if Short percent length then 1 else 0) =
      percent * length / 100 := by
  obtain ⟨m, hm⟩ := hdvd
  have hdiv : percent * length / 100 = m := by omega
  obtain ⟨hlow, hhigh⟩ := abs_lt.mp (product_near hle hlength)
  have hwhole : ((percent * length : ℕ) : ℚ) / 100 = m := by
    rw [hm]
    push_cast
    ring
  rw [hwhole] at hlow hhigh
  rw [hdiv, numCharacters]
  rcases Nat.eq_zero_or_pos m with rfl | hpos
  · have hfloor : ⌊roundDouble (roundDouble (percent / 100) * length)⌋ < 1 := by
      rw [Int.floor_lt]
      push_cast at hhigh ⊢
      linarith
    rw [if_neg (not_short_of_zero hm)]
    omega
  · have hfew : m ≤ 2 ^ 52 := by
      have hall := Nat.mul_le_mul_right length hle
      have hbound : randomStringLength ≤ 2 ^ 52 := by decide
      omega
    have hiff := product_lt_iff hle hm hpos hfew
    split
    · next hshort =>
      have hbelow := hiff.mpr hshort
      have hfloor : ⌊roundDouble (roundDouble (percent / 100) * length)⌋ = (m : ℤ) - 1 := by
        rw [Int.floor_eq_iff]
        push_cast
        constructor <;> linarith
      rw [hfloor]
      omega
    · next hshort =>
      have habove := not_lt.mp fun h => hshort (hiff.mp h)
      have hfloor : ⌊roundDouble (roundDouble (percent / 100) * length)⌋ = (m : ℤ) := by
        rw [Int.floor_eq_iff]
        push_cast
        constructor <;> linarith
      rw [hfloor, Int.toNat_natCast, Nat.add_zero]

/-- The condition. -/
def Options.Whole (o : Options) : Prop :=
  100 ∣ o.percentCompressible * o.lengthCharFields ∧
    ¬ Short o.percentCompressible o.lengthCharFields ∧
    ¬ Short (100 - o.percentCompressible) o.lengthCharFields

theorem add_eq_length_iff (o : Options) :
    o.numUncompressibleCharacters + o.numCompressibleCharacters = o.lengthCharFields ↔
      o.Whole := by
  have hle := o.percent_le
  have hle' : 100 - o.percentCompressible ≤ 100 := Nat.sub_le _ _
  have hall : o.percentCompressible * o.lengthCharFields +
      (100 - o.percentCompressible) * o.lengthCharFields = 100 * o.lengthCharFields := by
    rw [← Nat.add_mul, Nat.add_sub_cancel' hle]
  unfold Options.Whole Options.numCompressibleCharacters Options.numUncompressibleCharacters
  by_cases hdvd : 100 ∣ o.percentCompressible * o.lengthCharFields
  · have hdvd' : 100 ∣ (100 - o.percentCompressible) * o.lengthCharFields := by omega
    have hone := numCharacters_add_short hle o.length_lt hdvd
    have hother := numCharacters_add_short hle' o.length_lt hdvd'
    split_ifs at hone hother with hshort hshort' hshort' <;> grind
  · have hdvd' : ¬ 100 ∣ (100 - o.percentCompressible) * o.lengthCharFields := by omega
    have hone := numCharacters_of_not_dvd hle o.length_lt hdvd
    have hother := numCharacters_of_not_dvd hle' o.length_lt hdvd'
    constructor
    · intro hsum
      omega
    · rintro ⟨h, -⟩
      exact absurd h hdvd

/-! ## The fields -/

theorem substring_eq_some {s : List Char} {beginIndex count : Nat}
    (h : beginIndex + count ≤ s.length) :
    ∃ t, substring s beginIndex (beginIndex + count) = some t ∧ t <:+: s ∧ t.length = count := by
  refine ⟨(s.take (beginIndex + count)).drop beginIndex, if_pos ⟨Nat.le_add_right _ _, h⟩,
    (List.drop_suffix _ _).isInfix.trans (List.take_prefix _ _).isInfix, ?_⟩
  rw [List.length_drop, List.length_take, Nat.min_eq_left h, Nat.add_sub_cancel_left]

/-- Both substrings are inside, whatever their lengths. -/
theorem charField_eq_some :
    ∃ random compressible, charField o randomStringHolder startPosition =
        some (random ++ compressible) ∧
      random.length = o.numUncompressibleCharacters ∧
      compressible <:+: compressibleStringHolder ∧
      compressible.length = o.numCompressibleCharacters := by
  have hstart := startPosition.isLt
  have hrandom : startPosition + o.numUncompressibleCharacters ≤
      randomStringHolder.chars.length := by
    have hle := numCharacters_le (Nat.sub_le 100 o.percentCompressible) o.length_lt
    rw [randomStringHolder.length_eq, Options.numUncompressibleCharacters]
    omega
  have hcompressible : startPosition + o.numCompressibleCharacters ≤
      compressibleStringHolder.length := by
    have hle := numCharacters_le o.percent_le o.length_lt
    rw [compressibleStringHolder, List.length_replicate, Options.numCompressibleCharacters]
    exact (Nat.add_le_add_left hle _).trans (by change _ ≤ randomStringLength; omega)
  obtain ⟨random, hleft, -, hlength⟩ := substring_eq_some hrandom
  obtain ⟨compressible, hright, hinfix, hlength'⟩ := substring_eq_some hcompressible
  refine ⟨random, compressible, ?_, hlength, hinfix, hlength'⟩
  rw [charField, hleft, hright]
  rfl

/-- **Fields of the declared length.** -/
theorem declaredLength_iff :
    DeclaredLength o randomStringHolder startPosition ↔ o.Whole := by
  obtain ⟨random, compressible, hfield, hlength, hinfix, hlength'⟩ :=
    charField_eq_some o randomStringHolder startPosition
  rw [← add_eq_length_iff, ← hlength, ← hlength', ← List.length_append]
  constructor
  · rintro ⟨random', compressible', hfield', hdeclared, -⟩
    rw [Option.some.inj (hfield.symm.trans hfield')]
    exact hdeclared
  · intro hdeclared
    exact ⟨random, compressible, hfield, hdeclared, hinfix, hlength'⟩

/-- 29 percent of 100 characters. -/
def percent29 : Options := ⟨100, 29, by decide, by decide⟩

theorem not_declaredLength_percent29 :
    percent29.numUncompressibleCharacters = 71 ∧ percent29.numCompressibleCharacters = 28 ∧
      ¬ DeclaredLength percent29 ⟨List.replicate randomStringLength 'a', List.length_replicate⟩
        ⟨0, by decide⟩ := by
  have hrandom : percent29.numUncompressibleCharacters = 71 := by decide +kernel
  have hcompressible : percent29.numCompressibleCharacters = 28 := by decide +kernel
  refine ⟨hrandom, hcompressible, ?_⟩
  rintro ⟨random', compressible', hfield', hdeclared, -⟩
  obtain ⟨random, compressible, hfield, hlength, -, hlength'⟩ := charField_eq_some percent29
    ⟨List.replicate randomStringLength 'a', List.length_replicate⟩ ⟨0, by decide⟩
  rw [← Option.some.inj (hfield.symm.trans hfield'), List.length_append, hlength, hlength', hrandom,
    hcompressible] at hdeclared
  cases hdeclared

end TokuQa.Jiibench
