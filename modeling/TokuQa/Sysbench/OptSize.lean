import TokuQa.Sysbench.Options

/-!
# Sizes in `sb_options.c`

`sb_opt_to_size` reads digits and one byte behind them, which it takes for a modifier; it stands in
for `sscanf` with `%llu%c`. A size is the number that the digits are, times a power of 1024
(`IsSize`).

The code does not look at what is behind the modifier, and the digits and the modifier are read
modulo `2 ^ 64`. So it reads sizes right, and takes other texts for sizes: `exactSize_iff` says
which. Among them are those a multiple of `2 ^ 64` stands for, which are nothing, as they should be.
-/

set_option autoImplicit false

namespace TokuQa.Sysbench.OptSize

open Options (SbOption)

def isDigit (c : UInt8) : Bool := 48 ≤ c && c ≤ 57

/-- `toupper`, in the C locale. -/
def toupper (c : UInt8) : UInt8 := if 97 ≤ c && c ≤ 122 then c - 32 else c

/-- The string `KMGT`. -/
def sizemods : List UInt8 := [75, 77, 71, 84]

/-- What the loop over a value leaves in `rc`, `res` and `mult`. -/
structure SizeScan where
  rc : Nat
  res : Nat
  mult : UInt8
deriving DecidableEq

/-- The loop over a value. -/
def scanSize : List UInt8 → (rc res : Nat) → SizeScan
  | [], rc, res => ⟨rc, res, 0⟩
  | c :: s, rc, res =>
    if isDigit c then scanSize s 1 ((res * 10 + (c.toNat - 48)) % 2 ^ 64)
    else if rc = 1 then ⟨2, res, c⟩
    else ⟨rc, res, 0⟩

/-- The body of `SB_LIST_ONCE`. -/
def sizeOf (value : List UInt8) : Nat :=
  let found := scanSize value 0 0
  if found.rc = 2 then
    match sizemods.idxOf? (toupper found.mult) with
    | some n => (fun res => res * 1024 % 2 ^ 64)^[n + 1] found.res
    | none => 0
  else found.res

/-- `sb_opt_to_size`: an option has one size, the first of its values. -/
def sbOptToSize (opt : SbOption) : Nat :=
  match opt.values with
  | [] => 0
  | value :: _ => sizeOf value

/-! ## What a size is -/

/-- The number that digits are. -/
def numeral (digits : List UInt8) : Nat :=
  digits.foldl (fun n c => n * 10 + (c.toNat - 48)) 0

/-- The power of 1024 that a letter stands for. -/
def power (c : UInt8) : Option Nat :=
  if c = 75 ∨ c = 107 then some 1
  else if c = 77 ∨ c = 109 then some 2
  else if c = 71 ∨ c = 103 then some 3
  else if c = 84 ∨ c = 116 then some 4
  else none

/-- The power that what is behind the digits begins with. -/
def unit : List UInt8 → Option Nat
  | [] => some 0
  | c :: _ => power c

/-- The text is a size: digits, one modifier at most, and less than `2 ^ 64` of it. -/
def IsSize (text : List UInt8) (size : Nat) : Prop :=
  ∃ digits mods k, text = digits ++ mods ∧ digits ≠ [] ∧ (∀ c ∈ digits, isDigit c = true) ∧
    mods.length ≤ 1 ∧ unit mods = some k ∧ size = numeral digits * 1024 ^ k ∧ size < 2 ^ 64

/-- **A size is read exactly**, and every other text as nothing. -/
def ExactSize (text : List UInt8) (size : Nat) : Prop :=
  (∀ size', IsSize text size' → size = size') ∧ ((¬ ∃ size', IsSize text size') → size = 0)

/-- The digits that a text begins with. -/
def digitsOf (text : List UInt8) : List UInt8 := text.takeWhile isDigit

/-- What is behind them. -/
def restOf (text : List UInt8) : List UInt8 := text.dropWhile isDigit

section

variable {text : List UInt8} {size : Nat}

/-- No digit is a modifier. -/
theorem not_isDigit_of_power {c : UInt8} {k : Nat} (h : power c = some k) : isDigit c = false := by
  unfold power at h
  split_ifs at h with hK hM hG hT
  · rcases hK with rfl | rfl <;> rfl
  · rcases hM with rfl | rfl <;> rfl
  · rcases hG with rfl | rfl <;> rfl
  · rcases hT with rfl | rfl <;> rfl

/-- There is one way to read a size. -/
theorem isSize_iff : IsSize text size ↔ digitsOf text ≠ [] ∧ (restOf text).length ≤ 1 ∧
    ∃ k, unit (restOf text) = some k ∧ size = numeral (digitsOf text) * 1024 ^ k ∧
      size < 2 ^ 64 := by
  constructor
  · rintro ⟨digits, mods, k, rfl, hne, hdigits, hmods, hunit, hsize, hfit⟩
    have htake : mods.takeWhile isDigit = [] ∧ mods.dropWhile isDigit = mods := by
      cases mods with
      | nil => exact ⟨rfl, rfl⟩
      | cons c mods =>
        have hc : isDigit c = false := not_isDigit_of_power hunit
        exact ⟨List.takeWhile_cons_of_neg (by simp [hc]), List.dropWhile_cons_of_neg (by simp [hc])⟩
    rw [digitsOf, restOf, List.takeWhile_append_of_pos hdigits, htake.1, List.append_nil,
      List.dropWhile_append_of_pos hdigits, htake.2]
    exact ⟨hne, hmods, k, hunit, hsize, hfit⟩
  · rintro ⟨hne, hmods, k, hunit, hsize, hfit⟩
    exact ⟨digitsOf text, restOf text, k, List.takeWhile_append_dropWhile.symm, hne,
      fun c hc => List.mem_takeWhile_imp hc, hmods, hunit, hsize, hfit⟩

/-! ## What is read -/

/-- The digits, modulo `2 ^ 64`. -/
theorem numeral_mod (digits : List UInt8) :
    digits.foldl (fun res c => (res * 10 + (c.toNat - 48)) % 2 ^ 64) 0 =
      numeral digits % 2 ^ 64 := by
  have hfold : ∀ n : Nat,
      digits.foldl (fun res c => (res * 10 + (c.toNat - 48)) % 2 ^ 64) (n % 2 ^ 64) =
        digits.foldl (fun n c => n * 10 + (c.toNat - 48)) n % 2 ^ 64 := by
    induction digits with
    | nil => exact fun n => rfl
    | cons c digits ih =>
      intro n
      rw [List.foldl_cons, List.foldl_cons, ← ih, Nat.add_mod, Nat.mod_mul_mod, ← Nat.add_mod]
  exact hfold 0

/-- The multiplications, modulo `2 ^ 64`. -/
theorem iterate_mod (n res : Nat) :
    (fun res => res * 1024 % 2 ^ 64)^[n] (res % 2 ^ 64) = res * 1024 ^ n % 2 ^ 64 := by
  induction n with
  | zero => rw [Function.iterate_zero_apply, pow_zero, mul_one]
  | succ n ih => rw [Function.iterate_succ_apply', ih, Nat.mod_mul_mod, pow_succ 1024 n, mul_assoc]

/-- The loop stops at what is behind the digits. -/
theorem scanSize_eq (text : List UInt8) (rc res : Nat) :
    scanSize text rc res = scanSize (restOf text) (if digitsOf text = [] then rc else 1)
      ((digitsOf text).foldl (fun res c => (res * 10 + (c.toNat - 48)) % 2 ^ 64) res) := by
  induction text generalizing rc res with
  | nil => rfl
  | cons c text ih =>
    by_cases hc : isDigit c = true
    · rw [scanSize, if_pos hc, ih, digitsOf, digitsOf, List.takeWhile_cons_of_pos hc,
        if_neg (List.cons_ne_nil _ _), ite_self, restOf, restOf, List.dropWhile_cons_of_pos hc]
      rfl
    · rw [digitsOf, restOf, List.takeWhile_cons_of_neg hc, List.dropWhile_cons_of_neg hc,
        if_pos rfl, List.foldl_nil]

/-- The table of modifiers is what they stand for. -/
theorem idxOf?_sizemods (c : UInt8) :
    (sizemods.idxOf? (toupper c)).map (· + 1) = power c := by
  have hall : ∀ n : Fin 256, (sizemods.idxOf? (toupper (UInt8.ofNat n))).map (· + 1) =
      power (UInt8.ofNat n) := by decide +kernel
  have hc := hall ⟨c.toNat, c.toNat_lt⟩
  rwa [UInt8.ofNat_toNat] at hc

/-- **What is read**: what the digits and the byte behind them stand for, modulo `2 ^ 64`. -/
theorem sizeOf_eq (text : List UInt8) :
    sizeOf text = if digitsOf text = [] then 0
      else ((unit (restOf text)).map fun k =>
        numeral (digitsOf text) * 1024 ^ k % 2 ^ 64).getD 0 := by
  rw [sizeOf, scanSize_eq]
  have hfirst := List.head?_dropWhile_not isDigit text
  rw [← restOf] at hfirst
  cases hrest : restOf text with
  | nil =>
    by_cases hdigits : digitsOf text = []
    · rw [if_pos hdigits, if_pos hdigits, hdigits]
      rfl
    · rw [if_neg hdigits, if_neg hdigits, numeral_mod]
      simp [scanSize, unit]
  | cons c rest =>
    rw [hrest] at hfirst
    have hc : ¬ isDigit c = true := by simpa using hfirst
    rw [scanSize, if_neg hc]
    by_cases hdigits : digitsOf text = []
    · rw [if_pos hdigits, if_pos hdigits, hdigits]
      rfl
    · rw [if_neg hdigits, if_pos rfl, if_pos rfl, if_neg hdigits, numeral_mod, unit,
        ← idxOf?_sizemods, Option.map_map]
      cases sizemods.idxOf? (toupper c) with
      | none => rfl
      | some n => exact iterate_mod (n + 1) (numeral (digitsOf text))

/-- **Which texts are read as the sizes they are**, and as nothing if they are none: those without
digits or with another byte behind them; sizes; and those that stand for a multiple of
`2 ^ 64`. -/
theorem exactSize_iff (text : List UInt8) :
    ExactSize text (sizeOf text) ↔ digitsOf text = [] ∨ unit (restOf text) = none ∨
      ∃ k, unit (restOf text) = some k ∧
        ((restOf text).length ≤ 1 ∧ numeral (digitsOf text) * 1024 ^ k < 2 ^ 64 ∨
          2 ^ 64 ∣ numeral (digitsOf text) * 1024 ^ k) := by
  rw [sizeOf_eq]
  by_cases hdigits : digitsOf text = []
  · rw [if_pos hdigits]
    refine iff_of_true ⟨fun size' h => ?_, fun _ => rfl⟩ (.inl hdigits)
    exact absurd hdigits (isSize_iff.mp h).1
  rw [if_neg hdigits]
  cases hunit : unit (restOf text) with
  | none =>
    refine iff_of_true ⟨fun size' h => ?_, fun _ => rfl⟩ (.inr (.inl rfl))
    obtain ⟨-, -, k, hk, -⟩ := isSize_iff.mp h
    cases hunit.symm.trans hk
  | some k =>
    simp only [Option.map_some, Option.getD_some, hdigits, reduceCtorEq, false_or,
      Option.some.injEq, exists_eq_left']
    constructor
    · rintro ⟨-, hother⟩
      by_contra hcond
      rw [not_or, Nat.dvd_iff_mod_eq_zero] at hcond
      refine hcond.2 (hother ?_)
      rintro ⟨size', h⟩
      obtain ⟨-, hlength, k', hk', rfl, hfit⟩ := isSize_iff.mp h
      cases hunit.symm.trans hk'
      exact hcond.1 ⟨hlength, hfit⟩
    · intro hcond
      refine ⟨fun size' h => ?_, fun hnone => ?_⟩
      · obtain ⟨-, -, k', hk', rfl, hfit⟩ := isSize_iff.mp h
        cases hunit.symm.trans hk'
        exact Nat.mod_eq_of_lt hfit
      · rcases hcond with ⟨hlength, hfit⟩ | hmultiple
        · exact absurd ⟨_, isSize_iff.mpr ⟨hdigits, hlength, k, hunit, rfl, hfit⟩⟩ hnone
        · exact Nat.mod_eq_zero_of_dvd hmultiple

/-- **When an option is read exactly**: by its first value. -/
theorem sbOptToSize_iff (opt : SbOption) (value : List UInt8) (others : List (List UInt8)) :
    ExactSize value (sbOptToSize { opt with values := value :: others }) ↔
      digitsOf value = [] ∨ unit (restOf value) = none ∨
        ∃ k, unit (restOf value) = some k ∧
          ((restOf value).length ≤ 1 ∧ numeral (digitsOf value) * 1024 ^ k < 2 ^ 64 ∨
            2 ^ 64 ∣ numeral (digitsOf value) * 1024 ^ k) :=
  exactSize_iff value

end

/-- The text `1Kfoo`. -/
def trailing : List UInt8 := [49, 75, 102, 111, 111]

/-- The text `18446744073709551617`. -/
def tooLong : List UInt8 :=
  [49, 56, 52, 52, 54, 55, 52, 52, 48, 55, 51, 55, 48, 57, 53, 53, 49, 54, 49, 55]

/-- An option `s` with one value. -/
def sizeOption (value : List UInt8) : SbOption where
  name := [115]
  values := [value]
  type := .size

/-- The one is read as 1024, the other as 1. -/
theorem no_size_read :
    (sbOptToSize (sizeOption trailing) = 1024 ∧
      ¬ ExactSize trailing (sbOptToSize (sizeOption trailing))) ∧
    (sbOptToSize (sizeOption tooLong) = 1 ∧
      ¬ ExactSize tooLong (sbOptToSize (sizeOption tooLong))) := by
  have htrailing : ¬ ∃ size, IsSize trailing size := by
    rintro ⟨size, h⟩
    exact absurd (isSize_iff.mp h).2.1 (by decide)
  have htooLong : ¬ ∃ size, IsSize tooLong size := by
    rintro ⟨size, h⟩
    obtain ⟨-, -, k, hk, rfl, hfit⟩ := isSize_iff.mp h
    cases hk
    exact absurd hfit (by decide)
  exact ⟨⟨by decide, fun h => absurd (h.2 htrailing) (by decide)⟩,
    ⟨by decide, fun h => absurd (h.2 htooLong) (by decide)⟩⟩

end TokuQa.Sysbench.OptSize
