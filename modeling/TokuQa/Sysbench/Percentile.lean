import TokuQa.Lib.Binary64
import TokuQa.Lib.Cumulative

/-!
# `sb_percentile.c`

A histogram of response times, and the bucket of a percentile in it: counts are added up until
they reach the percentage. The sum begins with the first bucket, but is not compared before the
second one has been added, so the first bucket is never found; and a percentage of less than half
a value is reached by nothing at all (`sbPercentileCalculate_iff`).

The percentage is computed in `double`s. For less than `2 ^ 40` values it is what it should be
(`nmax_eq`).

The bucket of a value is computed with logarithms and is given here; so is the time that is
returned for a bucket, of which the bucket is what is looked for.
-/

set_option autoImplicit false

namespace TokuQa.Sysbench.Percentile

open TokuQa.Lib

/-- `sb_percentile_t`; `size` is the length of `values`. No counter wraps around: there are fewer
than `2 ^ 64` values. -/
structure SbPercentile where
  values : List Nat
  total : Nat
  sum_values : values.sum = total
  total_lt : total < 2 ^ 64

def sbPercentileInit (size : Nat) : SbPercentile where
  values := List.replicate size 0
  total := 0
  sum_values := by rw [List.sum_replicate, nsmul_zero]
  total_lt := Nat.two_pow_pos 64

theorem sum_modify_succ {values : List Nat} {n : Nat} (h : n < values.length) :
    (values.modify n (· + 1)).sum = values.sum + 1 := by
  induction values generalizing n with
  | nil => exact absurd h (Nat.not_lt_zero n)
  | cons v values ih =>
    cases n with
    | zero =>
      rw [List.modify_zero_cons, List.sum_cons, List.sum_cons]
      omega
    | succ n =>
      rw [List.modify_succ_cons, List.sum_cons, List.sum_cons, ih (Nat.lt_of_succ_lt_succ h),
        Nat.add_assoc]

/-- `sb_percentile_update`, for a value of bucket `n`. -/
def sbPercentileUpdate (n : Nat) (p : SbPercentile) (hn : n < p.values.length)
    (htotal : p.total + 1 < 2 ^ 64) : SbPercentile where
  values := p.values.modify n (· + 1)
  total := p.total + 1
  sum_values := by rw [sum_modify_succ hn, p.sum_values]
  total_lt := htotal

/-- `nmax`: each operation is rounded. -/
def nmax (total : Nat) (percent : ℚ) : Nat :=
  ⌊roundDouble (roundDouble (roundDouble (roundDouble total * percent) / 100) + 1 / 2)⌋.toNat

/-- The place where `sb_percentile_calculate` leaves its loop. Of an empty histogram it returns 0
without looking for one. -/
def sbPercentileCalculate (percent : ℚ) (p : SbPercentile) : Option Nat :=
  if p.total = 0 then none
  else some (firstReaching (fun ncur => nmax p.total percent ≤ ncur) (p.values.headD 0) 1
    p.values.tail)

/-! ## What it should find -/

/-- The percentage, rounded to the nearest. -/
def rank (total : Nat) (percent : ℚ) : Nat := ⌊total * percent / 100 + 1 / 2⌋.toNat

/-- The first bucket up to which there are so many values, and one at least. -/
def IsPercentile (percent : ℚ) (p : SbPercentile) (i : Nat) : Prop :=
  IsLeast {i | i < p.values.length ∧ max (rank p.total percent) 1 ≤ cumulative p.values i} i

section

variable {total : Nat} {percent : ℚ}

theorem rank_le (hpercent : percent ≤ 100) : rank total percent ≤ total := by
  have hmul : (total : ℚ) * percent / 100 ≤ total := by
    rw [div_le_iff₀ (by norm_num)]
    exact mul_le_mul_of_nonneg_left hpercent (Nat.cast_nonneg total)
  have hfloor : ⌊(total : ℚ) * percent / 100 + 1 / 2⌋ ≤ total := by
    refine Int.lt_add_one_iff.mp (Int.floor_lt.mpr ?_)
    push_cast
    linarith
  rw [rank]
  omega

/-! ## With few values -/

/-- Two roundings do not move a number of hundredths to the other side of a whole number, or away
from one. -/
theorem floor_roundDouble {m : Nat} (hm : m < 2 ^ 47) :
    ⌊roundDouble (roundDouble (m / 100 : ℚ) + 1 / 2)⌋ = ⌊(m / 100 : ℚ) + 1 / 2⌋ := by
  obtain ⟨k, r, hr, hkr⟩ : ∃ k r, r < 100 ∧ m + 50 = 100 * k + r :=
    ⟨(m + 50) / 100, (m + 50) % 100, Nat.mod_lt _ (by decide), (Nat.div_add_mod _ _).symm⟩
  have hx : (m / 100 : ℚ) + 1 / 2 = k + r / 100 := by
    have hcast : (m : ℚ) + 50 = 100 * k + r := by exact_mod_cast hkr
    linarith
  have hr' : (r : ℚ) ≤ 99 := by exact_mod_cast Nat.le_of_lt_succ hr
  have hexact : ⌊(m / 100 : ℚ) + 1 / 2⌋ = k := by
    rw [hx, Int.floor_eq_iff]
    push_cast
    exact ⟨le_add_of_nonneg_right (by positivity), by linarith⟩
  rw [hexact, Int.floor_eq_iff]
  push_cast
  rcases Nat.eq_zero_or_pos r with hzero | hpos
  · -- a half: nothing is rounded
    have hhalf : (m / 100 : ℚ) = ((2 * k - 1 : Nat) : ℚ) * 2 ^ (-1 : ℤ) := by
      have hodd : m = 50 * (2 * k - 1) := by omega
      rw [hodd, zpow_neg_one]
      push_cast
      ring
    have hbits : HasBits 53 (m / 100 : ℚ) := ⟨2 * k - 1, -1, by omega, hhalf⟩
    have hwhole : (m / 100 : ℚ) + 1 / 2 = k := by rw [hx, hzero, Nat.cast_zero, zero_div, add_zero]
    have hround : roundDouble (m / 100 : ℚ) = m / 100 := hbits.roundBits_eq le_rfl
    have hround' : roundDouble (k : ℚ) = k := roundBits_natCast (by omega)
    rw [hround, hwhole, hround']
    exact ⟨le_rfl, lt_add_one _⟩
  · have hm' : (m : ℚ) < 2 ^ 47 := by exact_mod_cast hm
    have hpos' : (1 : ℚ) ≤ r := by exact_mod_cast hpos
    have hnonneg : (0 : ℚ) ≤ m / 100 := by positivity
    have hfirst := abs_le.mp (abs_roundBits_sub_le_mul 52 hnonneg)
    have hnonneg' : 0 ≤ roundDouble (m / 100 : ℚ) + 1 / 2 :=
      add_nonneg (roundBits_nonneg hnonneg) (by norm_num)
    have hsecond := abs_le.mp (abs_roundBits_sub_le_mul 52 hnonneg')
    constructor <;> linarith

theorem nmax_eq {percent : Nat} (htotal : total < 2 ^ 40) (hpercent : percent ≤ 100) :
    nmax total percent = rank total percent := by
  have hm : total * percent < 2 ^ 47 := by
    have hle := Nat.mul_le_mul_left total hpercent
    omega
  have hround : roundDouble (total : ℚ) = total := roundBits_natCast (by omega)
  have hround' : roundDouble ((total * percent : Nat) : ℚ) = (total * percent : Nat) :=
    roundBits_natCast (by omega)
  have hfloor := floor_roundDouble hm
  rw [nmax, rank, hround, ← Nat.cast_mul, hround', hfloor]

/-- Then sums of counts tell nothing apart, but for a percentage of less than half a value: the sum
with the second bucket may be 0. -/
theorem few_iff {p : SbPercentile} {percent : Nat} (hsize : 2 ≤ p.values.length)
    (hpercent : percent ≤ 100) (hfew : p.total < 2 ^ 40) :
    (∀ i, 1 ≤ i → i < p.values.length →
      (max (rank p.total percent) 1 ≤ cumulative p.values i ↔
        nmax p.total percent ≤ cumulative p.values i)) ↔
      (rank p.total percent = 0 → 0 < cumulative p.values 1) := by
  rw [nmax_eq hfew hpercent]
  refine ⟨fun hsame hzero => ?_, fun hsecond i hi _ => ?_⟩
  · have hone := (hsame 1 le_rfl hsize).mpr (by omega)
    omega
  · have hmono := cumulative_mono p.values hi
    omega

/-! ## The percentile -/

/-- **What is found is the percentile** exactly when the first bucket is not, and no other sum of
counts tells what is computed from what it should be. -/
theorem sbPercentileCalculate_iff {p : SbPercentile} (hsize : 2 ≤ p.values.length)
    (htotal : 0 < p.total) (hpercent : percent ≤ 100) :
    (∃ i, sbPercentileCalculate percent p = some i ∧ IsPercentile percent p i) ↔
      cumulative p.values 0 < max (rank p.total percent) 1 ∧
        ∀ i, 1 ≤ i → i < p.values.length →
          (max (rank p.total percent) 1 ≤ cumulative p.values i ↔
            nmax p.total percent ≤ cumulative p.values i) := by
  obtain ⟨v, values, hvalues⟩ := List.exists_cons_of_length_pos (Nat.zero_lt_of_lt hsize)
  have hsum : max (rank p.total percent) 1 ≤ ([v] ++ values).sum := by
    rw [List.singleton_append, ← hvalues, p.sum_values]
    exact max_le (rank_le hpercent) htotal
  have hreached : ∀ {a b}, decide (nmax p.total percent ≤ a) = true → a ≤ b →
      decide (nmax p.total percent ≤ b) = true := fun h hle =>
    decide_eq_true ((of_decide_eq_true h).trans hle)
  have hwanted : ∀ {a b}, max (rank p.total percent) 1 ≤ a → a ≤ b →
      max (rank p.total percent) 1 ≤ b := fun h hle => h.trans hle
  have hiff := isLeast_firstReaching_iff [v] values hreached hwanted hsum
    (List.cons_ne_nil v values)
  simp only [List.singleton_append, ← hvalues, List.sum_singleton, List.length_singleton,
    decide_eq_true_eq] at hiff
  have hfound : sbPercentileCalculate percent p =
      some (firstReaching (fun ncur => nmax p.total percent ≤ ncur) v 1 values) := by
    rw [sbPercentileCalculate, if_neg htotal.ne', hvalues]
    rfl
  rw [hfound]
  constructor
  · rintro ⟨_, hi, hleast⟩
    cases hi
    obtain ⟨hfirst, hsame⟩ := hiff.mp hleast
    exact ⟨not_le.mp (hfirst 0 Nat.one_pos), hsame⟩
  · rintro ⟨hfirst, hsame⟩
    refine ⟨_, rfl, hiff.mpr ⟨fun i hi => ?_, hsame⟩⟩
    rw [Nat.lt_one_iff.mp hi]
    exact not_le.mpr hfirst

end

/-- One value, in the second of two buckets, and in the first one. -/
def oneValue (second : Bool) : SbPercentile where
  values := if second then [0, 1] else [1, 0]
  total := 1
  sum_values := by cases second <;> rfl
  total_lt := Nat.one_lt_two_pow (by decide)

theorem rank_oneValue : rank 1 95 = 1 := by
  have hfloor : ⌊((1 : Nat) : ℚ) * 95 / 100 + 1 / 2⌋ = 1 := by
    rw [Int.floor_eq_iff]
    norm_num
  rw [rank, hfloor]
  rfl

theorem percentile_oneValue :
    (∃ i, sbPercentileCalculate 95 (oneValue true) = some i ∧
        IsPercentile 95 (oneValue true) i) ↔
      cumulative (oneValue true).values 0 < max (rank (oneValue true).total 95) 1 ∧
        ∀ i, 1 ≤ i → i < (oneValue true).values.length →
          (max (rank (oneValue true).total 95) 1 ≤ cumulative (oneValue true).values i ↔
            nmax (oneValue true).total 95 ≤ cumulative (oneValue true).values i) :=
  sbPercentileCalculate_iff (by decide) (by decide) (by norm_num)

/-- **A value in the first bucket** is not found there. -/
theorem first_not_found : sbPercentileCalculate 95 (oneValue false) = some 1 ∧
    IsPercentile 95 (oneValue false) 0 ∧
    ¬ ∃ i, sbPercentileCalculate 95 (oneValue false) = some i ∧
      IsPercentile 95 (oneValue false) i := by
  have hnmax : nmax 1 95 = 1 := by
    have heq : nmax 1 (95 : Nat) = rank 1 (95 : Nat) := nmax_eq (by decide) (by decide)
    rw [Nat.cast_ofNat, rank_oneValue] at heq
    exact heq
  have hfound : sbPercentileCalculate 95 (oneValue false) = some 1 := by
    have htotal : (oneValue false).total = 1 := rfl
    rw [sbPercentileCalculate, htotal, hnmax]
    rfl
  have hfirst : IsPercentile 95 (oneValue false) 0 := by
    refine ⟨⟨by decide, ?_⟩, fun i _ => Nat.zero_le i⟩
    have htotal : (oneValue false).total = 1 := rfl
    rw [htotal, rank_oneValue]
    decide
  refine ⟨hfound, hfirst, ?_⟩
  rintro ⟨i, hi, hleast⟩
  rw [hfound] at hi
  cases hi
  exact absurd (hleast.unique hfirst) (by decide)

end TokuQa.Sysbench.Percentile
