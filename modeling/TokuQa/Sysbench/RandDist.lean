import Mathlib.Data.Nat.Basic
import TokuQa.Lib.JavaInt
import TokuQa.Sysbench.RndRequests

/-!
# The random distributions of `sysbench.c`

`sb_rand_gaussian` is the mean of a number of draws. `sb_rand_special` draws from a range that is
larger than the one asked for: what falls outside is mapped to a few values near the center.

Most of it is `unsigned` arithmetic, and wraps around. That makes the sum of the draws and the
width of the center smaller than they should be, and a smaller one is still in the range. The
range of the special distribution can wrap around to zero, though, and it is a divisor
(`inRange_iff`).

`none` is undefined behaviour, an `int` that overflows or a division by zero. A random number is
a `long`, so a sum of it does not overflow before it is cut to an `int`.
-/

set_option autoImplicit false

namespace TokuQa.Sysbench.RandDist

open TokuQa.Lib
open FileIo (sbMaxRnd)

/-- `rand_iter`, `rand_pct` and `rand_res`, which are `unsigned`. -/
structure RandSpec where
  randIter : Nat
  randPct : Nat
  randRes : Nat

/-- They are options of `init`, where they are `int`, and are not checked. -/
def init (iter pct res : Int32) : RandSpec where
  randIter := (iter.toInt % 2 ^ 32).toNat
  randPct := (pct.toInt % 2 ^ 32).toNat
  randRes := (res.toInt % 2 ^ 32).toNat

/-- The value of an `int` expression. -/
def int (x : Int) : Option Int := if -2 ^ 31 ≤ x ∧ x < 2 ^ 31 then some x else none

/-- `b - a + 1`. -/
def rangeSize (a b : Int) : Option Int := do int ((← int (b - a)) + 1)

/-- `t`. -/
def unsignedSize (a b : Int) : Option Nat := (rangeSize a b).map fun n => (n % 2 ^ 32).toNat

/-- The random numbers of a call, one after another. -/
abbrev Draws := Nat → Fin sbMaxRnd

/-- The sum of the draws, each in a range of `t`, in an `int`. -/
def sumDraws (iter t : Nat) (draws : Draws) : Int :=
  (List.range iter).foldl (fun sum i => wrap32 (sum + (draws i % t : Nat))) 0

/-- The loop of both functions, and what they return of it: `a + sum / rand_iter`, which is
unsigned. -/
def meanOfDraws (iter t : Nat) (a : Int) (draws : Draws) : Option Int :=
  if iter = 0 ∨ t = 0 then none
  else some (wrap32 (a + ((sumDraws iter t draws % 2 ^ 32).toNat / iter : Nat)))

def sbRandUniform (a b : Int) (draws : Draws) : Option Int := do
  let n ← rangeSize a b
  if n = 0 then none else some (wrap32 (a + (draws 0 : Int).tmod n))

section

variable (spec : RandSpec)

def sbRandGaussian (a b : Int) (draws : Draws) : Option Int := do
  let t ← unsignedSize a b
  meanOfDraws spec.randIter t a draws

/-- The part of the values near the center: `res` there, of a draw outside the range. -/
def centered (t res : Nat) : Nat :=
  let part := t * spec.randPct % 2 ^ 32
  let d := max 1 (part / 100)
  (res % d + (t / 2 + 2 ^ 32 - part / (100 * 2)) % 2 ^ 32) % 2 ^ 32

/-- `range_size`, unless the divisor is zero. -/
def specialSize (t : Nat) : Option Nat :=
  let divisor := (100 + 2 ^ 32 - spec.randRes % 2 ^ 32) % 2 ^ 32
  if divisor = 0 then none else some (t * (100 / divisor) % 2 ^ 32)

def sbRandSpecial (a b : Int) (draws : Draws) : Option Int :=
  if b ≤ a then some 0
  else do
    let t ← unsignedSize a b
    let size ← specialSize spec t
    if size = 0 then none
    else
      let res := draws 0 % size
      if res < t then meanOfDraws spec.randIter t a fun i => draws (i + 1)
      else some (wrap32 (a + centered spec t res))

/-! ## What they should return -/

/-- The options are what they are meant to be. -/
structure Sane : Prop where
  randIter : 1 ≤ spec.randIter
  randPct : spec.randPct ≤ 100
  randRes : spec.randRes ≤ 100

/-- **Both return a number of the range**, whatever they draw. -/
structure InRange (a b : Int) : Prop where
  gaussian : ∀ draws, ∃ v, sbRandGaussian spec a b draws = some v ∧ a ≤ v ∧ v ≤ b
  special : ∀ draws, ∃ v, sbRandSpecial spec a b draws = some v ∧ a ≤ v ∧ v ≤ b

/-- **When they do**: the size of the range is an `int`; if it is 1, the number is zero, which is
returned for it; otherwise not all values are special, and the enlarged range is not a multiple
of `2 ^ 32`. -/
structure Fits (a b : Int) : Prop where
  size : b - a + 1 < 2 ^ 31
  single : a = b → a = 0
  special : a < b → spec.randRes ≠ 100 ∧ ¬ 2 ^ 32 ∣ (b - a + 1) * (100 / (100 - spec.randRes) : Nat)

end

/-- What is given on the command line is what the functions see. -/
theorem init_sane {iter pct res : Int32} (hiter : 1 ≤ iter.toInt)
    (hpct : 0 ≤ pct.toInt ∧ pct.toInt ≤ 100) (hres : 0 ≤ res.toInt ∧ res.toInt ≤ 100) :
    Sane (init iter pct res) := by
  have hlt := iter.toInt_lt
  refine ⟨?_, ?_, ?_⟩
  · show 1 ≤ (iter.toInt % 2 ^ 32).toNat
    omega
  · show (pct.toInt % 2 ^ 32).toNat ≤ 100
    omega
  · show (res.toInt % 2 ^ 32).toNat ≤ 100
    omega

/-! ## The mean -/

section

variable {spec : RandSpec} {a b : Int} {iter t : Nat} {draws : Draws}

/-- The sum is that of the draws, up to turns, and so not more. -/
theorem sumDraws_emod (iter : Nat) (ht : 0 < t) (draws : Draws) :
    ∃ total : Nat, total ≤ iter * (t - 1) ∧ sumDraws iter t draws % 2 ^ 32 = total % 2 ^ 32 := by
  induction iter with
  | zero => exact ⟨0, le_of_eq (Nat.zero_mul _).symm, rfl⟩
  | succ iter ih =>
    obtain ⟨total, hle, heq⟩ := ih
    have hdraw : draws iter % t ≤ t - 1 := Nat.le_pred_of_lt (Nat.mod_lt _ ht)
    refine ⟨total + draws iter % t, ?_, ?_⟩
    · rw [Nat.succ_mul]
      exact Nat.add_le_add hle hdraw
    · have hstep : sumDraws (iter + 1) t draws =
          wrap32 (sumDraws iter t draws + (draws iter % t : Nat)) := by
        rw [sumDraws, List.range_succ, List.foldl_append]
        rfl
      have hwrap : ∀ x : Int, wrap32 x % 2 ^ 32 = x % 2 ^ 32 := fun x => Int.bmod_emod
      rw [hstep, hwrap]
      omega

/-- **The mean of the draws is in the range**, also when their sum has wrapped around. -/
theorem meanOfDraws_mem (hiter : 1 ≤ iter) (ha : -2 ^ 31 ≤ a) (ht : 0 < t)
    (hb : a + t ≤ 2 ^ 31) (draws : Draws) :
    ∃ v, meanOfDraws iter t a draws = some v ∧ a ≤ v ∧ v ≤ a + t - 1 := by
  obtain ⟨total, hle, heq⟩ := sumDraws_emod iter ht draws
  have hsum : (sumDraws iter t draws % 2 ^ 32).toNat ≤ iter * (t - 1) := by omega
  have hmean : (sumDraws iter t draws % 2 ^ 32).toNat / iter ≤ t - 1 :=
    Nat.div_le_of_le_mul hsum
  refine ⟨_, if_neg (by omega), ?_⟩
  generalize (sumDraws iter t draws % 2 ^ 32).toNat / iter = mean at hmean ⊢
  have hwrap : wrap32 (a + mean) = a + mean := wrap_eq_self (by omega) (by omega)
  rw [hwrap]
  omega

/-! ## The size of the range -/

theorem int_eq_some {x : Int} (h : -2 ^ 31 ≤ x) (h' : x < 2 ^ 31) : int x = some x := if_pos ⟨h, h'⟩

theorem int_eq_none {x : Int} (h : 2 ^ 31 ≤ x) : int x = none :=
  if_neg fun hx => absurd hx.2 (not_lt.mpr h)

theorem unsignedSize_eq_some (hab : a ≤ b) (hsize : b - a + 1 < 2 ^ 31) :
    unsignedSize a b = some (b - a + 1).toNat := by
  have hrange : rangeSize a b = some (b - a + 1) := by
    rw [rangeSize, int_eq_some (by omega) (by omega)]
    exact int_eq_some (by omega) hsize
  have hmod : (b - a + 1) % 2 ^ 32 = b - a + 1 := Int.emod_eq_of_lt (by omega) (by omega)
  rw [unsignedSize, hrange, Option.map_some, hmod]

theorem unsignedSize_eq_none (hsize : 2 ^ 31 ≤ b - a + 1) : unsignedSize a b = none := by
  have hrange : rangeSize a b = none := by
    by_cases hlt : b - a < 2 ^ 31
    · rw [rangeSize, int_eq_some (by omega) hlt]
      exact int_eq_none hsize
    · rw [rangeSize, int_eq_none (not_lt.mp hlt)]
      rfl
  rw [unsignedSize, hrange, Option.map_none]

/-- The enlarged range. -/
theorem specialSize_eq (hres : spec.randRes < 100) :
    specialSize spec t = some (t * (100 / (100 - spec.randRes)) % 2 ^ 32) := by
  have hdivisor : (100 + 2 ^ 32 - spec.randRes % 2 ^ 32) % 2 ^ 32 = 100 - spec.randRes := by omega
  rw [specialSize, hdivisor, if_neg (by omega)]

/-- All values are special: the divisor is zero. -/
theorem specialSize_eq_none (hres : spec.randRes = 100) : specialSize spec t = none := by
  rw [specialSize, hres]
  rfl

/-! ## The center -/

/-- **What is near the center is in the range**, also when its part has wrapped around. -/
theorem centered_lt (hpct : spec.randPct ≤ 100) (ht : 0 < t) (ht' : t < 2 ^ 31) (res : Nat) :
    centered spec t res < t := by
  have hpart : t * spec.randPct % 2 ^ 32 ≤ t * 100 :=
    (Nat.mod_le _ _).trans (Nat.mul_le_mul_left t hpct)
  have hx : t * spec.randPct % 2 ^ 32 / 100 ≤ t := by omega
  have hhalf : t * spec.randPct % 2 ^ 32 / (100 * 2) = t * spec.randPct % 2 ^ 32 / 100 / 2 :=
    (Nat.div_div_eq_div_mul _ _ _).symm
  have hd : res % max 1 (t * spec.randPct % 2 ^ 32 / 100) <
      max 1 (t * spec.randPct % 2 ^ 32 / 100) := Nat.mod_lt _ (by omega)
  unfold centered
  dsimp only
  rw [hhalf]
  omega

/-! ## The distributions -/

/-- The uniform one needs no more than a size. -/
theorem sbRandUniform_mem (ha : -2 ^ 31 ≤ a) (hab : a ≤ b) (hb : b < 2 ^ 31)
    (hsize : b - a + 1 < 2 ^ 31) (draws : Draws) :
    ∃ v, sbRandUniform a b draws = some v ∧ a ≤ v ∧ v ≤ b := by
  have hrange : rangeSize a b = some (b - a + 1) := by
    rw [rangeSize, int_eq_some (by omega) (by omega)]
    exact int_eq_some (by omega) hsize
  have hnonneg : 0 ≤ (draws 0 : Int).tmod (b - a + 1) := Int.tmod_nonneg _ (Int.natCast_nonneg _)
  have hlt : (draws 0 : Int).tmod (b - a + 1) < b - a + 1 := Int.tmod_lt_of_pos _ (by omega)
  have hwrap : wrap32 (a + (draws 0 : Int).tmod (b - a + 1)) =
      a + (draws 0 : Int).tmod (b - a + 1) := wrap_eq_self (by omega) (by omega)
  have hvalue : sbRandUniform a b draws = some (a + (draws 0 : Int).tmod (b - a + 1)) := by
    rw [sbRandUniform, hrange, ← hwrap]
    exact if_neg (by omega)
  exact ⟨_, hvalue, by omega, by omega⟩

theorem sbRandGaussian_mem (hsane : Sane spec) (ha : -2 ^ 31 ≤ a) (hab : a ≤ b) (hb : b < 2 ^ 31)
    (hsize : b - a + 1 < 2 ^ 31) (draws : Draws) :
    ∃ v, sbRandGaussian spec a b draws = some v ∧ a ≤ v ∧ v ≤ b := by
  obtain ⟨v, hv, hle, hge⟩ := meanOfDraws_mem hsane.randIter ha (t := (b - a + 1).toNat)
    (by omega) (by omega) draws
  refine ⟨v, ?_, hle, by omega⟩
  rw [sbRandGaussian, unsignedSize_eq_some hab hsize]
  exact hv

theorem sbRandSpecial_mem (hsane : Sane spec) (ha : -2 ^ 31 ≤ a) (hab : a < b) (hb : b < 2 ^ 31)
    (hsize : b - a + 1 < 2 ^ 31) (hres : spec.randRes ≠ 100)
    (hdvd : ¬ 2 ^ 32 ∣ (b - a + 1) * (100 / (100 - spec.randRes) : Nat)) (draws : Draws) :
    ∃ v, sbRandSpecial spec a b draws = some v ∧ a ≤ v ∧ v ≤ b := by
  have hlt : spec.randRes < 100 := lt_of_le_of_ne hsane.randRes hres
  have hsome := unsignedSize_eq_some hab.le hsize
  obtain ⟨t, ht⟩ : ∃ t : Nat, b - a + 1 = t := Int.eq_ofNat_of_zero_le (by omega)
  rw [ht] at hdvd hsome
  rw [Int.toNat_natCast] at hsome
  have hsize₀ : t * (100 / (100 - spec.randRes)) % 2 ^ 32 ≠ 0 := by
    intro hzero
    refine hdvd ?_
    exact_mod_cast Nat.dvd_of_mod_eq_zero hzero
  rw [sbRandSpecial, if_neg (not_le.mpr hab), hsome, Option.bind_eq_bind, Option.bind_some,
    specialSize_eq hlt, Option.bind_some, if_neg hsize₀]
  dsimp only
  split
  · -- inside the range
    obtain ⟨v, hv, hle, hge⟩ := meanOfDraws_mem hsane.randIter ha (t := t) (by omega) (by omega)
      fun i => draws (i + 1)
    exact ⟨v, hv, hle, by omega⟩
  · have hcenter := centered_lt hsane.randPct (t := t) (by omega) (by omega)
      (draws 0 % (t * (100 / (100 - spec.randRes)) % 2 ^ 32))
    generalize centered spec t (draws 0 % (t * (100 / (100 - spec.randRes)) % 2 ^ 32)) = value
      at hcenter ⊢
    have hwrap : wrap32 (a + value) = a + value := wrap_eq_self (by omega) (by omega)
    refine ⟨_, rfl, ?_⟩
    rw [hwrap]
    omega

/-- **The special one divides by zero**, if all values are special or the enlarged range wraps
around to zero. -/
theorem sbRandSpecial_eq_none (hsane : Sane spec) (hab : a < b) (hsize : b - a + 1 < 2 ^ 31)
    (hbad : spec.randRes = 100 ∨ 2 ^ 32 ∣ (b - a + 1) * (100 / (100 - spec.randRes) : Nat))
    (draws : Draws) : sbRandSpecial spec a b draws = none := by
  rw [sbRandSpecial, if_neg (not_le.mpr hab), unsignedSize_eq_some hab.le hsize,
    Option.bind_eq_bind, Option.bind_some]
  by_cases hres : spec.randRes = 100
  · rw [specialSize_eq_none hres]
    rfl
  · have hdvd := hbad.resolve_left hres
    have hcast : (((b - a + 1).toNat : Nat) : Int) = b - a + 1 := Int.toNat_of_nonneg (by omega)
    have hzero : (b - a + 1).toNat * (100 / (100 - spec.randRes)) % 2 ^ 32 = 0 := by
      refine Nat.mod_eq_zero_of_dvd ?_
      rw [← hcast] at hdvd
      exact_mod_cast hdvd
    rw [specialSize_eq (lt_of_le_of_ne hsane.randRes hres), Option.bind_some, if_pos hzero]

/-- **The two distributions stay in range** exactly when their sizes fit. What goes wrong does
not depend on the draws. -/
theorem inRange_iff (hsane : Sane spec) (ha : -2 ^ 31 ≤ a) (hab : a ≤ b) (hb : b < 2 ^ 31) :
    InRange spec a b ↔ Fits spec a b := by
  constructor
  · intro h
    have hdraw : Draws := fun _ => ⟨0, FileIo.sbMaxRnd_pos⟩
    obtain ⟨v, hv, hle, hge⟩ := h.special hdraw
    have hsize : b - a + 1 < 2 ^ 31 := by
      by_contra hlarge
      obtain ⟨w, hw, -⟩ := h.gaussian hdraw
      rw [sbRandGaussian, unsignedSize_eq_none (not_lt.mp hlarge)] at hw
      cases hw
    refine ⟨hsize, fun heq => ?_, fun hlt => ?_⟩
    · rw [sbRandSpecial, if_pos heq.ge] at hv
      cases hv
      omega
    · by_contra hbad
      rw [sbRandSpecial_eq_none hsane hlt hsize (by tauto)] at hv
      cases hv
  · intro h
    refine ⟨sbRandGaussian_mem hsane ha hab hb h.size, fun draws => ?_⟩
    rcases hab.eq_or_lt with heq | hlt
    · have hzero := h.single heq
      refine ⟨0, ?_, by omega, by omega⟩
      rw [sbRandSpecial, if_pos heq.ge]
    · obtain ⟨hres, hdvd⟩ := h.special hlt
      exact sbRandSpecial_mem hsane ha hlt hb h.size hres hdvd draws

end

/-- The default options, and a table of a hundred rows. -/
theorem inRange_hundred : InRange (init 12 1 75) 1 100 := by
  refine (inRange_iff ⟨?_, ?_, ?_⟩ ?_ ?_ ?_).mpr ⟨?_, ?_, ?_⟩ <;> decide

/-- **A table of `2 ^ 30` rows** is too large for the default options: four times as many are
none. Of a range of one number the special distribution returns zero. -/
theorem special_out_of_range :
    (∀ draws, sbRandSpecial (init 12 1 75) 1 (2 ^ 30) draws = none) ∧
      (∀ draws, sbRandSpecial (init 12 1 75) 5 5 draws = some 0) ∧
      ¬ InRange (init 12 1 75) 1 (2 ^ 30) ∧ ¬ InRange (init 12 1 75) 5 5 := by
  have hlarge : ∀ draws, sbRandSpecial (init 12 1 75) 1 (2 ^ 30) draws = none :=
    sbRandSpecial_eq_none ⟨by decide, by decide, by decide⟩ (by decide) (by decide)
      (.inr (by decide))
  have hsingle : ∀ draws, sbRandSpecial (init 12 1 75) 5 5 draws = some 0 := fun draws => rfl
  refine ⟨hlarge, hsingle, fun h => ?_, fun h => ?_⟩
  · obtain ⟨v, hv, -⟩ := h.special fun _ => ⟨0, FileIo.sbMaxRnd_pos⟩
    rw [hlarge] at hv
    cases hv
  · obtain ⟨v, hv, hle, -⟩ := h.special fun _ => ⟨0, FileIo.sbMaxRnd_pos⟩
    rw [hsingle] at hv
    cases hv
    exact absurd hle (by decide)

end TokuQa.Sysbench.RandDist
