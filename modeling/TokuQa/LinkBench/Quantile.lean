import Mathlib.Order.Bounds.Basic
import TokuQa.Lib.JavaDouble
import TokuQa.LinkBench.UniformDistribution

/-!
# `cdf` and `quantile` of `UniformDistribution.java` and `GeometricDistribution.java`

`cdf(id)` is the probability of the ids up to `id`, so the quantile of `p` is the first id at which
it is `p`. For both distributions the number of ids it takes is what the code computes, by a
logarithm in one class and a product in the other. `GeometricDistribution` adds it to `min`, which
is one id too many. `UniformDistribution` rounds it down, which is the same as rounding up and one
less, but where there is nothing to round.

The arithmetic of `double` is exact. That of `long` is not: the number of ids of a range can be too
large for it, and `cdf` is negative then.
-/

set_option autoImplicit false

namespace TokuQa.LinkBench

open TokuQa.Lib

/-- The least id of the range at which the distribution function has reached `p`; the last one, if
none before it does. -/
def IsQuantile (cdf : Int → ℝ) (min max : Int) (p : ℝ) (id : Int) : Prop :=
  IsLeast {id | min ≤ id ∧ id < max ∧ (p ≤ cdf id ∨ id = max - 1)} id

theorem isQuantile_iff {cdf : Int → ℝ} {min max : Int} {p : ℝ} {id first : Int} (hmin : min ≤ first)
    (hmax : first < max) (hfirst : p ≤ cdf first ∨ first = max - 1)
    (hbefore : ∀ id, min ≤ id → id < first → ¬ p ≤ cdf id) :
    IsQuantile cdf min max p id ↔ id = first := by
  have hleast : IsLeast {id | min ≤ id ∧ id < max ∧ (p ≤ cdf id ∨ id = max - 1)} first := by
    refine ⟨⟨hmin, hmax, hfirst⟩, ?_⟩
    rintro id' ⟨hid, -, hreach | rfl⟩
    · exact not_lt.mp fun hlt => hbefore id' hid hlt hreach
    · omega
  exact ⟨fun hid => hid.unique hleast, fun hid => hid ▸ hleast⟩

/-! ## `UniformDistribution` -/

namespace UniformDistribution

noncomputable def cdf (d : UniformDistribution) (id : Int) : ℝ :=
  if id ≥ d.max then 1
  else if id < d.min then 0
  else
    let n := wrap64 (d.max - d.min)
    let rank := wrap64 (id - d.min + 1)
    rank / n

noncomputable def quantile (d : UniformDistribution) (p : ℝ) : Except Exn Int :=
  if ¬ (p ≥ 0 ∧ p ≤ 1) then .error .assertionError
  else
    let n := wrap64 (d.max - d.min)
    let i := (JavaDouble.fin (⌊p * n⌋ : Int)).toLong
    if i = n then .ok (d.max - 1) else .ok (wrap64 (i + d.min))

def Inverts (d : UniformDistribution) (p : ℝ) : Prop :=
  ∃ id, d.quantile p = .ok id ∧ IsQuantile d.cdf d.min d.max p id

variable {d : UniformDistribution} {p : ℝ}

theorem inverts_iff_eq {id first : Int} (h : d.quantile p = .ok id) (hmin : d.min ≤ first)
    (hmax : first < d.max)
    (hcdf : ∀ id, d.min ≤ id → id < d.max → (p ≤ d.cdf id ∨ id = d.max - 1 ↔ first ≤ id)) :
    d.Inverts p ↔ id = first := by
  have hbefore : ∀ id, d.min ≤ id → id < first → ¬ p ≤ d.cdf id := fun id hid hlt hreach =>
    hlt.not_ge ((hcdf id hid (hlt.trans hmax)).mp (.inl hreach))
  rw [← isQuantile_iff hmin hmax ((hcdf first hmin hmax).mpr le_rfl) hbefore, Inverts, h]
  constructor
  · rintro ⟨id', hid, hquant⟩
    rwa [Except.ok.inj hid]
  · intro hquant
    exact ⟨id, rfl, hquant⟩

/-- What `quantile` makes of the number of ids as it is computed. -/
theorem quantile_eq {n : Int} (hn : wrap64 (d.max - d.min) = n) (hp : 0 ≤ p) (hp' : p ≤ 1)
    (hlow : -2 ^ 63 ≤ ⌊p * n⌋) (hhigh : ⌊p * n⌋ < 2 ^ 63) :
    d.quantile p = .ok (if ⌊p * n⌋ = n then d.max - 1 else wrap64 (⌊p * n⌋ + d.min)) := by
  unfold quantile
  dsimp only
  rw [if_neg (not_not.mpr ⟨hp, hp'⟩), hn, JavaDouble.toLong_int hlow hhigh]
  split <;> rfl

/-- In a range that a `long` counts, `quantile` inverts `cdf` where it rounds, and at both ends. -/
theorem inverts_iff_of_counted (hmin : -2 ^ 63 ≤ d.min) (hmax : d.max < 2 ^ 63) (hlt : d.min < d.max)
    (hlen : d.max - d.min < 2 ^ 63) (hp : 0 ≤ p) (hp' : p ≤ 1) :
    d.Inverts p ↔ p = 0 ∨ p = 1 ∨ ∀ k : Int, p * (d.max - d.min : Int) ≠ k := by
  have hn : wrap64 (d.max - d.min) = d.max - d.min := wrap_eq_self (by omega) hlen
  have hnpos : (0 : ℝ) < (d.max - d.min : Int) := by exact_mod_cast (by omega : 0 < d.max - d.min)
  have hx : 0 ≤ p * (d.max - d.min : Int) := mul_nonneg hp hnpos.le
  have hxn : p * (d.max - d.min : Int) ≤ (d.max - d.min : Int) := mul_le_of_le_one_left hnpos.le hp'
  have hceil : ⌈p * (d.max - d.min : Int)⌉ ≤ d.max - d.min := Int.ceil_le.mpr hxn
  have hfloor : 0 ≤ ⌊p * (d.max - d.min : Int)⌋ := Int.floor_nonneg.mpr hx
  have hfloor' : ⌊p * (d.max - d.min : Int)⌋ ≤ d.max - d.min := by
    exact_mod_cast (Int.floor_le _).trans hxn
  have hcdf : ∀ id, d.min ≤ id → id < d.max → (p ≤ d.cdf id ∨ id = d.max - 1 ↔
      d.min + (Max.max 1 ⌈p * (d.max - d.min : Int)⌉ - 1) ≤ id) := by
    intro id hid hid'
    have hrank : wrap64 (id - d.min + 1) = id - d.min + 1 := wrap_eq_self (by omega) (by omega)
    have hreach : p ≤ d.cdf id ↔ ⌈p * (d.max - d.min : Int)⌉ ≤ id - d.min + 1 := by
      rw [Int.ceil_le, ← le_div_iff₀ hnpos, cdf, if_neg (by omega), if_neg (by omega), hn, hrank]
    rw [hreach]
    omega
  have hquantile : d.quantile p = .ok (if ⌊p * (d.max - d.min : Int)⌋ = d.max - d.min then d.max - 1
      else ⌊p * (d.max - d.min : Int)⌋ + d.min) := by
    rw [quantile_eq hn hp hp' (by omega) (by omega)]
    split
    · rfl
    · rw [show wrap64 _ = _ from wrap_eq_self (by omega) (by omega)]
  rw [inverts_iff_eq hquantile (by omega) (by omega) hcdf]
  by_cases hint : ∃ k : Int, p * (d.max - d.min : Int) = k
  · -- a boundary between two ids
    obtain ⟨k, hk⟩ := hint
    have hzero : p = 0 ↔ k = 0 := by
      rw [← Int.cast_inj (α := ℝ), ← hk, Int.cast_zero, mul_eq_zero]
      exact (or_iff_left hnpos.ne').symm
    have hone : p = 1 ↔ k = d.max - d.min := by
      rw [← Int.cast_inj (α := ℝ), ← hk, mul_eq_right₀ hnpos.ne']
    have hno : ¬ ∀ k' : Int, p * (d.max - d.min : Int) ≠ k' := fun h => h k hk
    rw [hzero, hone, or_iff_left hno]
    rw [hk] at hceil hfloor hfloor' ⊢
    rw [Int.floor_intCast, Int.ceil_intCast] at *
    split <;> omega
  · have hceileq : ⌈p * (d.max - d.min : Int)⌉ = ⌊p * (d.max - d.min : Int)⌋ + 1 :=
      Int.ceil_eq_floor_add_one_iff_notMem _ |>.mpr fun ⟨k, hk⟩ => hint ⟨k, hk.symm⟩
    refine iff_of_true ?_ (.inr (.inr fun k hk => hint ⟨k, hk⟩))
    split <;> omega

/-- In a longer range the number of ids is negative, and an id has reached `p` when its rank is
negative too. -/
theorem le_cdf_of_wrapped {n : Int} (hn : wrap64 (d.max - d.min) = n) (hneg : n < 0)
    (hlen : n = d.max - d.min - 2 * 2 ^ 63) (hp : 0 ≤ p) (hp' : p ≤ 1) {id : Int}
    (hid : d.min ≤ id) (hid' : id < d.max) : p ≤ d.cdf id ↔ 2 ^ 63 ≤ id - d.min + 1 := by
  have hneg' : (n : ℝ) < 0 := by exact_mod_cast hneg
  rw [cdf, if_neg (by omega), if_neg (by omega), hn]
  dsimp only
  rcases lt_or_ge (id - d.min + 1) (2 ^ 63) with hrank | hrank
  · have hpos : (0 : ℝ) < (id - d.min + 1 : Int) := by
      exact_mod_cast (by omega : 0 < id - d.min + 1)
    rw [show wrap64 _ = _ from wrap_eq_self (by omega) hrank]
    exact iff_of_false (not_le.mpr ((div_neg_of_pos_of_neg hpos hneg').trans_le hp)) hrank.not_ge
  · rw [show wrap64 (id - d.min + 1) = _ from wrap_of_overflow hrank (by omega)]
    refine iff_of_true (hp'.trans ((one_le_div_of_neg hneg').mpr ?_)) hrank
    exact_mod_cast (by omega : id - d.min + 1 - 2 * 2 ^ 63 ≤ n)

/-- The first id whose rank is negative has reached everything. -/
theorem inverts_iff_of_wrapped (hmin : -2 ^ 63 ≤ d.min) (hmax : d.max < 2 ^ 63)
    (hlen : 2 ^ 63 ≤ d.max - d.min) (hp : 0 ≤ p) (hp' : p ≤ 1) :
    d.Inverts p ↔ d.max - d.min = 2 ^ 63 ∧ 1 - 1 / 2 ^ 63 < p := by
  have hn : wrap64 (d.max - d.min) = d.max - d.min - 2 * 2 ^ 63 :=
    wrap_of_overflow hlen (by omega)
  have hneg : ((d.max - d.min - 2 * 2 ^ 63 : Int) : ℝ) < 0 := by
    exact_mod_cast (by omega : d.max - d.min - 2 * 2 ^ 63 < 0)
  have hx : p * (d.max - d.min - 2 * 2 ^ 63 : Int) ≤ 0 := mul_nonpos_of_nonneg_of_nonpos hp hneg.le
  have hxn : ((d.max - d.min - 2 * 2 ^ 63 : Int) : ℝ) ≤ p * (d.max - d.min - 2 * 2 ^ 63 : Int) :=
    le_mul_of_le_one_left hneg.le hp'
  have hfloor : ⌊p * (d.max - d.min - 2 * 2 ^ 63 : Int)⌋ ≤ 0 := by
    exact_mod_cast (Int.floor_le _).trans hx
  have hfloor' : d.max - d.min - 2 * 2 ^ 63 ≤ ⌊p * (d.max - d.min - 2 * 2 ^ 63 : Int)⌋ :=
    Int.le_floor.mpr hxn
  have hcdf : ∀ id, d.min ≤ id → id < d.max →
      (p ≤ d.cdf id ∨ id = d.max - 1 ↔ d.min + (2 ^ 63 - 1) ≤ id) := by
    intro id hid hid'
    rw [le_cdf_of_wrapped hn (by omega) rfl hp hp' hid hid']
    omega
  have hquantile := quantile_eq hn hp hp' (by omega) (by omega)
  have hall : d.max - d.min = 2 ^ 63 → (⌊p * (d.max - d.min - 2 * 2 ^ 63 : Int)⌋ =
      d.max - d.min - 2 * 2 ^ 63 ↔ 1 - 1 / 2 ^ 63 < p) := by
    intro hlen
    have hlast : ((d.max - d.min - 2 * 2 ^ 63 : Int) : ℝ) = -2 ^ 63 := by
      rw [hlen]
      norm_num
    rw [Int.floor_eq_iff, and_iff_right hxn, hlast]
    constructor <;> intro h <;> linarith
  rw [inverts_iff_eq hquantile (by omega) (by omega) hcdf]
  constructor
  · intro heq
    split at heq
    · rename_i hfirst
      have hlen : d.max - d.min = 2 ^ 63 := by omega
      exact ⟨hlen, (hall hlen).mp hfirst⟩
    · -- the ids that are reached and the one that is computed are less than a turn apart
      have hself : wrap64 (d.min + (2 ^ 63 - 1)) = d.min + (2 ^ 63 - 1) :=
        wrap_eq_self (by omega) (by omega)
      have hsame := wrap_injective (heq.trans hself.symm) (by omega)
      omega
  · rintro ⟨hlen, hp⟩
    rw [if_pos ((hall hlen).mpr hp)]
    omega

theorem inverts_iff (hmin : -2 ^ 63 ≤ d.min) (hmax : d.max < 2 ^ 63) (hlt : d.min < d.max)
    (hp : 0 ≤ p) (hp' : p ≤ 1) :
    d.Inverts p ↔
      d.max - d.min < 2 ^ 63 ∧ (p = 0 ∨ p = 1 ∨ ∀ k : Int, p * (d.max - d.min : Int) ≠ k) ∨
        d.max - d.min = 2 ^ 63 ∧ 1 - 1 / 2 ^ 63 < p := by
  rcases lt_or_ge (d.max - d.min) (2 ^ 63) with hlen | hlen
  · rw [and_iff_right hlen, or_iff_left fun h => hlen.ne h.1]
    exact inverts_iff_of_counted hmin hmax hlt hlen hp hp'
  · rw [or_iff_right fun h => hlen.not_gt h.1]
    exact inverts_iff_of_wrapped hmin hmax hlen hp hp'

end UniformDistribution

/-! ## `GeometricDistribution` -/

structure GeometricDistribution where
  p : ℝ
  min : Int
  max : Int

namespace GeometricDistribution

noncomputable def cdf (d : GeometricDistribution) (id : Int) : ℝ :=
  if id < d.min then 0
  else if id ≥ d.max then 1
  else 1 - (1 - d.p) ^ wrap64 (id - d.min + 1)

/-- "0.0 must be handled specially", and what is past the range is truncated. -/
noncomputable def quantile (d : GeometricDistribution) (r : ℝ) : Int :=
  if r = 0 then d.min
  else
    let x := wrap64 (d.min +
      ((JavaDouble.fin (1 - r)).log.div (JavaDouble.fin (1 - d.p)).log).ceil.toLong)
    Min.min x (d.max - 1)

def Inverts (d : GeometricDistribution) (r : ℝ) : Prop :=
  IsQuantile d.cdf d.min d.max r (d.quantile r)

section

variable {d : GeometricDistribution} {r : ℝ}

/-- The number of ids that takes the distribution function to `r`. -/
noncomputable def trials (d : GeometricDistribution) (r : ℝ) : Int :=
  ⌈Real.log (1 - r) / Real.log (1 - d.p)⌉

theorem trials_le_iff (hp : 0 < d.p) (hp' : d.p < 1) (hr : r < 1) (m : Int) :
    d.trials r ≤ m ↔ (1 - d.p) ^ m ≤ 1 - r := by
  have hlog : Real.log (1 - d.p) < 0 := Real.log_neg (by linarith) (by linarith)
  rw [trials, Int.ceil_le, div_le_iff_of_neg hlog, ← Real.log_zpow,
    Real.log_le_log_iff (zpow_pos (by linarith) m) (by linarith)]

theorem trials_pos (hp : 0 < d.p) (hp' : d.p < 1) (hr : 0 < r) (hr' : r < 1) : 0 < d.trials r := by
  have hnot : ¬ d.trials r ≤ 0 := by
    rw [trials_le_iff hp hp' hr', zpow_zero]
    linarith
  omega

theorem quantile_eq (hp : 0 < d.p) (hp' : d.p < 1) (hr : 0 < r) (hr' : r < 1) :
    d.quantile r = Min.min (wrap64 (d.min + Min.min (d.trials r) (2 ^ 63 - 1))) (d.max - 1) := by
  have hlog : Real.log (1 - d.p) < 0 := Real.log_neg (by linarith) (by linarith)
  have hpos := trials_pos hp hp' hr hr'
  unfold quantile
  dsimp only
  rw [if_neg hr.ne', JavaDouble.log_fin (by linarith), JavaDouble.log_fin (by linarith),
    JavaDouble.div_fin hlog.ne, JavaDouble.ceil, ← trials, JavaDouble.toLong_whole hpos.le]

/-- The quantile is one id before that many of them, if a `long` counts them. -/
theorem isQuantile_iff_trials (hp : 0 < d.p) (hp' : d.p < 1) (hmin : -2 ^ 63 ≤ d.min)
    (hmax : d.max < 2 ^ 63) (hlt : d.min < d.max) (hr : 0 < r) (hr' : r < 1) {id : Int} :
    IsQuantile d.cdf d.min d.max r id ↔ id =
      if d.trials r < 2 ^ 63 then Min.min (d.min + d.trials r - 1) (d.max - 1) else d.max - 1 := by
  have hpos := trials_pos hp hp' hr hr'
  have hcdf : ∀ id, d.min ≤ id → id < d.max →
      (r ≤ d.cdf id ↔ d.trials r ≤ id - d.min + 1 ∧ id - d.min + 1 < 2 ^ 63) := by
    intro id hid hid'
    rw [cdf, if_neg (by omega), if_neg (by omega), le_sub_comm, ← trials_le_iff hp hp' hr']
    rcases lt_or_ge (id - d.min + 1) (2 ^ 63) with hrank | hrank
    · rw [show wrap64 _ = _ from wrap_eq_self (by omega) hrank, and_iff_left hrank]
    · rw [show wrap64 _ = _ from wrap_of_overflow hrank (by omega)]
      omega
  refine isQuantile_iff (by split <;> omega) (by split <;> omega) ?_ fun id hid hlt => ?_
  · split
    · rw [hcdf _ (by omega) (by omega)]
      omega
    · exact .inr rfl
  · rw [hcdf id hid (by split at hlt <;> omega)]
    split at hlt <;> omega

/-- `quantile` inverts `cdf` at 0 and where it truncates, unless the sum overflows. -/
theorem inverts_iff (hp : 0 < d.p) (hp' : d.p < 1) (hmin : -2 ^ 63 ≤ d.min) (hmax : d.max < 2 ^ 63)
    (hlt : d.min < d.max) (hr : 0 ≤ r) (hr' : r < 1) :
    d.Inverts r ↔ r = 0 ∨ d.max - d.min ≤ 2 ^ 63 ∧ 1 - (1 - d.p) ^ (d.max - d.min - 1) < r ∧
      (d.min ≤ 0 ∨ (1 - d.p) ^ (2 ^ 63 - 1 - d.min) ≤ 1 - r) := by
  rcases hr.eq_or_lt with rfl | hpos
  · refine iff_of_true ?_ (.inl rfl)
    unfold Inverts quantile
    rw [if_pos rfl]
    have hfirst : 0 ≤ d.cdf d.min := by
      rw [cdf, if_neg (by omega), if_neg (by omega),
        sub_self, zero_add, show wrap64 1 = 1 from rfl, zpow_one]
      linarith
    exact ⟨⟨le_rfl, hlt, .inl hfirst⟩, fun id hid => hid.1⟩
  · have hK := trials_pos hp hp' hpos hr'
    have htrunc : 1 - (1 - d.p) ^ (d.max - d.min - 1) < r ↔ d.max - d.min ≤ d.trials r := by
      rw [sub_lt_comm, ← not_le, ← trials_le_iff hp hp' hr']
      omega
    unfold Inverts
    rw [or_iff_right hpos.ne', htrunc, ← trials_le_iff hp hp' hr',
      isQuantile_iff_trials hp hp' hmin hmax hlt hpos hr', quantile_eq hp hp' hpos hr']
    rcases lt_or_ge (d.min + Min.min (d.trials r) (2 ^ 63 - 1)) (2 ^ 63) with hsum | hsum
    · rw [show wrap64 _ = _ from wrap_eq_self (by omega) hsum]
      split <;> omega
    · rw [show wrap64 _ = _ from wrap_of_overflow hsum (by omega)]
      split <;> omega

end

end GeometricDistribution

/-! ## Both -/

/-- **`quantile` inverts `cdf`**: of a uniform distribution where it rounds and at both ends, of a
geometric one at 0 and where it truncates. -/
theorem quantile_inverts_iff {d : UniformDistribution} {p : ℝ} (hmin : -2 ^ 63 ≤ d.min)
    (hmax : d.max < 2 ^ 63) (hlt : d.min < d.max) (hp : 0 ≤ p) (hp' : p ≤ 1)
    {g : GeometricDistribution} {r : ℝ} (hpos : 0 < g.p) (hone : g.p < 1) (hgmin : -2 ^ 63 ≤ g.min)
    (hgmax : g.max < 2 ^ 63) (hglt : g.min < g.max) (hr : 0 ≤ r) (hr' : r < 1) :
    (d.Inverts p ↔
      d.max - d.min < 2 ^ 63 ∧ (p = 0 ∨ p = 1 ∨ ∀ k : Int, p * (d.max - d.min : Int) ≠ k) ∨
        d.max - d.min = 2 ^ 63 ∧ 1 - 1 / 2 ^ 63 < p) ∧
    (g.Inverts r ↔
      r = 0 ∨ g.max - g.min ≤ 2 ^ 63 ∧ 1 - (1 - g.p) ^ (g.max - g.min - 1) < r ∧
        (g.min ≤ 0 ∨ (1 - g.p) ^ (2 ^ 63 - 1 - g.min) ≤ 1 - r)) :=
  ⟨UniformDistribution.inverts_iff hmin hmax hlt hp hp',
    GeometricDistribution.inverts_iff hpos hone hgmin hgmax hglt hr hr'⟩

/-- Two ids, a third of the way; three ids, a truncated value. -/
theorem quantile_inverts_examples :
    UniformDistribution.Inverts ⟨0, 2⟩ (1 / 3) ∧
      GeometricDistribution.Inverts ⟨1 / 2, 0, 3⟩ (7 / 8) := by
  obtain ⟨huniform, hgeometric⟩ := quantile_inverts_iff (d := ⟨0, 2⟩) (p := 1 / 3) (by norm_num)
    (by norm_num) (by norm_num) (by norm_num) (by norm_num) (g := ⟨1 / 2, 0, 3⟩) (r := 7 / 8)
    (by norm_num) (by norm_num) (by norm_num) (by norm_num) (by norm_num) (by norm_num) (by norm_num)
  refine ⟨huniform.mpr (.inl ⟨by norm_num, .inr (.inr fun k hk => ?_)⟩),
    hgeometric.mpr (.inr ⟨by norm_num, by norm_num, .inl le_rfl⟩)⟩
  norm_num at hk
  have hthree : (2 : ℝ) = (k * 3 : Int) := by
    push_cast
    linarith
  have : (2 : Int) = k * 3 := by exact_mod_cast hthree
  omega

/-- Half of two ids is the first of them, and so is half of what succeeds every other time; the
second is computed for both. -/
theorem quantile_one_too_many :
    ¬ UniformDistribution.Inverts ⟨0, 2⟩ (1 / 2) ∧
      ¬ GeometricDistribution.Inverts ⟨1 / 2, 1, 10⟩ (1 / 2) := by
  constructor
  · rw [UniformDistribution.inverts_iff (by norm_num) (by norm_num) (by norm_num) (by norm_num)
      (by norm_num)]
    rintro (⟨-, hzero | hone | hint⟩ | ⟨hlen, -⟩)
    · norm_num at hzero
    · norm_num at hone
    · exact hint 1 (by norm_num)
    · norm_num at hlen
  · rw [GeometricDistribution.inverts_iff (by norm_num) (by norm_num) (by norm_num) (by norm_num)
      (by norm_num) (by norm_num) (by norm_num)]
    rintro (hzero | ⟨-, htrunc, -⟩)
    · norm_num at hzero
    · norm_num at htrunc

end TokuQa.LinkBench
