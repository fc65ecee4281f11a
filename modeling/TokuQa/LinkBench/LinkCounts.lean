import TokuQa.Lib.JavaDouble
import TokuQa.LinkBench.LinkDistributions

/-!
# `LinkDistributions.java`, how many links there can be

On a new object every mode adds a number of links to `nlinks_default`: none, the configured number,
or what the formula of the mode gives for the id. With exact `double`s the formulas are within the
id, the configured number and the length of the range. `RECIPROCAL` divides by the distance from the
first id, which is 0 for that id, and an infinite number is cast to the largest `long`
(`bounded_iff`).
-/

set_option autoImplicit false

namespace TokuQa.LinkBench.LinkDistributions

open TokuQa.Lib

/-- The `double` expressions, in exact arithmetic. -/
noncomputable def doubles : Doubles where
  ceilDiv := fun n off => ((JavaDouble.fin n).div (JavaDouble.fin off)).ceil.toLong
  ceilLog := fun id1 nlinksConfig =>
    ((JavaDouble.fin id1).log.div (JavaDouble.fin nlinksConfig).log).ceil.toLong
  ceilRoot := fun id1 nlinksConfig =>
    (JavaDouble.pow id1 ((JavaDouble.fin 1).div (JavaDouble.fin nlinksConfig))).ceil.toLong
  pow := fun a b => (JavaDouble.pow a (JavaDouble.fin b)).toLong

/-! ## The expressions -/

section

variable {a n off id1 nlinksConfig : Int}

theorem doubles_ceilDiv (hn : 0 ≤ n) (hn' : n < 2 ^ 63) (hoff : 1 ≤ off) :
    doubles.ceilDiv n off = ⌈(n : ℝ) / off⌉ ∧ 0 ≤ ⌈(n : ℝ) / off⌉ ∧ ⌈(n : ℝ) / off⌉ ≤ n := by
  have hoff' : (1 : ℝ) ≤ off := by exact_mod_cast hoff
  have hn0 : (0 : ℝ) ≤ n := by exact_mod_cast hn
  have hle : ⌈(n : ℝ) / off⌉ ≤ n := Int.ceil_le.mpr (div_le_self hn0 hoff')
  have hpos : 0 ≤ ⌈(n : ℝ) / off⌉ := Int.ceil_nonneg (div_nonneg hn0 (by linarith))
  refine ⟨?_, hpos, hle⟩
  simp only [doubles]
  rw [JavaDouble.div_fin (by linarith), JavaDouble.ceil, JavaDouble.toLong_int (by omega) (by omega)]

theorem doubles_pow (ha : 0 ≤ a) (k : Nat) : doubles.pow a k = min (a ^ k) (2 ^ 63 - 1) := by
  have ha' : (0 : ℝ) ≤ a := by exact_mod_cast ha
  have hpow : (a : ℝ) ^ (((k : Nat) : Int) : ℝ) = ((a ^ k : Int) : ℝ) := by
    rw [Int.cast_natCast, Real.rpow_natCast, Int.cast_pow]
  simp only [doubles]
  rw [JavaDouble.pow_fin ha' (by exact_mod_cast k.zero_le), hpow,
    JavaDouble.toLong_whole (pow_nonneg ha k)]

theorem doubles_pow_neg_one (ha : 2 ≤ a) : doubles.pow a (-1) = 0 := by
  have ha' : (2 : ℝ) ≤ a := by exact_mod_cast ha
  have hinv : (0 : ℝ) ≤ (a : ℝ)⁻¹ := by positivity
  have hfloor : ⌊(a : ℝ)⁻¹⌋ = 0 :=
    Int.floor_eq_zero_iff.mpr ⟨hinv, inv_lt_one_of_one_lt₀ (by linarith)⟩
  simp only [doubles]
  rw [JavaDouble.pow_fin_of_pos (by linarith), Int.cast_neg, Int.cast_one, Real.rpow_neg_one,
    JavaDouble.toLong, if_pos hinv, hfloor]
  omega

/-- The logarithm, rounded up. -/
theorem doubles_ceilLog (hid : 1 ≤ id1) (hid' : id1 < 2 ^ 63) (hconfig : 2 ≤ nlinksConfig) :
    doubles.ceilLog id1 nlinksConfig = Nat.clog nlinksConfig.toNat id1.toNat := by
  lift id1 to Nat using by omega
  lift nlinksConfig to Nat using by omega
  have hb : 1 < nlinksConfig := by omega
  have hc : (1 : ℝ) < nlinksConfig := by exact_mod_cast hb
  have hx : (0 : ℝ) < id1 := by exact_mod_cast hid
  have hceil : ⌈Real.log id1 / Real.log nlinksConfig⌉ = (Nat.clog nlinksConfig id1 : Nat) := by
    rw [Real.log_div_log, Real.ceil_logb_natCast hx.le, Int.clog_natCast]
  have hle : Nat.clog nlinksConfig id1 ≤ id1 := Nat.clog_le_of_le_pow (Nat.lt_pow_self hb).le
  simp only [doubles, Int.cast_natCast, Int.toNat_natCast]
  rw [JavaDouble.log_fin hx, JavaDouble.log_fin (by linarith),
    JavaDouble.div_fin (Real.log_pos hc).ne', JavaDouble.ceil, hceil,
    JavaDouble.toLong_int (by omega) (by omega)]

theorem clog_eq (hconfig : 2 ≤ nlinksConfig) {k : Nat} (h : id1 = nlinksConfig ^ k) :
    Nat.clog nlinksConfig.toNat id1.toNat = k := by
  lift nlinksConfig to Nat using by omega
  rw [h, ← Int.natCast_pow, Int.toNat_natCast, Int.toNat_natCast, Nat.clog_pow _ _ (by omega)]

/-- The power before a power, which is 0 before the first one. -/
theorem doubles_pow_pred (hconfig : 2 ≤ nlinksConfig) {k : Nat} (h : id1 = nlinksConfig ^ k)
    (hid : id1 < 2 ^ 63) :
    doubles.pow nlinksConfig (wrap64 ((k : Int) - 1)) = id1 / nlinksConfig := by
  cases k with
  | zero =>
    rw [show wrap64 _ = -1 from rfl, doubles_pow_neg_one hconfig, h, pow_zero,
      Int.ediv_eq_zero_of_lt (by decide) (by omega)]
  | succ k =>
    have hmul : id1 = nlinksConfig ^ k * nlinksConfig := h.trans (pow_succ _ _)
    have hdiv : id1 / nlinksConfig = nlinksConfig ^ k := by
      rw [hmul, Int.mul_ediv_cancel _ (by omega)]
    have hle : id1 / nlinksConfig ≤ id1 := Int.ediv_le_self _ (h ▸ pow_nonneg (by omega) _)
    have hk : k + 1 ≤ id1.toNat := by
      rw [← clog_eq hconfig h]
      exact Nat.clog_le_of_le_pow (Nat.lt_pow_self (by omega)).le
    have hcast : wrap64 (((k + 1 : Nat) : Int) - 1) = (k : Nat) := by
      rw [Int.natCast_succ, add_sub_cancel_right]
      exact wrap_eq_self (by omega) (by omega)
    rw [hcast, doubles_pow (by omega), ← hdiv]
    omega

/-- The root, rounded up. -/
theorem doubles_ceilRoot (hid : 1 ≤ id1) (hid' : id1 < 2 ^ 63) (hconfig : 2 ≤ nlinksConfig) :
    ∃ root, doubles.ceilRoot id1 nlinksConfig = root ∧ 1 ≤ root ∧ root ≤ id1 ∧
      ∀ x : Int, 0 ≤ x → id1 = x ^ nlinksConfig.toNat → x = root := by
  have hc : (1 : ℝ) ≤ nlinksConfig := by exact_mod_cast (by omega : 1 ≤ nlinksConfig)
  have hid1 : (0 : ℝ) < id1 := by exact_mod_cast hid
  obtain ⟨hroot, -, hle⟩ := JavaDouble.toLong_ceil_root hid hid' hc
  refine ⟨_, hroot, Int.ceil_pos.mpr (Real.rpow_pos_of_pos hid1 _), hle, fun x hx hpow => ?_⟩
  have hx' : (0 : ℝ) ≤ x := by exact_mod_cast hx
  have hexp : ((nlinksConfig.toNat : Nat) : ℝ) = nlinksConfig := by
    exact_mod_cast Int.toNat_of_nonneg (by omega : 0 ≤ nlinksConfig)
  have hexact : (id1 : ℝ) ^ (1 / (nlinksConfig : ℝ)) = x := by
    rw [hpow, Int.cast_pow, one_div, ← hexp, Real.pow_rpow_inv_natCast hx' (by omega)]
  rw [hexact, Int.ceil_intCast]

end

namespace ArithLinkDistribution

/-- What the loader asks a new object with valid parameters. -/
structure InRange (s : ArithLinkDistribution) (id1 : Int) : Prop where
  minid1 : 1 ≤ s.minid1
  maxid1 : s.maxid1 < 2 ^ 63
  le : s.minid1 ≤ id1
  lt : id1 < s.maxid1
  nlinksDefault : 0 ≤ s.nlinksDefault
  nlinksDefault_lt : s.nlinksDefault < 2 ^ 63
  nlinksConfig : 2 ≤ s.nlinksConfig
  nlinksConfig_lt : s.nlinksConfig < 2 ^ 63

/-- What a mode divides by. -/
noncomputable def divisors (s : ArithLinkDistribution) (id1 : Int) : List ℝ :=
  match s.mode with
  | .const => []
  | .reciprocal => [(wrap64 (id1 - s.minid1) : Int)]
  | .multiples => [s.nlinksConfig]
  | .exponential => [Real.log s.nlinksConfig]
  | .perfectSquares => [s.nlinksConfig]
  | .real => []

/-- Nothing is divided by zero, and there are at least the default and not many more links. -/
structure Bounded (s : ArithLinkDistribution) (id1 : Int) : Prop where
  divisors : ∀ x ∈ s.divisors id1, x ≠ 0
  count : ∃ n, (s.getNlinks doubles id1).1 = .ok n ∧ s.nlinksDefault ≤ n ∧
    n ≤ s.nlinksDefault + max id1 (max s.nlinksConfig (s.maxid1 - s.minid1))

/-- The count is a `long`, and the id is not the first one where its distance is divided by. -/
def Room (s : ArithLinkDistribution) (id1 : Int) : Prop :=
  match s.mode with
  | .const => True
  | .reciprocal => id1 ≠ s.minid1 ∧
    s.maxid1 - s.minid1 ≤ (2 ^ 63 - 1 - s.nlinksDefault) * (id1 - s.minid1)
  | .multiples => s.nlinksConfig ∣ id1 → s.nlinksDefault + s.nlinksConfig < 2 ^ 63
  | .exponential => ∀ k : Nat, id1 = s.nlinksConfig ^ k →
    s.nlinksDefault + (id1 - id1 / s.nlinksConfig) < 2 ^ 63
  | .perfectSquares => ∀ root : Int, 1 ≤ root → id1 = root ^ s.nlinksConfig.toNat →
    s.nlinksDefault + (id1 - (root - 1) ^ s.nlinksConfig.toNat) < 2 ^ 63
  | .real => True

section

variable {s : ArithLinkDistribution} {id1 : Int}

/-- An increment within the bounds is fine if the sum does not overflow. -/
theorem bounded_iff_lt (h : s.InRange id1) {increment : Int}
    (hget : (s.getNlinks doubles id1).1 = .ok (wrap64 (s.nlinksDefault + increment)))
    (hdiv : ∀ x ∈ s.divisors id1, x ≠ 0) (hpos : 0 ≤ increment)
    (hle : increment ≤ max id1 (max s.nlinksConfig (s.maxid1 - s.minid1))) :
    s.Bounded id1 ↔ s.nlinksDefault + increment < 2 ^ 63 := by
  obtain ⟨hmin, hmax, hid, hid', hdef, hdef', hconfig, hconfig'⟩ := h
  constructor
  · rintro ⟨-, n, hn, hge, -⟩
    obtain rfl := Except.ok.inj (hget.symm.trans hn)
    by_contra hover
    have hwrap : wrap64 _ = _ := wrap_of_overflow (not_lt.mp hover) (by omega)
    omega
  · intro hlt
    have hwrap : wrap64 (s.nlinksDefault + increment) = s.nlinksDefault + increment :=
      wrap_eq_self (by omega) hlt
    exact ⟨hdiv, _, hget, by omega, by omega⟩

theorem bounded_iff_reciprocal (h : s.InRange id1) (hmode : s.mode = .reciprocal) :
    s.Bounded id1 ↔ id1 ≠ s.minid1 ∧
      s.maxid1 - s.minid1 ≤ (2 ^ 63 - 1 - s.nlinksDefault) * (id1 - s.minid1) := by
  obtain ⟨hmin, hmax, hid, hid', hdef, hdef', hconfig, hconfig'⟩ := id h
  have hn : wrap64 (s.maxid1 - s.minid1) = s.maxid1 - s.minid1 := wrap_eq_self (by omega) (by omega)
  have hoff : wrap64 (id1 - s.minid1) = id1 - s.minid1 := wrap_eq_self (by omega) (by omega)
  have hdivisors : s.divisors id1 = [((id1 - s.minid1 : Int) : ℝ)] := by
    simp only [divisors, hmode, hoff]
  rcases hid.eq_or_lt with heq | hlt
  · -- the first id is at distance 0
    refine iff_of_false (fun hbounded => ?_) (fun hne => hne.1 heq.symm)
    refine hbounded.divisors _ (hdivisors ▸ List.mem_singleton_self _) ?_
    rw [heq, sub_self, Int.cast_zero]
  · obtain ⟨hceil, hpos, hle⟩ := doubles_ceilDiv (by omega : 0 ≤ s.maxid1 - s.minid1)
      (by omega) (by omega : 1 ≤ id1 - s.minid1)
    have hpos' : (0 : ℝ) < (id1 - s.minid1 : Int) := by
      exact_mod_cast (by omega : 0 < id1 - s.minid1)
    have hget : (s.getNlinks doubles id1).1 = .ok (wrap64 (s.nlinksDefault +
        ⌈((s.maxid1 - s.minid1 : Int) : ℝ) / (id1 - s.minid1 : Int)⌉)) := by
      simp only [getNlinks, hmode, hn, hoff, hceil]
    have hdiv : ∀ x ∈ s.divisors id1, x ≠ 0 := by
      rw [hdivisors]
      exact fun x hx => List.mem_singleton.mp hx ▸ hpos'.ne'
    have hroom : ⌈((s.maxid1 - s.minid1 : Int) : ℝ) / (id1 - s.minid1 : Int)⌉ ≤
        2 ^ 63 - 1 - s.nlinksDefault ↔
          s.maxid1 - s.minid1 ≤ (2 ^ 63 - 1 - s.nlinksDefault) * (id1 - s.minid1) := by
      rw [Int.ceil_le, div_le_iff₀ hpos', ← Int.cast_mul, Int.cast_le]
    rw [bounded_iff_lt h hget hdiv hpos (by omega), and_iff_right hlt.ne', ← hroom]
    omega

theorem bounded_iff_multiples (h : s.InRange id1) (hmode : s.mode = .multiples) :
    s.Bounded id1 ↔ (s.nlinksConfig ∣ id1 → s.nlinksDefault + s.nlinksConfig < 2 ^ 63) := by
  obtain ⟨hmin, hmax, hid, hid', hdef, hdef', hconfig, hconfig'⟩ := id h
  have hne : s.nlinksConfig ≠ 0 := by omega
  have hget : (s.getNlinks doubles id1).1 = .ok (wrap64 (s.nlinksDefault +
      if s.nlinksConfig ∣ id1 then s.nlinksConfig else 0)) := by
    simp only [getNlinks, hmode, if_neg hne, Int.dvd_iff_tmod_eq_zero]
  have hdiv : ∀ x ∈ s.divisors id1, x ≠ 0 := by
    simp only [divisors, hmode, List.mem_singleton, forall_eq]
    exact_mod_cast hne
  rw [bounded_iff_lt h hget hdiv (by split <;> omega) (by split <;> omega)]
  by_cases hdvd : s.nlinksConfig ∣ id1
  · rw [if_pos hdvd]
    exact ⟨fun hlt _ => hlt, fun hlt => hlt hdvd⟩
  · rw [if_neg hdvd]
    exact iff_of_true (by omega) (fun hyes => absurd hyes hdvd)

theorem bounded_iff_exponential (h : s.InRange id1) (hmode : s.mode = .exponential) :
    s.Bounded id1 ↔ ∀ k : Nat, id1 = s.nlinksConfig ^ k →
      s.nlinksDefault + (id1 - id1 / s.nlinksConfig) < 2 ^ 63 := by
  obtain ⟨hmin, hmax, hid, hid', hdef, hdef', hconfig, hconfig'⟩ := id h
  have hlog := doubles_ceilLog (by omega : 1 ≤ id1) (by omega) hconfig
  have htemp := doubles_pow (by omega : 0 ≤ s.nlinksConfig)
    (Nat.clog s.nlinksConfig.toNat id1.toNat)
  have hc : (1 : ℝ) < s.nlinksConfig := by exact_mod_cast (by omega : 1 < s.nlinksConfig)
  have hdiv : ∀ x ∈ s.divisors id1, x ≠ 0 := by
    simp only [divisors, hmode, List.mem_singleton, forall_eq]
    exact (Real.log_pos hc).ne'
  by_cases hpow : ∃ k : Nat, id1 = s.nlinksConfig ^ k
  · obtain ⟨k, hk⟩ := hpow
    have hquot : 0 ≤ id1 / s.nlinksConfig := Int.ediv_nonneg (by omega) (by omega)
    have hquot' : id1 / s.nlinksConfig ≤ id1 := Int.ediv_le_self _ (by omega)
    have hget : (s.getNlinks doubles id1).1 =
        .ok (wrap64 (s.nlinksDefault + (id1 - id1 / s.nlinksConfig))) := by
      have hsame : min (s.nlinksConfig ^ k) (2 ^ 63 - 1) = id1 := by omega
      have hwrap : wrap64 (id1 - id1 / s.nlinksConfig) = id1 - id1 / s.nlinksConfig :=
        wrap_eq_self (by omega) (by omega)
      rw [clog_eq hconfig hk] at hlog htemp
      simp only [getNlinks, hmode, hlog, htemp, hsame, doubles_pow_pred hconfig hk (by omega),
        if_true, hwrap]
    rw [bounded_iff_lt h hget hdiv (by omega) (by omega)]
    exact ⟨fun hlt _ _ => hlt, fun hlt => hlt k hk⟩
  · have hget : (s.getNlinks doubles id1).1 = .ok (wrap64 (s.nlinksDefault + 0)) := by
      have hother : ¬ min (s.nlinksConfig ^ Nat.clog s.nlinksConfig.toNat id1.toNat)
          (2 ^ 63 - 1) = id1 := fun heq =>
        hpow ⟨Nat.clog s.nlinksConfig.toNat id1.toNat, by omega⟩
      simp only [getNlinks, hmode, hlog, htemp, if_neg hother]
    rw [bounded_iff_lt h hget hdiv le_rfl (by omega)]
    exact iff_of_true (by omega) fun k hk => absurd ⟨k, hk⟩ hpow

theorem bounded_iff_perfectSquares (h : s.InRange id1) (hmode : s.mode = .perfectSquares) :
    s.Bounded id1 ↔ ∀ root : Int, 1 ≤ root → id1 = root ^ s.nlinksConfig.toNat →
      s.nlinksDefault + (id1 - (root - 1) ^ s.nlinksConfig.toNat) < 2 ^ 63 := by
  obtain ⟨hmin, hmax, hid, hid', hdef, hdef', hconfig, hconfig'⟩ := id h
  obtain ⟨root, hroot, hroot1, hle, hunique⟩ :=
    doubles_ceilRoot (by omega : 1 ≤ id1) (by omega) hconfig
  have hcast : s.nlinksConfig = (s.nlinksConfig.toNat : Nat) := by omega
  have htemp : doubles.pow root s.nlinksConfig = min (root ^ s.nlinksConfig.toNat) (2 ^ 63 - 1) := by
    rw [hcast, Int.toNat_natCast]
    exact doubles_pow (by omega) _
  have hprev : doubles.pow (wrap64 (root - 1)) s.nlinksConfig =
      min ((root - 1) ^ s.nlinksConfig.toNat) (2 ^ 63 - 1) := by
    rw [show wrap64 (root - 1) = _ from wrap_eq_self (by omega) (by omega), hcast, Int.toNat_natCast]
    exact doubles_pow (by omega) _
  have hdiv : ∀ x ∈ s.divisors id1, x ≠ 0 := by
    simp only [divisors, hmode, List.mem_singleton, forall_eq]
    exact_mod_cast (by omega : s.nlinksConfig ≠ 0)
  have hgetNlinks := congrArg Prod.fst (getNlinks_perfectSquares doubles id1 hmode)
  by_cases hpow : id1 = root ^ s.nlinksConfig.toNat
  · have hpred : 0 ≤ (root - 1) ^ s.nlinksConfig.toNat := pow_nonneg (by omega) _
    have hpred' : (root - 1) ^ s.nlinksConfig.toNat ≤ root ^ s.nlinksConfig.toNat :=
      pow_le_pow_left₀ (by omega) (by omega) _
    have hincrement : squaresIncrement doubles s.nlinksConfig id1 =
        id1 - (root - 1) ^ s.nlinksConfig.toNat := by
      simp only [squaresIncrement, hroot, htemp, hprev]
      rw [if_pos (by omega), show wrap64 _ = _ from wrap_eq_self (by omega) (by omega)]
      omega
    rw [hincrement] at hgetNlinks
    rw [bounded_iff_lt h hgetNlinks hdiv (by omega) (by omega)]
    constructor
    · intro hlt x hx hpowx
      rw [hunique x (by omega) hpowx]
      exact hlt
    · exact fun hall => hall root hroot1 hpow
  · have hincrement : squaresIncrement doubles s.nlinksConfig id1 = 0 := by
      simp only [squaresIncrement, hroot, htemp]
      exact if_neg (by omega)
    rw [hincrement] at hgetNlinks
    rw [bounded_iff_lt h hgetNlinks hdiv le_rfl (by omega)]
    refine iff_of_true (by omega) fun x hx hpowx => absurd ?_ hpow
    rwa [← hunique x (by omega) hpowx]

/-- **Link counts are bounded** exactly where there is room. -/
theorem bounded_iff (h : s.InRange id1) (hmode : s.mode ≠ .real) : s.Bounded id1 ↔ s.Room id1 := by
  unfold Room
  cases hm : s.mode with
  | real => exact absurd hm hmode
  | const =>
    have hget : (s.getNlinks doubles id1).1 = .ok (wrap64 (s.nlinksDefault + 0)) := by
      rw [add_zero, show wrap64 _ = _ from
        wrap_eq_self (by have := h.nlinksDefault; omega) h.nlinksDefault_lt]
      simp only [getNlinks, hm]
    have hdiv : ∀ x ∈ s.divisors id1, x ≠ 0 := by simp [divisors, hm]
    have hid := h.minid1.trans h.le
    rw [bounded_iff_lt h hget hdiv le_rfl (by omega)]
    exact iff_of_true (by simpa using h.nlinksDefault_lt) trivial
  | reciprocal => exact bounded_iff_reciprocal h hm
  | multiples => exact bounded_iff_multiples h hm
  | exponential => exact bounded_iff_exponential h hm
  | perfectSquares => exact bounded_iff_perfectSquares h hm

end

/-- Among the ids below 10 the squares get more. -/
theorem bounded_nine : Bounded ⟨1, 10, .perfectSquares, 2, 1⟩ 9 := by
  refine (bounded_iff ⟨by decide, by decide, by decide, by decide, by decide, by decide, by decide,
    by decide⟩ (by decide)).mpr fun root _ _ => ?_
  have hsquare := sq_nonneg (root - 1)
  have hexp : (2 : Int).toNat = 2 := rfl
  dsimp only
  rw [hexp]
  omega

/-- The first id of nine gets as many as there are `long`s. -/
theorem reciprocal_first :
    ((⟨1, 10, .reciprocal, 2, 0⟩ : ArithLinkDistribution).getNlinks doubles 1).1 =
      .ok (2 ^ 63 - 1) ∧ ¬ Bounded ⟨1, 10, .reciprocal, 2, 0⟩ 1 := by
  have hinf : doubles.ceilDiv 9 0 = 2 ^ 63 - 1 := by
    simp only [doubles]
    rw [Int.cast_zero, JavaDouble.div_zero (by norm_num), JavaDouble.ceil, JavaDouble.toLong]
  have hget : ((⟨1, 10, .reciprocal, 2, 0⟩ : ArithLinkDistribution).getNlinks doubles 1).1 =
      .ok (wrap64 (0 + doubles.ceilDiv 9 0)) := rfl
  rw [hinf] at hget
  refine ⟨hget, ?_⟩
  rintro ⟨-, n, hn, -, hle⟩
  obtain rfl := Except.ok.inj (hget.symm.trans hn)
  exact absurd hle (by decide)

end ArithLinkDistribution

end TokuQa.LinkBench.LinkDistributions
