import TokuQa.Lib.JavaDouble
import TokuQa.LinkBench.UniformDistribution

/-!
# `AccessDistributions.java`, the built-in distributions

`chooseRequestID` asserts that the id it gets is one of the range: "distribution responsible for
generating number in range". Three modes clamp the id from above only, or not at all. `MULTIPLE`
rounds down, below the first id; `POWER` of 1 divides by zero; and every mode that draws gets ids
below the range from `UniformDistribution` where that does not cover it (`staysInRange_iff`).

`ROUND_ROBIN` takes the first id for one before the range, and answers it with itself: once there,
it stays (`cycles_iff`).
-/

set_option autoImplicit false

namespace TokuQa.LinkBench

open TokuQa.Lib

inductive AccessDistMode where
  | real
  | roundRobin
  | reciprocal
  | multiple
  | power
  | perfectPower
deriving DecidableEq

structure BuiltinAccessDistribution where
  mode : AccessDistMode
  minid : Int
  maxid : Int
  config : Int

namespace BuiltinAccessDistribution

open UniformDistribution (intMax rngOf)

inductive Exn where
  | uniform (e : UniformDistribution.Exn)
  | arithmetic (msg : String)
  | runtime (msg : String)

/-- "Use to generate decent quality random longs in range". -/
def uniform (b : BuiltinAccessDistribution) : UniformDistribution := ⟨b.minid, b.maxid⟩

/-- "Sequential from startid1 to maxid1 (circular)". -/
def roundRobin (b : BuiltinAccessDistribution) (previousid : Int) : Int :=
  if previousid ≤ b.minid then b.minid
  else
    let newid := wrap64 (previousid + 1)
    if newid ≥ b.maxid then b.minid else newid

/-- "Inverse function f(x) = 1/x". -/
noncomputable def reciprocal (b : BuiltinAccessDistribution) (u : Int) : Int :=
  let drange : JavaDouble := .fin (wrap64 (b.maxid - b.minid) : Int)
  let newid := (drange.div (.fin u)).ceil.toLong
  let newid := if newid < b.minid then b.minid else newid
  if newid ≥ b.maxid then b.maxid else newid

/-- "Generate id1 that is even multiple of config". The quotient is one of `long`s. -/
noncomputable def multiple (b : BuiltinAccessDistribution) (u : Int) : Except Exn Int :=
  if b.config = 0 then .error (.arithmetic "/ by zero")
  else .ok (wrap64 (b.config * (JavaDouble.fin (u.tdiv b.config : Int)).ceil.toLong))

/-- "Generate id1 that is power of config". -/
noncomputable def power (b : BuiltinAccessDistribution) (u : Int) : Int :=
  let log := ((JavaDouble.fin u).log.div (JavaDouble.fin b.config).log).ceil
  min (wrap64 (b.maxid - 1)) (JavaDouble.pow b.config log).toLong

/-- "Generate id1 that is perfect square if config is 2, perfect cube if config is 3 etc". -/
noncomputable def perfectPower (b : BuiltinAccessDistribution) (u : Int) : Int :=
  let nthroot := (JavaDouble.pow u ((JavaDouble.fin 1).div (.fin b.config))).ceil.toLong
  min (wrap64 (b.maxid - 1)) (JavaDouble.pow nthroot (.fin b.config)).toLong

/-- `uniform.choose(rng)`. -/
def choose (b : BuiltinAccessDistribution) (rng : Rng) : Except Exn Int :=
  match b.uniform.choose rng with
  | .ok u => .ok u
  | .error e => .error (.uniform e)

noncomputable def nextID (b : BuiltinAccessDistribution) (rng : Rng) (previousid : Int) :
    Except Exn Int :=
  match b.mode with
  | .roundRobin => .ok (b.roundRobin previousid)
  | .reciprocal => (b.choose rng).map b.reciprocal
  | .multiple => (b.choose rng).bind b.multiple
  | .power => (b.choose rng).map b.power
  | .perfectPower => (b.choose rng).map b.perfectPower
  | .real => .error (.runtime "Unknown access dist mode: REAL")

/-! ## The range -/

/-- What `chooseRequestID` asserts, whatever is drawn. -/
def StaysInRange (b : BuiltinAccessDistribution) : Prop :=
  ∀ rng : Rng, rng.Keeps → ∀ previousid, b.minid ≤ previousid → previousid < b.maxid →
    ∃ id, b.nextID rng previousid = .ok id ∧ b.minid ≤ id ∧ id < b.maxid

section

variable {b : BuiltinAccessDistribution} {u : Int}

/-- A mode that draws, by what it makes of a drawn id. -/
theorem staysInRange_of_draw {f : Int → Except Exn Int}
    (hnext : ∀ rng previousid, b.nextID rng previousid = (b.choose rng).bind f)
    (hmin : 1 ≤ b.minid) (hmax : b.maxid < 2 ^ 63) (hlt : b.minid < b.maxid)
    (hzero : ∀ id, f 0 = .ok id → id < b.minid ∨ b.maxid ≤ id) :
    b.StaysInRange ↔ b.maxid - b.minid ≤ intMax ∧
      ∀ u, b.minid ≤ u → u < b.maxid → ∃ id, f u = .ok id ∧ b.minid ≤ id ∧ id < b.maxid := by
  rcases le_or_gt (b.maxid - b.minid) intMax with hsmall | hlarge
  · rw [and_iff_right hsmall]
    have hcovers : b.uniform.Covers :=
      UniformDistribution.covers_small (d := b.uniform) (by show -2 ^ 63 ≤ b.minid; omega) hmax hlt
        hsmall
    constructor
    · intro h u hu hu'
      obtain ⟨rng, hkeeps, hrng⟩ := hcovers.onto u hu hu'
      obtain ⟨id, hid, hbounds⟩ := h rng hkeeps b.minid le_rfl hlt
      rw [hnext, choose, hrng] at hid
      exact ⟨id, hid, hbounds⟩
    · intro h rng hkeeps previousid _ _
      obtain ⟨u, hu, hlow, hhigh⟩ := hcovers.inRange rng hkeeps
      obtain ⟨id, hid, hbounds⟩ := h u hlow hhigh
      refine ⟨id, ?_, hbounds⟩
      rw [hnext, choose, hu]
      exact hid
  · refine iff_of_false (fun h => ?_) fun h => absurd h.1 hlarge.not_ge
    -- 0 is drawn, or the draw fails
    obtain ⟨id, hid, hlow, hhigh⟩ := h _ (UniformDistribution.rngOf_keeps (x := 0) (j := 0) le_rfl
      (by norm_num)) b.minid le_rfl hlt
    rw [hnext, choose] at hid
    rcases UniformDistribution.choose_zero_of_large (d := b.uniform) hlarge
      (by show b.maxid - b.minid < 2 ^ 63; omega) with hok | ⟨e, he⟩
    · rw [hok] at hid
      rcases hzero id hid with hout | hout
      · omega
      · omega
    · rw [he] at hid
      cases hid

/-- A mode that makes an id of every id. -/
theorem staysInRange_of_map {f : Int → Int}
    (hnext : ∀ rng previousid, b.nextID rng previousid = (b.choose rng).map f) (hmin : 1 ≤ b.minid)
    (hmax : b.maxid < 2 ^ 63) (hlt : b.minid < b.maxid) (hzero : f 0 < b.minid ∨ b.maxid ≤ f 0) :
    b.StaysInRange ↔ b.maxid - b.minid ≤ intMax ∧
      ∀ u, b.minid ≤ u → u < b.maxid → b.minid ≤ f u ∧ f u < b.maxid := by
  have hdraw : ∀ rng previousid, b.nextID rng previousid =
      (b.choose rng).bind fun u => .ok (f u) := fun rng previousid => by
    rw [hnext]
    cases b.choose rng <;> rfl
  rw [staysInRange_of_draw hdraw hmin hmax hlt fun id hid => Except.ok.inj hid ▸ hzero]
  refine and_congr_right fun _ => forall_congr' fun u => imp_congr_right fun _ =>
    imp_congr_right fun _ => ⟨fun ⟨id, hid, hmem⟩ => ?_, fun hmem => ⟨f u, rfl, hmem⟩⟩
  rwa [Except.ok.inj hid]

theorem reciprocal_zero (hmax : b.maxid < 2 ^ 63) (hmin : 1 ≤ b.minid) (hlt : b.minid < b.maxid) :
    b.reciprocal 0 = b.maxid := by
  have hlen : wrap64 (b.maxid - b.minid) = b.maxid - b.minid := wrap_eq_self (by omega) (by omega)
  have hpos : (0 : ℝ) < ((b.maxid - b.minid : Int) : ℝ) := by
    exact_mod_cast (by omega : 0 < b.maxid - b.minid)
  unfold reciprocal
  simp only [hlen, Int.cast_zero, JavaDouble.div_zero hpos, JavaDouble.ceil, JavaDouble.toLong]
  split <;> split <;> omega

theorem reciprocal_mem (hmax : b.maxid < 2 ^ 63) (hmin : 1 ≤ b.minid) (hlt : b.minid < b.maxid)
    (hu : b.minid ≤ u) : b.minid ≤ b.reciprocal u ∧ b.reciprocal u < b.maxid := by
  have hlen : wrap64 (b.maxid - b.minid) = b.maxid - b.minid := wrap_eq_self (by omega) (by omega)
  have hu1 : (1 : ℝ) ≤ u := by exact_mod_cast (by omega : 1 ≤ u)
  have hn : (0 : ℝ) ≤ ((b.maxid - b.minid : Int) : ℝ) := by
    exact_mod_cast (by omega : 0 ≤ b.maxid - b.minid)
  have hle : JavaDouble.toLong (JavaDouble.ceil (.fin (((b.maxid - b.minid : Int) : ℝ) / u))) ≤
      b.maxid - b.minid :=
    JavaDouble.toLong_ceil_le (div_nonneg hn (by linarith)) (by omega) (div_le_self hn hu1)
  unfold reciprocal
  simp only [hlen, JavaDouble.div_fin (by linarith : (u : ℝ) ≠ 0)]
  split <;> split <;> omega

theorem multiple_eq (hconfig : 1 ≤ b.config) (hu : 0 ≤ u) (hu' : u < 2 ^ 63) :
    b.multiple u = .ok (b.config * (u / b.config)) := by
  have hq0 : 0 ≤ u / b.config := Int.ediv_nonneg hu (by omega)
  have hq : u / b.config ≤ u := Int.ediv_le_self _ hu
  have hmul : b.config * (u / b.config) ≤ u := Int.mul_ediv_self_le (by omega)
  have hmul0 : 0 ≤ b.config * (u / b.config) := Int.mul_nonneg (by omega) hq0
  unfold multiple
  rw [if_neg (by omega), Int.tdiv_eq_ediv_of_nonneg hu, JavaDouble.ceil, Int.ceil_intCast,
    JavaDouble.toLong_int (by omega) (by omega),
    show wrap64 (b.config * (u / b.config)) = _ from wrap_eq_self (by omega) (by omega)]

/-- Rounding down to a multiple stays in the range if it does for the first id. -/
theorem multiple_mem_iff (hmin : 1 ≤ b.minid) (hmax : b.maxid < 2 ^ 63) (hlt : b.minid < b.maxid)
    (hconfig : 1 ≤ b.config) :
    (∀ u, b.minid ≤ u → u < b.maxid →
      ∃ id, b.multiple u = .ok id ∧ b.minid ≤ id ∧ id < b.maxid) ↔ b.config ∣ b.minid := by
  constructor
  · intro h
    obtain ⟨id, hid, hlow, -⟩ := h b.minid le_rfl hlt
    rw [multiple_eq hconfig (by omega) (by omega), Except.ok.injEq] at hid
    have hmul : b.config * (b.minid / b.config) ≤ b.minid := Int.mul_ediv_self_le (by omega)
    exact ⟨b.minid / b.config, by omega⟩
  · rintro ⟨q, hq⟩ u hu hu'
    have hquot : q ≤ u / b.config := by
      refine Int.le_ediv_of_mul_le (by omega) ?_
      rw [Int.mul_comm]
      omega
    have hlow := Int.mul_le_mul_of_nonneg_left hquot (by omega : 0 ≤ b.config)
    have hmul : b.config * (u / b.config) ≤ u := Int.mul_ediv_self_le (by omega)
    exact ⟨_, multiple_eq hconfig (by omega) (by omega), by omega, by omega⟩

/-- `POWER` of 1 is no number. -/
theorem power_one (hconfig : b.config = 1) (hmax : b.maxid < 2 ^ 63) (hmin : 2 ≤ b.maxid)
    (hu : 0 ≤ u) : b.power u = 0 := by
  have hlast : wrap64 (b.maxid - 1) = b.maxid - 1 := wrap_eq_self (by omega) (by omega)
  have hlog : (JavaDouble.fin (1 : Int)).log = .fin 0 := by
    rw [Int.cast_one, JavaDouble.log_fin one_pos, Real.log_one]
  have hnan : (JavaDouble.pow (1 : Int) ((JavaDouble.fin u).log.div (.fin 0)).ceil) = .nan := by
    rcases hu.eq_or_lt with rfl | hpos
    · rw [Int.cast_zero, JavaDouble.log_zero, JavaDouble.div, if_pos le_rfl, JavaDouble.ceil,
        JavaDouble.pow, if_pos (by norm_num)]
    · have hu1 : (1 : ℝ) ≤ u := by exact_mod_cast (by omega : 1 ≤ u)
      rw [JavaDouble.log_fin (by linarith)]
      rcases (Real.log_nonneg hu1).eq_or_lt with hzero | hlogpos
      · rw [← hzero, JavaDouble.div, if_pos rfl, if_neg (lt_irrefl _), if_neg (lt_irrefl _),
          JavaDouble.ceil, JavaDouble.pow]
      · rw [JavaDouble.div_zero hlogpos, JavaDouble.ceil, JavaDouble.pow, if_pos (by norm_num)]
  unfold power
  dsimp only
  rw [hlast, hconfig, hlog, hnan, JavaDouble.toLong]
  omega

theorem power_zero (hconfig : 2 ≤ b.config) (hmax : b.maxid < 2 ^ 63) (hmin : 2 ≤ b.maxid) :
    b.power 0 = 0 := by
  have hlast : wrap64 (b.maxid - 1) = b.maxid - 1 := wrap_eq_self (by omega) (by omega)
  have hc : (2 : ℝ) ≤ b.config := by exact_mod_cast hconfig
  have habs : |(b.config : ℝ)| = b.config := abs_of_nonneg (by linarith)
  unfold power
  dsimp only
  rw [hlast, Int.cast_zero, JavaDouble.log_zero, JavaDouble.log_fin (by linarith), JavaDouble.div,
    if_pos (Real.log_nonneg (by linarith)), JavaDouble.ceil, JavaDouble.pow, habs,
    if_neg (by linarith), if_pos (by linarith), ← Int.cast_zero,
    JavaDouble.toLong_int (by norm_num) (by norm_num)]
  omega

/-- The power for an id is at least the id. -/
theorem power_mem (hconfig : 2 ≤ b.config) (hmin : 1 ≤ b.minid) (hmax : b.maxid < 2 ^ 63)
    (hu : b.minid ≤ u) (hu' : u < b.maxid) : b.minid ≤ b.power u ∧ b.power u < b.maxid := by
  have hlast : wrap64 (b.maxid - 1) = b.maxid - 1 := wrap_eq_self (by omega) (by omega)
  have hc : (2 : ℝ) ≤ b.config := by exact_mod_cast hconfig
  have hu1 : (1 : ℝ) ≤ u := by exact_mod_cast (by omega : 1 ≤ u)
  have hlogc : 0 < Real.log b.config := Real.log_pos (by linarith)
  have hexp : (0 : ℝ) ≤ (⌈Real.log u / Real.log b.config⌉ : Int) := by
    exact_mod_cast Int.ceil_nonneg (div_nonneg (Real.log_nonneg hu1) hlogc.le)
  have hle : u ≤ JavaDouble.toLong
      (.fin ((b.config : ℝ) ^ ((⌈Real.log u / Real.log b.config⌉ : Int) : ℝ))) :=
    JavaDouble.le_toLong (by omega) (by omega)
      (JavaDouble.le_rpow_ceil_log (by linarith) (by linarith))
  unfold power
  dsimp only
  rw [hlast, JavaDouble.log_fin (by linarith), JavaDouble.log_fin (by linarith),
    JavaDouble.div_fin hlogc.ne', JavaDouble.ceil, JavaDouble.pow_fin (by linarith) hexp]
  omega

theorem perfectPower_zero (hconfig : 1 ≤ b.config) (hmax : b.maxid < 2 ^ 63) (hmin : 2 ≤ b.maxid) :
    b.perfectPower 0 = 0 := by
  have hlast : wrap64 (b.maxid - 1) = b.maxid - 1 := wrap_eq_self (by omega) (by omega)
  have hc : (1 : ℝ) ≤ b.config := by exact_mod_cast hconfig
  have hinv : (0 : ℝ) < 1 / b.config := by positivity
  have hroot : (JavaDouble.pow (0 : Int) ((JavaDouble.fin 1).div (.fin b.config))).ceil.toLong =
      0 := by
    rw [JavaDouble.div_fin (by linarith), Int.cast_zero, JavaDouble.pow_fin le_rfl hinv.le,
      Real.zero_rpow hinv.ne', JavaDouble.ceil, Int.ceil_zero,
      JavaDouble.toLong_int (by norm_num) (by norm_num)]
  unfold perfectPower
  dsimp only
  rw [hlast, hroot, Int.cast_zero, JavaDouble.pow_fin le_rfl (by linarith),
    Real.zero_rpow (by linarith), ← Int.cast_zero, JavaDouble.toLong_int (by norm_num) (by norm_num)]
  omega

/-- The perfect power for an id is at least the id. -/
theorem perfectPower_mem (hconfig : 1 ≤ b.config) (hmin : 1 ≤ b.minid) (hmax : b.maxid < 2 ^ 63)
    (hu : b.minid ≤ u) (hu' : u < b.maxid) :
    b.minid ≤ b.perfectPower u ∧ b.perfectPower u < b.maxid := by
  have hlast : wrap64 (b.maxid - 1) = b.maxid - 1 := wrap_eq_self (by omega) (by omega)
  have hc : (1 : ℝ) ≤ b.config := by exact_mod_cast hconfig
  have hu1 : (1 : ℝ) ≤ u := by exact_mod_cast (by omega : 1 ≤ u)
  obtain ⟨hroot, hceil0, hceil⟩ :=
    JavaDouble.toLong_ceil_root (by omega : 1 ≤ u) (by omega : u < 2 ^ 63) hc
  have hle : u ≤ JavaDouble.toLong
      (.fin (((⌈(u : ℝ) ^ (1 / (b.config : ℝ))⌉ : Int) : ℝ) ^ (b.config : ℝ))) :=
    JavaDouble.le_toLong (by omega) (by omega)
      (JavaDouble.le_rpow_ceil_root (by linarith) (by linarith))
  unfold perfectPower
  dsimp only
  rw [hlast, hroot, JavaDouble.pow_fin (by exact_mod_cast hceil0) (by linarith)]
  omega

theorem roundRobin_mem (hmin : -2 ^ 63 ≤ b.minid) (hmax : b.maxid < 2 ^ 63)
    (hlt : b.minid < b.maxid) (hu : b.minid ≤ u) (hu' : u < b.maxid) :
    b.minid ≤ b.roundRobin u ∧ b.roundRobin u < b.maxid := by
  have hsucc : wrap64 (u + 1) = u + 1 := wrap_eq_self (by omega) (by omega)
  unfold roundRobin
  rw [hsucc]
  dsimp only
  split
  · omega
  · split <;> omega

/-- **A built-in distribution stays in its range** exactly where it cycles, or draws from a range
that an `int` counts and does not round it down: `MULTIPLE` from a multiple on, `POWER` of a number
other than 1, and the others. -/
theorem staysInRange_iff (hmin : 1 ≤ b.minid) (hlt : b.minid < b.maxid) (hmax : b.maxid < 2 ^ 63)
    (hconfig : 1 ≤ b.config) (hmode : b.mode ≠ .real) :
    b.StaysInRange ↔ b.mode = .roundRobin ∨ b.maxid - b.minid ≤ intMax ∧
      (b.mode = .reciprocal ∨ b.mode = .perfectPower ∨ b.mode = .multiple ∧ b.config ∣ b.minid ∨
        b.mode = .power ∧ 2 ≤ b.config) := by
  cases h : b.mode with
  | real => exact absurd h hmode
  | roundRobin =>
    refine iff_of_true (fun rng _ previousid hp hp' => ⟨b.roundRobin previousid, ?_, ?_⟩) (.inl rfl)
    · simp only [nextID, h]
    · exact roundRobin_mem (by omega) hmax hlt hp hp'
  | reciprocal =>
    have hnext : ∀ rng previousid, b.nextID rng previousid = (b.choose rng).map b.reciprocal :=
      fun rng previousid => by simp only [nextID, h]
    rw [staysInRange_of_map hnext hmin hmax hlt (.inr (reciprocal_zero hmax hmin hlt).ge)]
    exact (and_iff_left fun u hu _ => reciprocal_mem hmax hmin hlt hu).trans (by simp)
  | multiple =>
    have hnext : ∀ rng previousid, b.nextID rng previousid = (b.choose rng).bind b.multiple :=
      fun rng previousid => by simp only [nextID, h]
    have hzero : ∀ id, b.multiple 0 = .ok id → id < b.minid ∨ b.maxid ≤ id := by
      intro id hid
      rw [multiple_eq hconfig le_rfl (by norm_num), Int.zero_ediv, Int.mul_zero,
        Except.ok.injEq] at hid
      omega
    rw [staysInRange_of_draw hnext hmin hmax hlt hzero, multiple_mem_iff hmin hmax hlt hconfig]
    simp
  | power =>
    have hnext : ∀ rng previousid, b.nextID rng previousid = (b.choose rng).map b.power :=
      fun rng previousid => by simp only [nextID, h]
    by_cases htwo : 2 ≤ b.config
    · have hzero := power_zero htwo hmax (by omega)
      rw [staysInRange_of_map hnext hmin hmax hlt (by omega)]
      exact (and_iff_left fun u hu hu' => power_mem htwo hmin hmax hu hu').trans (by simp [htwo])
    · have hone : ∀ u, 0 ≤ u → b.power u = 0 := fun u => power_one (by omega) hmax (by omega)
      have hzero := hone 0 le_rfl
      rw [staysInRange_of_map hnext hmin hmax hlt (by omega)]
      refine iff_of_false (fun hstays => ?_) (by simp [htwo])
      have hfirst := hstays.2 b.minid le_rfl hlt
      rw [hone b.minid (by omega)] at hfirst
      omega
  | perfectPower =>
    have hnext : ∀ rng previousid, b.nextID rng previousid = (b.choose rng).map b.perfectPower :=
      fun rng previousid => by simp only [nextID, h]
    have hzero := perfectPower_zero hconfig hmax (by omega)
    rw [staysInRange_of_map hnext hmin hmax hlt (by omega)]
    exact (and_iff_left fun u hu hu' => perfectPower_mem hconfig hmin hmax hu hu').trans (by simp)

end

/-- Powers of 2 from nine ids. -/
theorem staysInRange_powers :
    StaysInRange ⟨.power, 1, 10, 2⟩ ↔ AccessDistMode.power = .roundRobin ∨ (10 : Int) - 1 ≤ intMax ∧
      (AccessDistMode.power = .reciprocal ∨ AccessDistMode.power = .perfectPower ∨
        AccessDistMode.power = .multiple ∧ (2 : Int) ∣ 1 ∨
        AccessDistMode.power = .power ∧ (2 : Int) ≤ 2) :=
  staysInRange_iff (by decide) (by decide) (by decide) (by decide) (by decide)

/-- The multiple of 2 for the id 1 is 0. -/
theorem multiples_below_range : ¬ StaysInRange ⟨.multiple, 1, 10, 2⟩ := by
  intro h
  have hcovers : UniformDistribution.Covers ⟨1, 10⟩ :=
    UniformDistribution.covers_small (by decide) (by decide) (by decide) (by decide)
  obtain ⟨rng, hkeeps, hrng⟩ := hcovers.onto 1 (by decide) (by decide)
  obtain ⟨id, hid, hlow, -⟩ := h rng hkeeps 1 (by decide) (by decide)
  have hzero : nextID ⟨.multiple, 1, 10, 2⟩ rng 1 = .ok 0 := by
    have hchoose : choose ⟨.multiple, 1, 10, 2⟩ rng = .ok 1 := by rw [choose, uniform, hrng]
    simp only [nextID, hchoose]
    exact multiple_eq (by decide) (by decide) (by decide)
  rw [hzero] at hid
  obtain rfl := Except.ok.inj hid
  exact absurd hlow (by decide)

/-! ## The cycle -/

/-- From any id of the range on, each result fed back, every `maxid - minid` results are the ids of
the range, each once, and each is followed by the next one around the circle. -/
def Cycles (b : BuiltinAccessDistribution) : Prop :=
  ∀ (ids : Nat → Int) (rng : Nat → Rng), b.minid ≤ ids 0 → ids 0 < b.maxid →
    (∀ k, b.nextID (rng k) (ids k) = .ok (ids (k + 1))) →
    (∀ k, Set.BijOn (fun i => ids (k + 1 + i)) (Set.Iio (b.maxid - b.minid).toNat)
      (Set.Ico b.minid b.maxid)) ∧
    ∀ k, ids (k + 2) = if ids (k + 1) + 1 = b.maxid then b.minid else ids (k + 1) + 1

/-- **`ROUND_ROBIN` cycles** only through a single id: the first id is its own successor. -/
theorem cycles_iff {b : BuiltinAccessDistribution} (hmode : b.mode = .roundRobin)
    (hlt : b.minid < b.maxid) : b.Cycles ↔ b.maxid = b.minid + 1 := by
  have hnext : ∀ rng previousid, b.nextID rng previousid = .ok (b.roundRobin previousid) :=
    fun rng previousid => by simp only [nextID, hmode]
  have hfirst : b.roundRobin b.minid = b.minid := if_pos le_rfl
  constructor
  · intro h
    have hstuck := h (fun _ => b.minid) (fun _ => rngOf 0 0) le_rfl hlt fun k => by
      rw [hnext, hfirst]
    by_contra hne
    have hsame : (0 : Nat) = 1 := (hstuck.1 0).injOn (Set.mem_Iio.mpr (by omega))
      (Set.mem_Iio.mpr (by omega)) rfl
    exact absurd hsame (by decide)
  · intro hone ids rng hlow hhigh hrun
    have hids : ∀ k, ids k = b.minid := by
      intro k
      induction k with
      | zero => omega
      | succ k ih =>
        have hstep := hrun k
        rw [hnext, ih, hfirst] at hstep
        exact (Except.ok.inj hstep).symm
    have hlen : (b.maxid - b.minid).toNat = 1 := by omega
    constructor
    · intro k
      rw [hlen]
      refine ⟨fun i _ => ?_, fun i hi j hj _ => ?_, fun id hid => ⟨0, ?_, ?_⟩⟩
      · exact ⟨(hids _).ge, (hids _).trans_lt hlt⟩
      · rw [Set.mem_Iio] at hi hj
        omega
      · exact Nat.one_pos
      · simp only [Set.mem_Ico] at hid
        exact (hids _).trans (by omega)
    · intro k
      rw [hids, hids, if_pos hone.symm]

/-- A single id. -/
theorem cycles_one : Cycles ⟨.roundRobin, 5, 6, 1⟩ ↔ (6 : Int) = 5 + 1 :=
  cycles_iff rfl (by decide)

/-- Of three ids, the first is visited forever. -/
theorem first_id_forever : ¬ Cycles ⟨.roundRobin, 1, 4, 1⟩ := by
  intro h
  have hstuck := h (fun _ => 1) (fun _ => rngOf 0 0) (by decide) (by decide) fun _ => rfl
  exact absurd (hstuck.2 0) (by decide)

end BuiltinAccessDistribution

end TokuQa.LinkBench
