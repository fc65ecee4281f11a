import Mathlib.Data.Real.Basic
import TokuQa.Lib.RandomRun
import TokuQa.LinkBench.LatencyStats

/-!
# `SampledStats.java`

Of the measurements of an operation since the last reset a sample of at most `maxsamples` is kept.
The first ones fill it. From then on a measurement replaces one of the sample with a probability
that "guarantees that each measurement has an equal probability of being included in the sample".
It would if it were `maxsamples` out of all measurements with this one; it is out of those before
it. So while no measurement is dropped the sample is right, and from the first on that could be it
is not (`uniform_iff`): the measurements that filled it are kept with too small a probability, the
later ones with too large a one (`law_retained`).

The numbers of the generator are exact and independent (`draws`). A call that does not need them
gets some all the same. `origin` says of which measurement since the reset, by its number, a place
of the sample has the time; no step reads it. Counts are natural numbers. `opsSinceReset` is an
`int`, which more measurements overflow than any sample holds.
-/

set_option autoImplicit false

namespace TokuQa.LinkBench

open MeasureTheory TokuQa.Lib

/-- The statistics of one type of operation. -/
structure OpStats (maxsamples : Nat) where
  /-- "Actual number of operations per type that caller did". -/
  numops : Nat
  samples : Fin maxsamples → Int
  /-- "Number of operations that the sample is drawn from". -/
  opsSinceReset : Nat
  minimum : Int
  maximum : Int
  errors : Nat
  origin : Fin maxsamples → Nat

abbrev SampledStats (maxsamples : Nat) : Type := LinkBenchOp → OpStats maxsamples

/-- The arguments of `addStats`. -/
structure Stat where
  type : LinkBenchOp
  timetaken : Int
  error : Bool

namespace SampledStats

variable {maxsamples : Nat}

def new (maxsamples : Nat) : SampledStats maxsamples := fun _ =>
  { numops := 0, samples := fun _ => 0, opsSinceReset := 0, minimum := 0, maximum := 0, errors := 0,
    origin := fun _ => 0 }

/-- A time is put in a place of the sample. -/
def put (r : OpStats maxsamples) (place : Fin maxsamples) (timetaken : Int) (opIndex : Nat) :
    OpStats maxsamples :=
  { r with
    samples := Function.update r.samples place timetaken
    origin := Function.update r.origin place opIndex }

/-- `addStats`, with the numbers that `rng.nextDouble()` and `rng.nextInt(maxsamples)` give. -/
def addStats {R : Type} [Field R] [LinearOrder R] (c : Stat) (rng : R × Fin maxsamples)
    (s : SampledStats maxsamples) : SampledStats maxsamples :=
  let r := s c.type
  let opIndex := r.opsSinceReset
  let r :=
    { r with
      errors := if c.error then r.errors + 1 else r.errors
      minimum := if r.minimum = 0 ∨ r.minimum > c.timetaken then c.timetaken else r.minimum
      maximum := if c.timetaken > r.maximum then c.timetaken else r.maximum
      numops := r.numops + 1
      opsSinceReset := r.opsSinceReset + 1 }
  Function.update s c.type <|
    if h : opIndex < maxsamples then put r ⟨opIndex, h⟩ c.timetaken opIndex
    else
      let pReplace : R := maxsamples / opIndex
      if rng.1 < pReplace then put r rng.2 c.timetaken opIndex else r

def resetSamples (s : SampledStats maxsamples) : SampledStats maxsamples :=
  fun type => { s type with opsSinceReset := 0 }

/-- A measurement, by its number since the reset, is in the sample, which is as long as there have
been measurements for it. -/
def Retained (r : OpStats maxsamples) (i : Nat) : Prop :=
  ∃ place : Fin maxsamples, place < r.opsSinceReset ∧ r.origin place = i

instance (r : OpStats maxsamples) (i : Nat) : Decidable (Retained r i) :=
  inferInstanceAs (Decidable (∃ _, _ ∧ _))

section

variable {R : Type} [Field R] [LinearOrder R] {c : Stat} {rng : R × Fin maxsamples}
  {s : SampledStats maxsamples} {type : LinkBenchOp} {i : Nat}

theorem addStats_of_ne (h : type ≠ c.type) : addStats c rng s type = s type :=
  Function.update_of_ne h _ _

@[simp] theorem opsSinceReset_addStats :
    (addStats c rng s c.type).opsSinceReset = (s c.type).opsSinceReset + 1 := by
  simp only [addStats, put, Function.update_self]
  split_ifs <;> rfl

/-- The sample is being filled. -/
theorem addStats_fill (h : (s c.type).opsSinceReset < maxsamples) :
    (addStats c rng s c.type).samples =
        Function.update (s c.type).samples ⟨(s c.type).opsSinceReset, h⟩ c.timetaken ∧
      (addStats c rng s c.type).origin =
        Function.update (s c.type).origin ⟨(s c.type).opsSinceReset, h⟩
          (s c.type).opsSinceReset := by
  rw [addStats, Function.update_self, dif_pos h, put]
  exact ⟨rfl, rfl⟩

theorem addStats_replace (h : maxsamples ≤ (s c.type).opsSinceReset)
    (hlt : rng.1 < maxsamples / (s c.type).opsSinceReset) :
    (addStats c rng s c.type).samples =
        Function.update (s c.type).samples rng.2 c.timetaken ∧
      (addStats c rng s c.type).origin =
        Function.update (s c.type).origin rng.2 (s c.type).opsSinceReset := by
  rw [addStats, Function.update_self, dif_neg (not_lt.mpr h), if_pos hlt, put]
  exact ⟨rfl, rfl⟩

theorem addStats_skip (h : maxsamples ≤ (s c.type).opsSinceReset)
    (hlt : ¬ rng.1 < maxsamples / (s c.type).opsSinceReset) :
    (addStats c rng s c.type).samples = (s c.type).samples ∧
      (addStats c rng s c.type).origin = (s c.type).origin := by
  rw [addStats, Function.update_self, dif_neg (not_lt.mpr h), if_neg hlt]
  exact ⟨rfl, rfl⟩

end

/-! ## The places of the sample -/

/-- The places that are taken are of different measurements since the reset. -/
structure Places (r : OpStats maxsamples) : Prop where
  lt : ∀ place : Fin maxsamples, place < r.opsSinceReset → r.origin place < r.opsSinceReset
  inj : ∀ place place' : Fin maxsamples, place < r.opsSinceReset → place' < r.opsSinceReset →
    r.origin place = r.origin place' → place = place'

section

variable {r r' : OpStats maxsamples} {place : Fin maxsamples} {i : Nat}

theorem Places.retained_lt (h : Places r) (hi : Retained r i) : i < r.opsSinceReset := by
  obtain ⟨place, hplace, rfl⟩ := hi
  exact h.lt place hplace

/-- The newest measurement takes a place, and no other place is new. -/
theorem Places.update (h : Places r) (hops : r'.opsSinceReset = r.opsSinceReset + 1)
    (hother : ∀ p : Fin maxsamples, p ≠ place → p < r'.opsSinceReset → p < r.opsSinceReset)
    (horigin : r'.origin = Function.update r.origin place r.opsSinceReset) : Places r' := by
  have hnew : r'.origin place = r.opsSinceReset := by rw [horigin, Function.update_self]
  have hold : ∀ p, p ≠ place → p < r'.opsSinceReset →
      r'.origin p = r.origin p ∧ r'.origin p < r.opsSinceReset := by
    intro p hp hlt
    have heq : r'.origin p = r.origin p := by rw [horigin, Function.update_of_ne hp]
    exact ⟨heq, heq ▸ h.lt p (hother p hp hlt)⟩
  constructor
  · intro p hp
    by_cases hpp : p = place
    · rw [hpp, hnew]
      omega
    · have hlt := (hold p hpp hp).2
      omega
  · intro p q hp hq heq
    by_cases hpp : p = place <;> by_cases hqp : q = place
    · rw [hpp, hqp]
    · have hlt := (hold q hqp hq).2
      rw [← heq, hpp, hnew] at hlt
      omega
    · have hlt := (hold p hpp hp).2
      rw [heq, hqp, hnew] at hlt
      omega
    · rw [(hold p hpp hp).1, (hold q hqp hq).1] at heq
      exact h.inj p q (hother p hpp hp) (hother q hqp hq) heq

theorem retained_update (hops : r'.opsSinceReset = r.opsSinceReset + 1)
    (hplace : place < r'.opsSinceReset)
    (hother : ∀ p : Fin maxsamples, p ≠ place → p < r'.opsSinceReset → p < r.opsSinceReset)
    (horigin : r'.origin = Function.update r.origin place r.opsSinceReset) :
    Retained r' i ↔
      i = r.opsSinceReset ∨ ∃ p ≠ place, p < r.opsSinceReset ∧ r.origin p = i := by
  constructor
  · rintro ⟨p, hp, rfl⟩
    by_cases hpp : p = place
    · exact .inl (by rw [hpp, horigin, Function.update_self])
    · exact .inr ⟨p, hpp, hother p hpp hp, by rw [horigin, Function.update_of_ne hpp]⟩
  · rintro (rfl | ⟨p, hpp, hp, rfl⟩)
    · exact ⟨place, hplace, by rw [horigin, Function.update_self]⟩
    · exact ⟨p, by omega, by rw [horigin, Function.update_of_ne hpp]⟩

/-- A full sample stays as it is. -/
theorem Places.skip (h : Places r) (hfull : maxsamples ≤ r.opsSinceReset)
    (hops : r'.opsSinceReset = r.opsSinceReset + 1) (horigin : r'.origin = r.origin) :
    Places r' := by
  constructor
  · intro p _
    have hlt := h.lt p (p.isLt.trans_le hfull)
    rw [horigin]
    omega
  · intro p q _ _ heq
    rw [horigin] at heq
    exact h.inj p q (p.isLt.trans_le hfull) (q.isLt.trans_le hfull) heq

theorem retained_skip (hfull : maxsamples ≤ r.opsSinceReset)
    (hops : r'.opsSinceReset = r.opsSinceReset + 1) (horigin : r'.origin = r.origin) :
    Retained r' i ↔ Retained r i := by
  refine exists_congr fun p => ?_
  have hp : p < r.opsSinceReset := p.isLt.trans_le hfull
  rw [horigin, hops, iff_true_intro hp, iff_true_intro (Nat.lt_succ_of_lt hp)]

end

section

variable {R : Type} [Field R] [LinearOrder R] {c : Stat} {rng : R × Fin maxsamples}
  {s : SampledStats maxsamples} {type : LinkBenchOp} {i : Nat}

theorem lt_of_ne_fill (h : (s c.type).opsSinceReset < maxsamples) (p : Fin maxsamples)
    (hp : p ≠ ⟨(s c.type).opsSinceReset, h⟩) (hlt : p < (addStats c rng s c.type).opsSinceReset) :
    p < (s c.type).opsSinceReset := by
  have hne := Fin.val_ne_of_ne hp
  rw [opsSinceReset_addStats] at hlt
  dsimp only at hne
  omega

theorem places_addStats (hs : Places (s c.type)) : Places (addStats c rng s c.type) := by
  have hops : (addStats c rng s c.type).opsSinceReset = (s c.type).opsSinceReset + 1 :=
    opsSinceReset_addStats
  by_cases h : (s c.type).opsSinceReset < maxsamples
  · exact hs.update hops (lt_of_ne_fill h) (addStats_fill h).2
  · have hfull := not_lt.mp h
    by_cases hlt : rng.1 < maxsamples / (s c.type).opsSinceReset
    · exact hs.update hops (fun p _ _ => p.isLt.trans_le hfull) (addStats_replace hfull hlt).2
    · exact hs.skip hfull hops (addStats_skip hfull hlt).2

theorem retained_fill (h : (s c.type).opsSinceReset < maxsamples) :
    Retained (addStats c rng s c.type) i ↔ i = (s c.type).opsSinceReset ∨ Retained (s c.type) i := by
  rw [retained_update opsSinceReset_addStats (by simp) (lt_of_ne_fill h) (addStats_fill h).2]
  refine or_congr_right (exists_congr fun p => and_iff_right_of_imp ?_)
  rintro ⟨hp, -⟩ rfl
  exact lt_irrefl _ hp

theorem retained_replace (h : maxsamples ≤ (s c.type).opsSinceReset)
    (hlt : rng.1 < maxsamples / (s c.type).opsSinceReset) :
    Retained (addStats c rng s c.type) i ↔
      i = (s c.type).opsSinceReset ∨
        ∃ p ≠ rng.2, p < (s c.type).opsSinceReset ∧ (s c.type).origin p = i := by
  refine retained_update opsSinceReset_addStats ?_ (fun p _ _ => p.isLt.trans_le h)
    (addStats_replace h hlt).2
  rw [opsSinceReset_addStats]
  exact Nat.lt_succ_of_lt (rng.2.isLt.trans_le h)

/-- A measurement loses its place only to the newest one. -/
theorem retained_origin (hs : Places (s c.type)) (h : maxsamples ≤ (s c.type).opsSinceReset)
    (place : Fin maxsamples) :
    Retained (addStats c rng s c.type) ((s c.type).origin place) ↔
      ¬ (rng.1 < maxsamples / (s c.type).opsSinceReset ∧ rng.2 = place) := by
  have hfull : ∀ p : Fin maxsamples, p < (s c.type).opsSinceReset := fun p => p.isLt.trans_le h
  by_cases hlt : rng.1 < maxsamples / (s c.type).opsSinceReset
  · rw [retained_replace h hlt, not_and, forall_prop_of_true hlt]
    constructor
    · rintro (heq | ⟨p, hp, -, heq⟩) hplace
      · exact (hs.lt place (hfull place)).ne heq
      · exact hp (hplace.symm ▸ hs.inj p place (hfull p) (hfull place) heq)
    · intro hne
      exact .inr ⟨place, Ne.symm hne, hfull place, rfl⟩
  · rw [retained_skip h opsSinceReset_addStats (addStats_skip h hlt).2]
    exact iff_of_true ⟨place, hfull place, rfl⟩ fun hand => hlt hand.1

/-- A measurement that has lost its place does not get one again. -/
theorem not_retained_addStats (h : maxsamples ≤ (s c.type).opsSinceReset)
    (hi : i < (s c.type).opsSinceReset) (hnot : ¬ Retained (s c.type) i) :
    ¬ Retained (addStats c rng s c.type) i := by
  by_cases hlt : rng.1 < maxsamples / (s c.type).opsSinceReset
  · rw [retained_replace h hlt]
    rintro (rfl | ⟨p, -, hp, heq⟩)
    · exact lt_irrefl _ hi
    · exact hnot ⟨p, hp, heq⟩
  · rw [retained_skip h opsSinceReset_addStats (addStats_skip h hlt).2]
    exact hnot

/-- The newest measurement gets a place if the draw says so. -/
theorem retained_newest (hs : Places (s c.type)) (h : maxsamples ≤ (s c.type).opsSinceReset) :
    Retained (addStats c rng s c.type) (s c.type).opsSinceReset ↔
      rng.1 < maxsamples / (s c.type).opsSinceReset := by
  by_cases hlt : rng.1 < maxsamples / (s c.type).opsSinceReset
  · exact iff_of_true ((retained_replace h hlt).mpr (.inl rfl)) hlt
  · rw [retained_skip h opsSinceReset_addStats (addStats_skip h hlt).2]
    exact iff_of_false (fun hi => lt_irrefl _ (hs.retained_lt hi)) hlt

end

/-! ## What is in the places -/

/-- A place of the sample has the time of the measurement it says. -/
def Holds (r : OpStats maxsamples) (times : List Int) : Prop :=
  r.opsSinceReset = times.length ∧
    ∀ place : Fin maxsamples, place < r.opsSinceReset →
      times[r.origin place]? = some (r.samples place)

section

variable {R : Type} [Field R] [LinearOrder R] {c : Stat} {rng : R × Fin maxsamples}
  {s : SampledStats maxsamples} {times : List Int}

theorem Holds.update {r : OpStats maxsamples} (h : Holds r times) {place : Fin maxsamples}
    {timetaken : Int} {r' : OpStats maxsamples}
    (hother : ∀ p : Fin maxsamples, p ≠ place → p < r.opsSinceReset + 1 → p < r.opsSinceReset)
    (hops : r'.opsSinceReset = r.opsSinceReset + 1)
    (hsamples : r'.samples = Function.update r.samples place timetaken)
    (horigin : r'.origin = Function.update r.origin place r.opsSinceReset) :
    Holds r' (times ++ [timetaken]) := by
  refine ⟨by rw [hops, h.1, List.length_append, List.length_singleton], fun p hp => ?_⟩
  rw [hops] at hp
  rw [hsamples, horigin]
  by_cases hpp : p = place
  · rw [hpp, Function.update_self, Function.update_self, h.1, List.getElem?_concat_length]
  · have hold := h.2 p (hother p hpp hp)
    rw [Function.update_of_ne hpp, Function.update_of_ne hpp]
    rw [List.getElem?_append_left (List.getElem?_eq_some_iff.mp hold).1]
    exact hold

theorem holds_addStats (hs : Holds (s c.type) times) :
    Holds (addStats c rng s c.type) (times ++ [c.timetaken]) := by
  have hops : (addStats c rng s c.type).opsSinceReset = (s c.type).opsSinceReset + 1 :=
    opsSinceReset_addStats
  by_cases h : (s c.type).opsSinceReset < maxsamples
  · refine hs.update (fun p hp hlt => ?_) hops (addStats_fill h).1 (addStats_fill h).2
    have hlt' : p < (addStats c rng s c.type).opsSinceReset := by rwa [hops]
    exact lt_of_ne_fill h p hp hlt'
  · have hfull := not_lt.mp h
    by_cases hlt : rng.1 < maxsamples / (s c.type).opsSinceReset
    · exact hs.update (fun p _ _ => p.isLt.trans_le hfull) hops (addStats_replace hfull hlt).1
        (addStats_replace hfull hlt).2
    · have hskip := addStats_skip hfull hlt
      refine ⟨by rw [hops, hs.1, List.length_append, List.length_singleton], fun p _ => ?_⟩
      have hold := hs.2 p (p.isLt.trans_le hfull)
      rw [hskip.1, hskip.2, List.getElem?_append_left (List.getElem?_eq_some_iff.mp hold).1]
      exact hold

end

/-! ## The law of the sample -/

instance : MeasurableSpace (SampledStats maxsamples) := ⊤

instance : DiscreteMeasurableSpace (SampledStats maxsamples) := ⟨fun _ => trivial⟩

section

theorem measurable_addStats (c : Stat) (s : SampledStats maxsamples) :
    Measurable fun rng : ℝ × Fin maxsamples => addStats c rng s := by
  by_cases h : (s c.type).opsSinceReset < maxsamples
  · simp only [addStats, dif_pos h]
    exact measurable_const
  · simp only [addStats, dif_neg h, apply_ite (Function.update s c.type)]
    have hplace : ∀ f : Fin maxsamples → SampledStats maxsamples,
        Measurable fun rng : ℝ × Fin maxsamples => f rng.2 := fun f =>
      Measurable.of_discrete.comp measurable_snd
    exact Measurable.ite (measurableSet_lt measurable_fst measurable_const)
      (hplace fun j => Function.update s c.type (put _ j _ _)) measurable_const

/-- The probability of a measurement that has a place after `m` of them, with `k` places, to have it
after `n`. -/
noncomputable def keptProb (k m n : Nat) : ENNReal :=
  if n ≤ k then 1 else ENNReal.ofReal (((max m k : Nat) - 1 : ℝ) / (n - 1))

/-- The probability of measurement `i` to have one of `k` places after `n` measurements. -/
noncomputable def retainedProb (k i n : Nat) : ENNReal :=
  if n ≤ k then 1
  else if i < k then ENNReal.ofReal ((k - 1) / (n - 1))
  else ENNReal.ofReal (k / (n - 1))

theorem keptProb_self {k m : Nat} (hk : 0 < k) : keptProb k m m = 1 := by
  unfold keptProb
  split_ifs with hm
  · rfl
  · have hmr : (1 : ℝ) < m := by exact_mod_cast lt_of_le_of_lt hk (not_le.mp hm)
    rw [max_eq_left (not_le.mp hm).le, div_self (by linarith), ENNReal.ofReal_one]

/-- The newest measurement has just got its place. -/
theorem keptProb_of_lt {k i n : Nat} (hi : i < k) : keptProb k (i + 1) n = retainedProb k i n := by
  rw [keptProb, retainedProb, if_pos hi, max_eq_right (Nat.succ_le_of_lt hi)]

/-- As long as places are free nothing is lost. -/
theorem keptProb_succ_of_lt {k m n : Nat} (hm : m < k) : keptProb k (m + 1) n = keptProb k m n := by
  rw [keptProb, keptProb, max_eq_right (Nat.succ_le_of_lt hm), max_eq_right hm.le]

/-- Of the measurements of a full sample each one is kept but for one in `m`. -/
theorem keptProb_full {k m n : Nat} (hk : 0 < k) (hm : k ≤ m) (hn : m < n) :
    keptProb k (m + 1) n * (1 - ENNReal.ofReal (k / m) * (k : ENNReal)⁻¹) = keptProb k m n := by
  have hkr : (0 : ℝ) < k := by exact_mod_cast hk
  have hmr : (1 : ℝ) ≤ m := by exact_mod_cast hk.trans_le hm
  have hnr : (m : ℝ) + 1 ≤ n := by exact_mod_cast hn
  have hlost : ENNReal.ofReal (k / m) * (k : ENNReal)⁻¹ = ENNReal.ofReal (1 / m) := by
    rw [← ENNReal.ofReal_natCast k, ← ENNReal.ofReal_inv_of_pos hkr,
      ← ENNReal.ofReal_mul (by positivity)]
    congr 1
    field_simp
  rw [hlost, ← ENNReal.ofReal_one, ← ENNReal.ofReal_sub _ (by positivity), keptProb, keptProb,
    if_neg (by omega), if_neg (by omega), max_eq_left (by omega), max_eq_left hm,
    ← ENNReal.ofReal_mul (by push_cast; exact div_nonneg (by linarith) (by linarith))]
  congr 1
  push_cast
  field_simp
  ring

/-- The newest measurement gets a place and keeps it. -/
theorem keptProb_newest {k m n : Nat} (hk : 0 < k) (hm : k ≤ m) (hn : m < n) :
    keptProb k (m + 1) n * ENNReal.ofReal (k / m) = retainedProb k m n := by
  have hmr : (1 : ℝ) ≤ m := by exact_mod_cast hk.trans_le hm
  have hnr : (m : ℝ) + 1 ≤ n := by exact_mod_cast hn
  rw [keptProb, retainedProb, if_neg (by omega), if_neg (by omega), if_neg (by omega),
    max_eq_left (by omega),
    ← ENNReal.ofReal_mul (by push_cast; exact div_nonneg (by linarith) (by linarith))]
  congr 1
  push_cast
  have hne : (m : ℝ) ≠ 0 := by linarith
  field_simp
  ring

variable [NeZero maxsamples] {type : LinkBenchOp} {calls : List Stat} {i : Nat}

/-- The statistics after some calls, from `s` on. -/
noncomputable def statsLaw (calls : List Stat) (s : SampledStats maxsamples) :
    Measure (SampledStats maxsamples) :=
  law (draws maxsamples) addStats calls s

/-- The number of measurements of a type. -/
def count (type : LinkBenchOp) (calls : List Stat) : Nat := calls.countP fun c => c.type = type

theorem count_cons_self (c : Stat) (calls : List Stat) :
    count c.type (c :: calls) = count c.type calls + 1 :=
  List.countP_cons_of_pos (decide_eq_true rfl)

theorem count_cons_of_ne {c : Stat} (h : type ≠ c.type) :
    count type (c :: calls) = count type calls :=
  List.countP_cons_of_neg (by simpa using h.symm)

theorem pReplace_le_one {k m : Nat} (h : k ≤ m) : (k : ℝ) / m ≤ 1 :=
  div_le_one_of_le₀ (by exact_mod_cast h) (Nat.cast_nonneg m)

/-- What is not in the sample any more does not come back. -/
theorem law_lost {s : SampledStats maxsamples} (hi : i < (s type).opsSinceReset)
    (hlost : ¬ Retained (s type) i) :
    statsLaw calls s {s' | Retained (s' type) i} = 0 := by
  induction calls generalizing s with
  | nil => exact law_nil.trans (Set.indicator_of_notMem (by exact hlost) 1)
  | cons c calls ih =>
    refine law_cons_of_const (measurable_addStats c s) fun rng => ?_
    by_cases htype : type = c.type
    · subst htype
      refine ih (by rw [opsSinceReset_addStats]; omega) ?_
      by_cases hfill : (s c.type).opsSinceReset < maxsamples
      · rw [retained_fill hfill, not_or]
        exact ⟨hi.ne, hlost⟩
      · exact not_retained_addStats (not_lt.mp hfill) hi hlost
    · have hsame : addStats c rng s type = s type := addStats_of_ne htype
      exact ih (hsame ▸ hi) (hsame ▸ hlost)

omit [NeZero maxsamples] in
theorem sinceReset_cons (c : Stat) (s : SampledStats maxsamples) :
    (s c.type).opsSinceReset + count c.type (c :: calls) =
      (s c.type).opsSinceReset + 1 + count c.type calls := by
  rw [count_cons_self]
  omega

/-- A call that finds every place taken: what is at a place is lost if the draw is below
`pReplace` and then for its place. -/
theorem law_cons_kept {c : Stat} {s : SampledStats maxsamples} (hs : Places (s c.type))
    (hfull : maxsamples ≤ (s c.type).opsSinceReset) (place : Fin maxsamples)
    (hrest : ∀ rng : ℝ × Fin maxsamples,
      Retained (addStats c rng s c.type) ((s c.type).origin place) →
      statsLaw calls (addStats c rng s) {s' | Retained (s' c.type) ((s c.type).origin place)} =
        keptProb maxsamples ((s c.type).opsSinceReset + 1)
          ((s c.type).opsSinceReset + 1 + count c.type calls)) :
    statsLaw (c :: calls) s {s' | Retained (s' c.type) ((s c.type).origin place)} =
      keptProb maxsamples (s c.type).opsSinceReset
        ((s c.type).opsSinceReset + 1 + count c.type calls) := by
  have hreplaced : ∀ rng ∈ Set.Iio ((maxsamples : ℝ) / (s c.type).opsSinceReset) ×ˢ {place},
      statsLaw calls (addStats c rng s)
        {s' | Retained (s' c.type) ((s c.type).origin place)} = 0 := by
    rintro rng ⟨hlt, hplace⟩
    refine law_lost ?_ fun h => (retained_origin hs hfull place).mp h ⟨hlt, hplace⟩
    rw [opsSinceReset_addStats]
    exact Nat.lt_succ_of_lt (hs.lt place (place.isLt.trans_le hfull))
  have hspared : ∀ rng ∉ Set.Iio ((maxsamples : ℝ) / (s c.type).opsSinceReset) ×ˢ {place},
      statsLaw calls (addStats c rng s) {s' | Retained (s' c.type) ((s c.type).origin place)} =
        keptProb maxsamples ((s c.type).opsSinceReset + 1)
          ((s c.type).opsSinceReset + 1 + count c.type calls) := fun rng hnot =>
    hrest rng ((retained_origin hs hfull place).mpr fun hand => hnot hand)
  refine (law_cons_of_split (measurableSet_Iio.prod (measurableSet_singleton place))
    (measurable_addStats c s) hreplaced hspared).trans ?_
  rw [zero_mul, zero_add, draws_lt_eq (pReplace_le_one hfull),
    keptProb_full (NeZero.pos maxsamples) hfull (by omega)]

/-- **What is in the sample is kept with the probability `keptProb`.** -/
theorem law_kept {s : SampledStats maxsamples} (hs : Places (s type))
    (hkept : Retained (s type) i) :
    statsLaw calls s {s' | Retained (s' type) i} =
      keptProb maxsamples (s type).opsSinceReset ((s type).opsSinceReset + count type calls) := by
  induction calls generalizing s with
  | nil =>
    rw [count, List.countP_nil, add_zero, keptProb_self (NeZero.pos maxsamples)]
    exact law_nil.trans (Set.indicator_of_mem (by exact hkept) 1)
  | cons c calls ih =>
    by_cases htype : type = c.type
    · subst htype
      rw [sinceReset_cons]
      by_cases hfill : (s c.type).opsSinceReset < maxsamples
      · refine law_cons_of_const (measurable_addStats c s) fun rng => ?_
        refine (ih (places_addStats hs) ((retained_fill hfill).mpr (.inr hkept))).trans ?_
        rw [opsSinceReset_addStats, keptProb_succ_of_lt hfill]
      · obtain ⟨place, -, rfl⟩ := hkept
        refine law_cons_kept hs (not_lt.mp hfill) place fun rng hplace => ?_
        rw [ih (places_addStats hs) hplace, opsSinceReset_addStats]
    · refine law_cons_of_const (measurable_addStats c s) fun rng => ?_
      have hsame : addStats c rng s type = s type := addStats_of_ne htype
      refine (ih (hsame ▸ hs) (hsame ▸ hkept)).trans ?_
      rw [hsame, count_cons_of_ne htype]

/-- The measurement of the call itself: it gets a free place, or one it is drawn for. -/
theorem law_newest {c : Stat} {s : SampledStats maxsamples} (hs : Places (s c.type)) :
    statsLaw (c :: calls) s {s' | Retained (s' c.type) (s c.type).opsSinceReset} =
      retainedProb maxsamples (s c.type).opsSinceReset
        ((s c.type).opsSinceReset + 1 + count c.type calls) := by
  by_cases hfill : (s c.type).opsSinceReset < maxsamples
  · refine law_cons_of_const (measurable_addStats c s) fun rng => ?_
    refine (law_kept (places_addStats hs) ((retained_fill hfill).mpr (.inl rfl))).trans ?_
    rw [opsSinceReset_addStats, keptProb_of_lt hfill]
  · have hfull := not_lt.mp hfill
    have hchosen : ∀ rng ∈ Set.Iio ((maxsamples : ℝ) / (s c.type).opsSinceReset) ×ˢ Set.univ,
        statsLaw calls (addStats c rng s) {s' | Retained (s' c.type) (s c.type).opsSinceReset} =
          keptProb maxsamples ((s c.type).opsSinceReset + 1)
            ((s c.type).opsSinceReset + 1 + count c.type calls) := by
      rintro rng ⟨hlt, -⟩
      rw [law_kept (places_addStats hs) ((retained_newest hs hfull).mpr hlt),
        opsSinceReset_addStats]
    have hleft : ∀ rng ∉ Set.Iio ((maxsamples : ℝ) / (s c.type).opsSinceReset) ×ˢ Set.univ,
        statsLaw calls (addStats c rng s)
          {s' | Retained (s' c.type) (s c.type).opsSinceReset} = 0 := by
      intro rng hnot
      refine law_lost ?_ fun h => hnot ⟨(retained_newest hs hfull).mp h, trivial⟩
      rw [opsSinceReset_addStats]
      exact Nat.lt_succ_self _
    refine (law_cons_of_split (measurableSet_Iio.prod MeasurableSet.univ)
      (measurable_addStats c s) hchosen hleft).trans ?_
    rw [zero_mul, add_zero, draws_lt (pReplace_le_one hfull),
      keptProb_newest (NeZero.pos maxsamples) hfull (by omega)]

/-- **A measurement that is yet to come** will be in the sample with the probability
`retainedProb`. -/
theorem law_coming {s : SampledStats maxsamples} (hs : Places (s type))
    (hi : (s type).opsSinceReset ≤ i) (hn : i < (s type).opsSinceReset + count type calls) :
    statsLaw calls s {s' | Retained (s' type) i} =
      retainedProb maxsamples i ((s type).opsSinceReset + count type calls) := by
  induction calls generalizing s with
  | nil =>
    rw [count, List.countP_nil] at hn
    omega
  | cons c calls ih =>
    by_cases htype : type = c.type
    · subst htype
      rw [sinceReset_cons] at hn ⊢
      rcases hi.eq_or_lt with rfl | hlater
      · exact law_newest hs
      · refine law_cons_of_const (measurable_addStats c s) fun rng => ?_
        have hops : (addStats c rng s c.type).opsSinceReset = (s c.type).opsSinceReset + 1 :=
          opsSinceReset_addStats
        refine (ih (places_addStats hs) (by omega) (by omega)).trans ?_
        rw [hops]
    · rw [count_cons_of_ne htype] at hn ⊢
      refine law_cons_of_const (measurable_addStats c s) fun rng => ?_
      have hsame : addStats c rng s type = s type := addStats_of_ne htype
      refine (ih (hsame ▸ hs) (hsame ▸ hi) (hsame ▸ hn)).trans ?_
      rw [hsame]

variable (s : SampledStats maxsamples) (type : LinkBenchOp) (calls : List Stat)

/-- **The sample that is kept**, of the measurements since a reset. -/
theorem law_retained (hi : i < count type calls) :
    statsLaw calls (resetSamples s) {s' | Retained (s' type) i} =
      retainedProb maxsamples i (count type calls) := by
  have hops : (resetSamples s type).opsSinceReset = 0 := rfl
  have hplaces : Places (resetSamples s type) := ⟨nofun, nofun⟩
  have hlaw : statsLaw calls (resetSamples s) {s' | Retained (s' type) i} =
      retainedProb maxsamples i ((resetSamples s type).opsSinceReset + count type calls) :=
    law_coming hplaces (Nat.zero_le i) (by omega)
  rwa [hops, zero_add] at hlaw

/-- Whatever is drawn, the places have the times of the measurements they are said to have. -/
theorem law_holds {s : SampledStats maxsamples} {times : List Int} (hs : Holds (s type) times) :
    statsLaw calls s {s' | Holds (s' type)
        (times ++ (calls.filter fun c => c.type = type).map Stat.timetaken)} = 1 := by
  induction calls generalizing s times with
  | nil => exact law_nil.trans (Set.indicator_of_mem (by simpa using hs) 1)
  | cons c calls ih =>
    refine law_cons_of_const (measurable_addStats c s) fun rng => ?_
    by_cases htype : type = c.type
    · subst htype
      have hnext : Holds (addStats c rng s c.type) (times ++ [c.timetaken]) := holds_addStats hs
      have hrest := ih hnext
      rw [List.filter_cons_of_pos (by simp), List.map_cons]
      rwa [List.append_assoc, List.singleton_append] at hrest
    · have hsame : addStats c rng s type = s type := addStats_of_ne htype
      rw [List.filter_cons_of_neg (by simpa using Ne.symm htype)]
      exact ih (hsame ▸ hs)

/-- The newest measurement is too probable. -/
theorem retainedProb_newest_ne {k n : Nat} (hk : 0 < k) (hn : k < n) :
    retainedProb k (n - 1) n ≠ min 1 ((k : ENNReal) / n) := by
  have hkr : (0 : ℝ) < k := by exact_mod_cast hk
  have hnr : (1 : ℝ) < n := by exact_mod_cast lt_of_le_of_lt hk hn
  have hknr : (k : ℝ) < n := by exact_mod_cast hn
  have hmin : min 1 ((k : ENNReal) / n) = ENNReal.ofReal (k / n) := by
    rw [ENNReal.ofReal_div_of_pos (by linarith), ENNReal.ofReal_natCast, ENNReal.ofReal_natCast]
    refine min_eq_right (ENNReal.div_le_of_le_mul ?_)
    rw [one_mul]
    exact_mod_cast hn.le
  rw [retainedProb, if_neg (by omega), if_neg (by omega), hmin]
  intro heq
  have hreal := (ENNReal.ofReal_eq_ofReal_iff (by apply div_nonneg <;> linarith)
    (by positivity)).mp heq
  rw [div_eq_div_iff (by linarith) (by linarith)] at hreal
  nlinarith

/-- **When the sample is uniform**: as long as it has a place for every measurement. -/
theorem uniform_iff :
    (∀ i < count type calls, statsLaw calls (resetSamples s) {s' | Retained (s' type) i} =
        min 1 ((maxsamples : ENNReal) / count type calls)) ↔
      count type calls ≤ maxsamples := by
  have hk : 0 < maxsamples := NeZero.pos maxsamples
  constructor
  · intro h
    by_contra hlt
    have hn := not_le.mp hlt
    have hnewest := h (count type calls - 1) (by omega)
    rw [law_retained s type calls (by omega)] at hnewest
    exact retainedProb_newest_ne hk hn hnewest
  · intro hle i hi
    have hn : (count type calls : ENNReal) ≠ 0 := by
      have hpos : count type calls ≠ 0 := by omega
      exact_mod_cast hpos
    rw [law_retained s type calls hi, retainedProb, if_pos hle, min_eq_left]
    rw [ENNReal.le_div_iff_mul_le (.inl hn) (.inl (ENNReal.natCast_ne_top _)), one_mul]
    exact_mod_cast hle

end

/-- Two measurements for one place: the first one is always replaced. -/
def twoCalls : List Stat := [⟨.addLink, 5, false⟩, ⟨.addLink, 7, false⟩]

theorem uniform_one : (∀ i < count .addLink [⟨.addLink, 5, false⟩],
      statsLaw [⟨.addLink, 5, false⟩] (resetSamples (new 1)) {s' | Retained (s' .addLink) i} =
        min 1 (((1 : Nat) : ENNReal) / count .addLink [⟨.addLink, 5, false⟩])) ↔
    count .addLink [⟨.addLink, 5, false⟩] ≤ 1 :=
  uniform_iff (new 1) .addLink [⟨.addLink, 5, false⟩]

theorem not_uniform : ¬ ∀ (s : SampledStats 1) (type : LinkBenchOp) (calls : List Stat),
    1 ≤ count type calls → ∀ i < count type calls,
      statsLaw calls (resetSamples s) {s' | Retained (s' type) i} =
        min 1 (((1 : Nat) : ENNReal) / count type calls) := by
  intro h
  have hnewest := h (new 1) .addLink twoCalls (by decide) 1 (by decide)
  have htwo : count .addLink twoCalls = 2 := rfl
  rw [law_retained (new 1) .addLink twoCalls (by decide), htwo] at hnewest
  exact retainedProb_newest_ne Nat.one_pos (by decide) hnewest

end SampledStats

end TokuQa.LinkBench
