import Mathlib.MeasureTheory.Measure.GiryMonad
import Mathlib.MeasureTheory.Measure.Lebesgue.Basic
import Mathlib.MeasureTheory.Measure.Prod
import Mathlib.Probability.ProbabilityMassFunction.Constructions
import Mathlib.Probability.Distributions.Uniform

/-!
# Runs that draw random numbers

A step that uses random numbers is a function of them. `law` is the distribution of the state after
a run in which every step gets numbers of its own, drawn from `μ` whatever was drawn before. How
probable an event is after a run follows from the first step alone (`law_cons_of_split`): it is as
probable as after the rest of the run, averaged over what was drawn.

`draws k` are the numbers a program compares and counts with: a real one, uniform in `[0, 1)`, and
one of `k`, uniform and independent of it.
-/

set_option autoImplicit false

namespace TokuQa.Lib

open MeasureTheory

section

variable {σ α D : Type} [MeasurableSpace σ] [MeasurableSpace D]

noncomputable def law (μ : Measure D) (step : α → D → σ → σ) : List α → σ → Measure σ
  | [], s => Measure.dirac s
  | a :: as, s => μ.bind fun d => law μ step as (step a d s)

variable [DiscreteMeasurableSpace σ] {μ : Measure D} {step : α → D → σ → σ} {E : Set σ} {a : α}
  {as : List α} {s : σ}

theorem law_nil : law μ step [] s E = E.indicator 1 s := by
  rw [law, Measure.dirac_apply]

theorem law_cons (hstep : Measurable fun d => step a d s) :
    law μ step (a :: as) s E = ∫⁻ d, law μ step as (step a d s) E ∂μ := by
  have hrest : Measurable (law μ step as) := Measurable.of_discrete
  have hlaw : Measurable fun d => law μ step as (step a d s) := hrest.comp hstep
  rw [law, Measure.bind_apply MeasurableSet.of_discrete hlaw.aemeasurable]

variable [IsProbabilityMeasure μ]

/-- What the first step draws makes no difference. -/
theorem law_cons_of_const {x : ENNReal} (hstep : Measurable fun d => step a d s)
    (h : ∀ d, law μ step as (step a d s) E = x) : law μ step (a :: as) s E = x := by
  rw [law_cons hstep, lintegral_congr h, lintegral_const, measure_univ, mul_one]

/-- **What the first step draws makes one difference**: whether it is in `A`. -/
theorem law_cons_of_split {A : Set D} (hA : MeasurableSet A) {x y : ENNReal}
    (hstep : Measurable fun d => step a d s)
    (hin : ∀ d ∈ A, law μ step as (step a d s) E = x)
    (hout : ∀ d ∉ A, law μ step as (step a d s) E = y) :
    law μ step (a :: as) s E = x * μ A + y * (1 - μ A) := by
  rw [law_cons hstep, ← lintegral_add_compl _ hA, setLIntegral_congr_fun hA hin,
    setLIntegral_congr_fun hA.compl hout, setLIntegral_const, setLIntegral_const,
    prob_compl_eq_one_sub hA]

end

/-! ## Uniform numbers -/

section

variable {k : Nat} [NeZero k]

noncomputable def draws (k : Nat) [NeZero k] : Measure (ℝ × Fin k) :=
  (volume.restrict (Set.Ico 0 1)).prod (PMF.uniformOfFintype (Fin k)).toMeasure

instance isProbabilityMeasure_draw : IsProbabilityMeasure (volume.restrict (Set.Ico (0 : ℝ) 1)) :=
  ⟨by rw [Measure.restrict_apply_univ, Real.volume_Ico, sub_zero, ENNReal.ofReal_one]⟩

instance : IsProbabilityMeasure (draws k) := by
  unfold draws
  infer_instance

theorem volume_Iio {p : ℝ} (hp : p ≤ 1) :
    volume.restrict (Set.Ico 0 1) (Set.Iio p) = ENNReal.ofReal p := by
  have hinter : Set.Iio p ∩ Set.Ico 0 1 = Set.Ico 0 p := by
    ext u
    simp only [Set.mem_inter_iff, Set.mem_Iio, Set.mem_Ico]
    constructor
    · rintro ⟨hu, hpos, -⟩
      exact ⟨hpos, hu⟩
    · rintro ⟨hpos, hu⟩
      exact ⟨hu, hpos, hu.trans_le hp⟩
  rw [Measure.restrict_apply measurableSet_Iio, hinter, Real.volume_Ico, sub_zero]

/-- The real number is below `p`. -/
theorem draws_lt {p : ℝ} (hp : p ≤ 1) :
    draws k (Set.Iio p ×ˢ Set.univ) = ENNReal.ofReal p := by
  rw [draws, Measure.prod_prod, volume_Iio hp, measure_univ, mul_one]

/-- The real number is below `p`, and the other one is `j`. -/
theorem draws_lt_eq {p : ℝ} (hp : p ≤ 1) (j : Fin k) :
    draws k (Set.Iio p ×ˢ {j}) = ENNReal.ofReal p * (k : ENNReal)⁻¹ := by
  rw [draws, Measure.prod_prod, volume_Iio hp,
    PMF.toMeasure_apply_singleton _ _ (measurableSet_singleton j), PMF.uniformOfFintype_apply,
    Fintype.card_fin]

end

end TokuQa.Lib
