import Mathlib.Algebra.BigOperators.Group.List.Basic
import Mathlib.Data.List.Infix

/-!
# Runs of a step function

A system is a step function `step : α → σ → Option σ`: given the next input it moves or is
stuck. `run` takes a list of inputs one after another. The rules below are the only
inductions over a run the developments on top need:

* `run_simulates`: a run follows the run of a specification that every step follows;
* `run_keeps`: what every fine step keeps, a run of fine steps keeps;
* `run_counts`: a counter counts the steps that move it;
* `run_adds`: a quantity to which every step adds what its input says has the sum in the end;
* `prefixes_iff`: a property holds **all along** a run exactly when every step of it meets a
  condition, provided one step keeps an invariant under the condition and loses the property
  without it.

A step may also give something out (`emits`): the outputs of a run are those of its steps, one
after another.
-/

set_option autoImplicit false

namespace TokuQa.Lib

variable {α σ : Type}

def run (step : α → σ → Option σ) : List α → σ → Option σ
  | [], s => some s
  | a :: as, s => (step a s).bind (run step as)

/-- Every step of the run meets `Ok`, each at the state it starts from. -/
def AllSteps (step : α → σ → Option σ) (Ok : α → σ → Prop) : List α → σ → Prop
  | [], _ => True
  | a :: as, s => Ok a s ∧ ∀ s', step a s = some s' → AllSteps step Ok as s'

instance instDecidableAllSteps {step : α → σ → Option σ} {Ok : α → σ → Prop}
    [∀ a s, Decidable (Ok a s)] :
    (as : List α) → (s : σ) → Decidable (AllSteps step Ok as s)
  | [], _ => isTrue trivial
  | a :: as, s =>
    have : Decidable (∀ s', step a s = some s' → AllSteps step Ok as s') :=
      match step a s with
      | none => isTrue nofun
      | some s₁ =>
        have : Decidable (AllSteps step Ok as s₁) := instDecidableAllSteps as s₁
        decidable_of_iff (AllSteps step Ok as s₁)
          ⟨fun h _ hs' => Option.some.inj hs' ▸ h, fun h => h s₁ rfl⟩
    inferInstanceAs (Decidable (Ok a s ∧ ∀ s', step a s = some s' → AllSteps step Ok as s'))

/-- The number of steps of the run that meet `c`, each at the state it starts from. -/
def countSteps (step : α → σ → Option σ) (c : α → σ → Bool) : List α → σ → Nat
  | [], _ => 0
  | a :: as, s => (if c a s then 1 else 0) + (step a s).elim 0 (countSteps step c as)

section

variable {step : α → σ → Option σ} {J P : σ → Prop} {W : α → Prop} {Ok : α → σ → Prop}

theorem run_cons_eq_some {a : α} {as : List α} {s s' : σ} :
    run step (a :: as) s = some s' ↔ ∃ s₁, step a s = some s₁ ∧ run step as s₁ = some s' :=
  Option.bind_eq_some_iff

theorem run_singleton {a : α} {s s' : σ} (h : step a s = some s') : run step [a] s = some s' :=
  run_cons_eq_some.mpr ⟨s', h, rfl⟩

theorem run_append (as bs : List α) (s : σ) :
    run step (as ++ bs) s = (run step as s).bind (run step bs) := by
  induction as generalizing s with
  | nil => rfl
  | cons a as ih =>
    rw [List.cons_append, run, run, Option.bind_assoc]
    exact congrArg (Option.bind (step a s)) (funext ih)

/-- **The simulation rule.** What each step keeps between a state and its specification is
kept by a run, against the specification's run. -/
theorem run_simulates {τ : Type} {R : σ → τ → Prop} {spec : τ → α → τ}
    (sim : ∀ {a s s' t}, R s t → step a s = some s' → R s' (spec t a)) {as : List α} {s s' : σ}
    {t : τ} (hR : R s t) (h : run step as s = some s') : R s' (as.foldl spec t) := by
  induction as generalizing s t with
  | nil =>
    cases h
    exact hR
  | cons a as ih =>
    obtain ⟨s₁, hstep, hrest⟩ := run_cons_eq_some.mp h
    exact ih (sim hR hstep) hrest

theorem allSteps_of_mem {as : List α} (h : ∀ a ∈ as, ∀ s, Ok a s) (s : σ) :
    AllSteps step Ok as s := by
  induction as generalizing s with
  | nil => trivial
  | cons a as ih =>
    rw [List.forall_mem_cons] at h
    exact ⟨h.1 s, fun s' _ => ih h.2 s'⟩

theorem allSteps_of_forall (h : ∀ a s, Ok a s) (as : List α) (s : σ) : AllSteps step Ok as s :=
  allSteps_of_mem (fun a _ => h a) s

/-- One run after another. -/
theorem AllSteps.append {as bs : List α} {s s' : σ} (has : AllSteps step Ok as s)
    (hrun : run step as s = some s') (hbs : AllSteps step Ok bs s') :
    AllSteps step Ok (as ++ bs) s := by
  induction as generalizing s with
  | nil =>
    cases hrun
    exact hbs
  | cons a as ih =>
    rw [run] at hrun
    refine ⟨has.1, fun s₁ h₁ => ih (has.2 s₁ h₁) ?_⟩
    rwa [h₁] at hrun

/-- With what the first step leads to. -/
theorem AllSteps.cons {a : α} {as : List α} {s s' : σ} (hok : Ok a s) (hstep : step a s = some s')
    (hrest : AllSteps step Ok as s') : AllSteps step Ok (a :: as) s := by
  refine ⟨hok, fun s₁ h₁ => ?_⟩
  cases hstep.symm.trans h₁
  exact hrest

/-- **The invariant rule**, for a run whose steps are all fine. -/
theorem run_keeps (keep : ∀ {a s s'}, J s → Ok a s → step a s = some s' → J s') {as : List α}
    {s s' : σ} (hJ : J s) (hok : AllSteps step Ok as s) (h : run step as s = some s') : J s' := by
  induction as generalizing s with
  | nil =>
    cases h
    exact hJ
  | cons a as ih =>
    obtain ⟨s₁, hstep, hrest⟩ := run_cons_eq_some.mp h
    exact ih (keep hJ hok.1 hstep) (hok.2 s₁ hstep) hrest

/-- The invariant rule, for what every step keeps. -/
theorem run_invariant (keep : ∀ {a s s'}, J s → step a s = some s' → J s') {as : List α} {s s' : σ}
    (hJ : J s) (h : run step as s = some s') : J s' := by
  have hok : AllSteps step (fun _ _ => True) as s := allSteps_of_forall (fun _ _ => trivial) as s
  exact run_keeps (fun h _ => keep h) hJ hok h

/-- **The counting rule.** A number that goes up by one with every counted step, and by
nothing else, counts them. -/
theorem run_counts {c : α → σ → Bool} {f : σ → Nat}
    (keep : ∀ {a s s'}, J s → step a s = some s' → J s')
    (count : ∀ {a s s'}, J s → step a s = some s' → f s' = f s + if c a s then 1 else 0)
    {as : List α} {s s' : σ} (hJ : J s) (h : run step as s = some s') :
    f s' = f s + countSteps step c as s := by
  induction as generalizing s with
  | nil =>
    cases h
    rfl
  | cons a as ih =>
    obtain ⟨s₁, hstep, hrest⟩ := run_cons_eq_some.mp h
    rw [ih (keep hJ hstep) hrest, count hJ hstep, countSteps, hstep]
    exact Nat.add_assoc _ _ _

/-- **The adding rule.** A quantity to which every step adds what its input says. -/
theorem run_adds {M : Type} [AddMonoid M] {f : σ → M} {g : α → M}
    (keep : ∀ {a s s'}, J s → step a s = some s' → J s')
    (add : ∀ {a s s'}, J s → step a s = some s' → f s' = f s + g a) {as : List α} {s s' : σ}
    (hJ : J s) (h : run step as s = some s') : f s' = f s + (as.map g).sum := by
  induction as generalizing s with
  | nil =>
    cases h
    rw [List.map_nil, List.sum_nil, add_zero]
  | cons a as ih =>
    obtain ⟨s₁, hstep, hrest⟩ := run_cons_eq_some.mp h
    rw [ih (keep hJ hstep) hrest, add hJ hstep, List.map_cons, List.sum_cons, add_assoc]

/-- **The property holds all along the run exactly when every step is fine.** `J` is what the
good steps keep; a bad step shows at once. -/
theorem prefixes_iff (weaken : ∀ {s}, J s → P s)
    (keep : ∀ {a s s'}, J s → W a → Ok a s → step a s = some s' → J s')
    (break_ : ∀ {a s}, J s → W a → ¬ Ok a s → ∃ s', step a s = some s' ∧ ¬ P s')
    {as : List α} {s : σ} (hJ : J s) (hW : ∀ a ∈ as, W a) :
    (∀ pre s', pre <+: as → run step pre s = some s' → P s') ↔ AllSteps step Ok as s := by
  induction as generalizing s with
  | nil =>
    refine iff_of_true (fun pre s' hpre hrun => ?_) trivial
    rw [List.prefix_nil.mp hpre] at hrun
    cases hrun
    exact weaken hJ
  | cons a as ih =>
    have hWa : W a := hW a (by simp)
    have hWas : ∀ b ∈ as, W b := fun b hb => hW b (by simp [hb])
    constructor
    · intro hall
      have hok : Ok a s := by
        by_contra hbad
        -- the run that ends with the bad step is one of the prefixes
        obtain ⟨s', hstep, hlost⟩ := break_ hJ hWa hbad
        exact hlost (hall [a] s' (by simp) (run_cons_eq_some.mpr ⟨s', hstep, rfl⟩))
      refine ⟨hok, fun s₁ hstep => (ih (keep hJ hWa hok hstep) hWas).mp fun pre s' hpre hrun => ?_⟩
      exact hall (a :: pre) s' (List.cons_prefix_cons.mpr ⟨rfl, hpre⟩)
        (run_cons_eq_some.mpr ⟨s₁, hstep, hrun⟩)
    · rintro ⟨hok, hrest⟩ pre s' hpre hrun
      cases pre with
      | nil =>
        cases hrun
        exact weaken hJ
      | cons b pre =>
        obtain ⟨rfl, hpre'⟩ := List.cons_prefix_cons.mp hpre
        obtain ⟨s₁, hstep, hrun'⟩ := run_cons_eq_some.mp hrun
        exact (ih (keep hJ hWa hok hstep) hWas).mpr (hrest s₁ hstep) pre s' hpre' hrun'

end

/-! ## Steps that answer -/

section

variable {β τ : Type}

/-- The answers of a run, and the state after it. -/
def answers (step : α → σ → β × σ) : List α → σ → List β × σ
  | [], s => ([], s)
  | a :: as, s => ((step a s).1 :: (answers step as (step a s).2).1,
      (answers step as (step a s).2).2)

/-- **The simulation rule**, for answers: if every step answers as the specification does and
stays in the relation, so does a run. `Ok` is what the specification asks of the inputs. -/
theorem answers_simulates {step : α → σ → β × σ} {spec : α → τ → β × τ} {R : σ → τ → Prop}
    {Ok : α → τ → Prop}
    (sim : ∀ {a s t}, R s t → Ok a t →
      (step a s).1 = (spec a t).1 ∧ R (step a s).2 (spec a t).2) {as : List α} {s : σ} {t : τ}
    (hR : R s t) (hok : AllSteps (fun a t => some (spec a t).2) Ok as t) :
    (answers step as s).1 = (answers spec as t).1 ∧
      R (answers step as s).2 (answers spec as t).2 := by
  induction as generalizing s t with
  | nil => exact ⟨rfl, hR⟩
  | cons a as ih =>
    obtain ⟨hanswer, hnext⟩ := sim hR hok.1
    obtain ⟨hrest, hend⟩ := ih hnext (hok.2 _ rfl)
    refine ⟨?_, hend⟩
    rw [answers, answers, hanswer, hrest]

end

/-! ## Steps that give something out -/

section

variable {β : Type}

/-- The outputs of a run, and the state after it. -/
def emits (step : α → σ → Option (List β × σ)) : List α → σ → Option (List β × σ)
  | [], s => some ([], s)
  | a :: as, s => do
    let (out, s) ← step a s
    let (outs, s) ← emits step as s
    return (out ++ outs, s)

variable {step : α → σ → Option (List β × σ)} {a : α} {as bs : List α} {s s' : σ}
  {outs : List β}

theorem emits_cons_eq_some :
    emits step (a :: as) s = some (outs, s') ↔ ∃ out s₁ rest,
      step a s = some (out, s₁) ∧ emits step as s₁ = some (rest, s') ∧ outs = out ++ rest := by
  rw [emits]
  cases hstep : step a s with
  | none => simp
  | some r =>
    obtain ⟨out, s₁⟩ := r
    cases hrest : emits step as s₁ with
    | none => simp [hrest]
    | some r' =>
      simp only [hrest, bind, Option.bind_some, pure, Option.some.injEq, Prod.mk.injEq]
      constructor
      · rintro ⟨rfl, rfl⟩
        exact ⟨out, s₁, r'.1, ⟨rfl, rfl⟩, hrest, rfl⟩
      · rintro ⟨_, _, _, ⟨rfl, rfl⟩, h, rfl⟩
        rw [hrest] at h
        cases h
        exact ⟨rfl, rfl⟩

theorem emits_append_eq_some :
    emits step (as ++ bs) s = some (outs, s') ↔ ∃ before s₁ rest,
      emits step as s = some (before, s₁) ∧ emits step bs s₁ = some (rest, s') ∧
        outs = before ++ rest := by
  induction as generalizing s outs with
  | nil =>
    constructor
    · intro h
      exact ⟨[], s, outs, rfl, h, rfl⟩
    · rintro ⟨_, _, rest, h, hrest, rfl⟩
      cases h
      exact hrest
  | cons a as ih =>
    constructor
    · intro h
      obtain ⟨out, s₁, rest, hstep, hrest, rfl⟩ := emits_cons_eq_some.mp h
      obtain ⟨mid, s₂, last, hmid, hlast, rfl⟩ := ih.mp hrest
      exact ⟨out ++ mid, s₂, last, emits_cons_eq_some.mpr ⟨out, s₁, mid, hstep, hmid, rfl⟩, hlast,
        (List.append_assoc _ _ _).symm⟩
    · rintro ⟨before, s₂, last, hbefore, hlast, rfl⟩
      obtain ⟨out, s₁, mid, hstep, hmid, rfl⟩ := emits_cons_eq_some.mp hbefore
      exact emits_cons_eq_some.mpr ⟨out, s₁, mid ++ last, hstep,
        ih.mpr ⟨mid, s₂, last, hmid, hlast, rfl⟩, List.append_assoc _ _ _⟩

/-- **The invariant rule**, for a relation between the outputs so far and the state. -/
theorem emits_keeps {I : List β → σ → Prop}
    (keep : ∀ {before a s out s₁}, I before s → step a s = some (out, s₁) →
      I (before ++ out) s₁) {before : List β} (hI : I before s)
    (h : emits step as s = some (outs, s')) : I (before ++ outs) s' := by
  induction as generalizing s before outs with
  | nil =>
    cases h
    rw [List.append_nil]
    exact hI
  | cons a as ih =>
    obtain ⟨out, s₁, rest, hstep, hrest, rfl⟩ := emits_cons_eq_some.mp h
    rw [← List.append_assoc]
    exact ih (keep hI hstep) hrest

/-- **The recording rule.** What gives out its inputs gives out all of them, in their order. -/
theorem emits_records {f : β → α}
    (record : ∀ {a s out s₁}, step a s = some (out, s₁) → out.map f = [a])
    (h : emits step as s = some (outs, s')) : outs.map f = as := by
  induction as generalizing s outs with
  | nil =>
    cases h
    rfl
  | cons a as ih =>
    obtain ⟨out, s₁, rest, hstep, hrest, rfl⟩ := emits_cons_eq_some.mp h
    rw [List.map_append, record hstep, ih hrest]
    rfl

/-- **Nothing gets stuck**: a run ends if the relation lets every step be made. -/
theorem emits_total {I : List β → σ → Prop} {W : α → Prop}
    (keep : ∀ {before a s out s₁}, I before s → step a s = some (out, s₁) →
      I (before ++ out) s₁)
    (total : ∀ {before a s}, I before s → W a → (step a s).isSome) {before : List β}
    (hI : I before s) (hW : ∀ a ∈ as, W a) : (emits step as s).isSome := by
  induction as generalizing s before with
  | nil => rfl
  | cons a as ih =>
    obtain ⟨⟨out, s₁⟩, hstep⟩ := Option.isSome_iff_exists.mp (total hI (hW a (by simp)))
    obtain ⟨⟨rest, s'⟩, hrest⟩ := Option.isSome_iff_exists.mp
      (ih (keep hI hstep) fun b hb => hW b (by simp [hb]))
    exact Option.isSome_iff_exists.mpr
      ⟨(out ++ rest, s'), emits_cons_eq_some.mpr ⟨out, s₁, rest, hstep, hrest, rfl⟩⟩

end

end TokuQa.Lib
