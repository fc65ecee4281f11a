import TokuQa.Lib.Rows
import TokuQa.Lib.Run

/-!
# Steps that are about one component each

The inputs are marked with what they are about, or with who they come from: `sentTo` picks those
with one mark. If the state is made of components, and each step changes the one it is about, a
run is made of the runs of the components (`run_components`); in what order the inputs for
different ones come makes no difference.
-/

set_option autoImplicit false

namespace TokuQa.Lib

variable {ι α β σ : Type} [DecidableEq ι]

/-- The inputs with the mark. -/
def sentTo (i : ι) : List (ι × α) → List α
  | [] => []
  | (j, a) :: as => if j = i then a :: sentTo i as else sentTo i as

/-- A step changes its component. -/
def onComponent (step : α → σ → Option σ) (a : ι × α) (s : ι → σ) : Option (ι → σ) :=
  (step a.2 (s a.1)).map (Function.update s a.1)

theorem sentTo_cons_self (i : ι) (a : α) (as : List (ι × α)) :
    sentTo i ((i, a) :: as) = a :: sentTo i as := if_pos rfl

theorem sentTo_cons_ne {i j : ι} (hne : j ≠ i) (a : α) (as : List (ι × α)) :
    sentTo i ((j, a) :: as) = sentTo i as := if_neg hne

theorem sentTo_append (i : ι) (as bs : List (ι × α)) :
    sentTo i (as ++ bs) = sentTo i as ++ sentTo i bs := by
  induction as with
  | nil => rfl
  | cons x as ih =>
    obtain ⟨j, a⟩ := x
    rw [List.cons_append]
    by_cases hji : j = i
    · rw [hji, sentTo_cons_self, sentTo_cons_self, ih, List.cons_append]
    · rw [sentTo_cons_ne hji, sentTo_cons_ne hji, ih]

theorem sentTo_map (i j : ι) (as : List α) :
    sentTo i (as.map fun a => (j, a)) = if j = i then as else [] := by
  induction as with
  | nil => simp [sentTo]
  | cons a as ih =>
    rw [List.map_cons]
    by_cases hji : j = i
    · subst hji
      rw [if_pos rfl] at ih ⊢
      rw [sentTo_cons_self, ih]
    · rw [if_neg hji] at ih ⊢
      rw [sentTo_cons_ne hji, ih]

/-- One sender after the other. -/
def oneByOne {n : Nat} (streams : Fin n → List α) : List (Fin n × α) :=
  (List.finRange n).flatMap fun t => (streams t).map fun a => (t, a)

theorem sentTo_oneByOne {n : Nat} (streams : Fin n → List α) (t : Fin n) :
    sentTo t (oneByOne streams) = streams t := by
  have hpick : ∀ ts : List (Fin n), sentTo t (ts.flatMap fun t' => (streams t').map fun a => (t', a)) =
      ts.flatMap fun t' => if t' = t then streams t' else [] := by
    intro ts
    induction ts with
    | nil => rfl
    | cons t' ts ih => rw [List.flatMap_cons, List.flatMap_cons, sentTo_append, sentTo_map, ih]
  rw [oneByOne, hpick, Rows.flatMap_of_one (List.nodup_finRange n) (List.mem_finRange t)
    fun t' _ hne => if_neg hne, if_pos rfl]

theorem mem_sentTo {i : ι} {a : α} {as : List (ι × α)} (h : (i, a) ∈ as) : a ∈ sentTo i as := by
  induction as with
  | nil => cases h
  | cons x as ih =>
    obtain ⟨j, b⟩ := x
    by_cases hji : j = i
    · subst hji
      rw [sentTo_cons_self]
      rcases List.mem_cons.mp h with heq | hrest
      · cases heq
        exact List.mem_cons_self
      · exact List.mem_cons_of_mem b (ih hrest)
    · rw [sentTo_cons_ne hji]
      rcases List.mem_cons.mp h with heq | hrest
      · cases heq
        exact absurd rfl hji
      · exact ih hrest

/-- **The run of the whole**: each component has its own run, on what is sent to it. -/
theorem run_components {step : α → σ → Option σ} {as : List (ι × α)} {s s' : ι → σ}
    (h : ∀ i, run step (sentTo i as) (s i) = some (s' i)) :
    run (onComponent step) as s = some s' := by
  induction as generalizing s with
  | nil => exact congrArg some (funext fun i => Option.some.inj (h i))
  | cons x as ih =>
    obtain ⟨j, a⟩ := x
    have hj := h j
    rw [sentTo_cons_self] at hj
    obtain ⟨s₁, hstep, hrest⟩ := run_cons_eq_some.mp hj
    refine run_cons_eq_some.mpr ⟨Function.update s j s₁, ?_, ih fun i => ?_⟩
    · rw [onComponent, hstep, Option.map_some]
    · by_cases hji : i = j
      · rw [hji, Function.update_self]
        exact hrest
      · rw [Function.update_of_ne hji, ← h i, sentTo_cons_ne (Ne.symm hji)]

/-- What is made of the inputs of one sender, if the others send nothing of the kind. -/
theorem filterMap_sentTo {i : ι} {as : List (ι × α)} {f : α → Option β}
    (hothers : ∀ x ∈ as, x.1 ≠ i → f x.2 = none) :
    (as.map Prod.snd).filterMap f = (sentTo i as).filterMap f := by
  induction as with
  | nil => rfl
  | cons x as ih =>
    obtain ⟨j, a⟩ := x
    have hrest := ih fun y hy => hothers y (List.mem_cons_of_mem _ hy)
    rw [List.map_cons, List.filterMap_cons]
    by_cases hji : j = i
    · rw [hji, sentTo_cons_self, List.filterMap_cons, hrest]
    · rw [sentTo_cons_ne hji, hothers (j, a) List.mem_cons_self hji, hrest]

/-- What is sent to a component is made from the inputs one by one. -/
theorem sentTo_filterMap (i : ι) (read : β → Option (ι × α)) (bs : List β) :
    sentTo i (bs.filterMap read) =
      bs.filterMap fun b => (read b).bind fun x => if x.1 = i then some x.2 else none := by
  induction bs with
  | nil => rfl
  | cons b bs ih =>
    rw [List.filterMap_cons, List.filterMap_cons]
    cases read b with
    | none => exact ih
    | some x =>
      obtain ⟨j, a⟩ := x
      by_cases hji : j = i
      · simp only [hji, sentTo_cons_self, Option.bind_some, if_true, ih]
      · simp only [sentTo_cons_ne hji, Option.bind_some, hji, if_false, ih]

/-- Inputs that have to be read first. -/
theorem run_read {step : α → σ → Option σ} {read : β → Option α} {bs : List β}
    (hread : ∀ b ∈ bs, read b ≠ none) (s : σ) :
    run (fun b s => (read b).bind fun a => step a s) bs s = run step (bs.filterMap read) s := by
  induction bs generalizing s with
  | nil => rfl
  | cons b bs ih =>
    have hrest := ih fun b' hb' => hread b' (List.mem_cons_of_mem b hb')
    obtain ⟨a, ha⟩ := Option.ne_none_iff_exists'.mp (hread b List.mem_cons_self)
    rw [run, List.filterMap_cons_some ha, run, ha, Option.bind_some]
    exact congrArg (Option.bind (step a s)) (funext hrest)

end TokuQa.Lib
