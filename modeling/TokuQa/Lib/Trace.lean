import Mathlib.Data.List.Basic

/-!
# Procedures that leave a trace

A procedure is run for the list of states it passes through, one after each of its primitive
actions. So "at every point of the run" is a statement about the members of a list, and the
state a procedure ends in is the last of them.

`Keeps I f` is the invariant rule: from a state where `I` holds, it holds all along `f`. It is
closed under the ways procedures are put together; the `last_` lemmas compute the state a
procedure ends in the same way. `Appends rec f xs` does so for a record the state carries: a
loop appends what its bodies append.
-/

set_option autoImplicit false

namespace TokuQa.Lib

/-- The states passed through from a given one. -/
abbrev Proc (σ : Type) := σ → List σ

namespace Proc

variable {σ α : Type}

/-- The state at the end. -/
def last (f : Proc σ) (s : σ) : σ := (f s).getLastD s

def skip : Proc σ := fun _ => []

/-- One primitive action. -/
def prim (g : σ → σ) : Proc σ := fun s => [g s]

def seq (f g : Proc σ) : Proc σ := fun s => f s ++ g (f.last s)

/-- `for (x : xs) body(x)`. -/
def each (xs : List α) (body : α → Proc σ) : Proc σ :=
  match xs with
  | [] => skip
  | x :: xs => seq (body x) (each xs body)

/-- `if (c) f`, with the condition read from the state. -/
def when (c : σ → Bool) (f : Proc σ) : Proc σ := fun s => if c s then f s else []

/-! ## The state at the end -/

@[simp] theorem last_skip (s : σ) : (skip : Proc σ).last s = s := rfl

@[simp] theorem last_prim (g : σ → σ) (s : σ) : (prim g).last s = g s := rfl

@[simp] theorem last_seq (f g : Proc σ) (s : σ) : (seq f g).last s = g.last (f.last s) := by
  have happend : ∀ (xs ys : List σ) (a : σ),
      (xs ++ ys).getLastD a = ys.getLastD (xs.getLastD a) := by
    intro xs
    induction xs with
    | nil => intro ys a; rfl
    | cons x xs ih =>
      intro ys a
      rw [List.cons_append, List.getLastD_cons, List.getLastD_cons]
      exact ih ys x
  exact happend (f s) (g (f.last s)) s

theorem last_when (c : σ → Bool) (f : Proc σ) (s : σ) :
    (when c f).last s = if c s then f.last s else s := by
  unfold when last
  cases h : c s <;> simp [h]

/-! ## Records -/

/-- `f` adds `xs` at the end of a list the state carries. -/
def Appends {β : Type} (rec : σ → List β) (f : Proc σ) (xs : List β) : Prop :=
  ∀ s, rec (f.last s) = rec s ++ xs

section

variable {β : Type} {rec : σ → List β} {f g : Proc σ} {xs ys : List β}

theorem Appends.skip : Appends rec (skip : Proc σ) [] := fun s => (List.append_nil (rec s)).symm

theorem Appends.prim {a : σ → σ} (h : ∀ s, rec (a s) = rec s ++ xs) : Appends rec (prim a) xs := h

theorem Appends.seq (hf : Appends rec f xs) (hg : Appends rec g ys) :
    Appends rec (seq f g) (xs ++ ys) := by
  intro s
  rw [last_seq, hg, hf, List.append_assoc]

theorem Appends.each {body : α → Proc σ} {out : α → List β}
    (h : ∀ x, Appends rec (body x) (out x)) (as : List α) :
    Appends rec (each as body) (as.flatMap out) := by
  induction as with
  | nil => exact Appends.skip
  | cons a as ih => exact (h a).seq ih

theorem Appends.each_nil {body : α → Proc σ} (h : ∀ x, Appends rec (body x) []) (as : List α) :
    Appends rec (Proc.each as body) [] := by
  have hall := Appends.each h as
  rwa [List.flatMap_eq_nil_iff.mpr fun _ _ => rfl] at hall

theorem Appends.each_map {body : α → Proc σ} {out : α → β}
    (h : ∀ x, Appends rec (body x) [out x]) (as : List α) :
    Appends rec (Proc.each as body) (as.map out) := by
  have hall := Appends.each h as
  rwa [← List.map_eq_flatMap] at hall

/-- A conditional step that leaves the record alone. -/
theorem Appends.when_nil {c : σ → Bool} (h : Appends rec f []) : Appends rec (when c f) [] := by
  intro s
  rw [last_when]
  split
  · exact h s
  · exact (List.append_nil (rec s)).symm

end

/-! ## Invariants -/

/-- `I` holds all along `f`. -/
def Keeps (I : σ → Prop) (f : Proc σ) : Prop := ∀ s, I s → ∀ s' ∈ f s, I s'

variable {I : σ → Prop} {f g : Proc σ}

theorem Keeps.last (h : Keeps I f) {s : σ} (hs : I s) : I (f.last s) := by
  unfold Proc.last
  cases hf : f s with
  | nil => exact hs
  | cons x xs =>
    rw [List.getLastD_cons]
    refine h s hs _ ?_
    rw [hf]
    exact List.getLastD_mem_cons

theorem Keeps.skip : Keeps I (skip : Proc σ) := fun _ _ _ hs' => by cases hs'

theorem Keeps.prim {a : σ → σ} (h : ∀ s, I s → I (a s)) : Keeps I (prim a) := by
  intro s hs s' hs'
  rw [List.mem_singleton.mp hs']
  exact h s hs

theorem Keeps.seq (hf : Keeps I f) (hg : Keeps I g) : Keeps I (seq f g) := by
  intro s hs s' hs'
  rcases List.mem_append.mp hs' with h | h
  · exact hf s hs s' h
  · exact hg _ (hf.last hs) s' h

theorem Keeps.each {xs : List α} {body : α → Proc σ} (h : ∀ x, Keeps I (body x)) :
    Keeps I (each xs body) := by
  induction xs with
  | nil => exact Keeps.skip
  | cons x xs ih => exact (h x).seq ih

theorem Keeps.when {c : σ → Bool} (h : Keeps I f) : Keeps I (when c f) := by
  intro s hs s' hs'
  unfold Proc.when at hs'
  split at hs'
  · exact h s hs s' hs'
  · cases hs'

end Proc

end TokuQa.Lib
