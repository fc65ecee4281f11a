import Mathlib.Data.List.Basic

/-!
# Operations one after another, until one throws

Each operation takes the state on, or throws and leaves it. The environment can make one of them
throw as well, the `k`th from 0. The operations behind one that throws are not reached, and what
those before it did stays: to take it back is their caller's business.
-/

set_option autoImplicit false

namespace TokuQa.Lib

variable {σ : Type}

/-- If all operations were done, and the state they leave. -/
def perform : List (σ → Option σ) → Option Nat → σ → Bool × σ
  | [], _, s => (true, s)
  | op :: ops, thrown, s =>
    if thrown = some 0 then (false, s)
    else
      match op s with
      | none => (false, s)
      | some s' => perform ops (thrown.map (· - 1)) s'

/-- Nothing is thrown at the `j`th operation or before it. -/
def Passes (thrown : Option Nat) (j : Nat) : Prop := ∀ k, thrown = some k → j < k

/-- Nothing is thrown at any of `n` operations. -/
def Completes (thrown : Option Nat) (n : Nat) : Prop := ∀ k, thrown = some k → n ≤ k

/-- What is done of so many. -/
def reached {α : Type} : Option Nat → List α → List α
  | none, as => as
  | some k, as => as.take k

instance (thrown : Option Nat) (j : Nat) : Decidable (Passes thrown j) :=
  match thrown with
  | none => isTrue fun _ h => nomatch h
  | some k => decidable_of_iff (j < k)
      ⟨fun h _ hk => Option.some.inj hk ▸ h, fun h => h k rfl⟩

variable {ops : List (σ → Option σ)} {op : σ → Option σ} {s s' : σ} {thrown : Option Nat} {j : Nat}

theorem passes_zero_iff : Passes thrown 0 ↔ thrown ≠ some 0 := by
  constructor
  · intro h hzero
    exact absurd (h 0 hzero) (Nat.lt_irrefl 0)
  · intro h k hk
    refine Nat.pos_of_ne_zero fun hzero => h ?_
    rw [hk, hzero]

theorem Passes.of_succ (h : Passes thrown (j + 1)) : Passes thrown j :=
  fun k hk => Nat.lt_of_succ_lt (h k hk)

/-- The operation is so many further on. -/
theorem passes_sub_iff {n : Nat} : Passes (thrown.map (· - n)) j ↔ Passes thrown (n + j) := by
  cases thrown with
  | none => exact iff_of_true (fun _ h => nomatch h) fun _ h => nomatch h
  | some k =>
    simp only [Passes, Option.map_some, Option.some.injEq, forall_eq']
    omega

theorem completes_succ_iff {n : Nat} :
    Completes thrown (n + 1) ↔ Passes thrown 0 ∧ Completes (thrown.map (· - 1)) n := by
  cases thrown with
  | none => exact iff_of_true nofun ⟨nofun, nofun⟩
  | some k =>
    simp only [Completes, Passes, Option.map_some, Option.some.injEq, forall_eq']
    omega

theorem perform_cons (op : σ → Option σ) (h : Passes thrown 0) (hop : op s = some s') :
    perform (op :: ops) thrown s = perform ops (thrown.map (· - 1)) s' := by
  rw [perform, if_neg (passes_zero_iff.mp h), hop]

theorem perform_thrown (h : ¬ Passes thrown 0) : perform (op :: ops) thrown s = (false, s) := by
  rw [perform, if_pos (not_not.mp fun hne => h (passes_zero_iff.mpr hne))]

theorem reached_nil {α : Type} : reached thrown ([] : List α) = [] := by
  cases thrown with
  | none => rfl
  | some k => exact List.take_nil

theorem reached_cons {α : Type} {a : α} {as : List α} (h : Passes thrown 0) :
    reached thrown (a :: as) = a :: reached (thrown.map (· - 1)) as := by
  cases thrown with
  | none => rfl
  | some k =>
    obtain ⟨k, rfl⟩ := Nat.exists_eq_succ_of_ne_zero (Nat.ne_of_gt (h k rfl))
    rfl

theorem reached_of_not_passes {α : Type} {as : List α} (h : ¬ Passes thrown 0) :
    reached thrown as = [] := by
  have hthrown : thrown = some 0 := not_not.mp fun hne => h (passes_zero_iff.mpr hne)
  rw [hthrown]
  rfl

theorem perform_some_zero : (perform ops (some 0) s).2 = s := by
  cases ops with
  | nil => rfl
  | cons => rfl

/-- Operations that change nothing only put off what comes. -/
theorem perform_reads {reads : List (σ → Option σ)} (hreads : ∀ op ∈ reads, ∀ s, op s = some s) :
    (perform (reads ++ ops) thrown s).2 = (perform ops (thrown.map (· - reads.length)) s).2 := by
  induction reads generalizing thrown with
  | nil =>
    cases thrown <;> rfl
  | cons op reads ih =>
    rw [List.forall_mem_cons] at hreads
    by_cases hzero : Passes thrown 0
    · rw [List.cons_append, perform_cons op hzero (hreads.1 s), ih hreads.2, Option.map_map,
        List.length_cons]
      congr 3
      funext k
      simp only [Function.comp_apply]
      omega
    · have hthrown : thrown = some 0 := not_not.mp fun hne => hzero (passes_zero_iff.mpr hne)
      rw [List.cons_append, perform_thrown hzero, hthrown, Option.map_some, Nat.zero_sub]
      exact perform_some_zero.symm

end TokuQa.Lib
