import Mathlib.Data.List.Basic
import Mathlib.Data.List.Count
import Mathlib.Logic.Function.Basic
import Mathlib.Order.Nat
import TokuQa.Lib.Txn

/-!
# Work that starts over when a statement fails

A connection with autocommit off executes statements, of which some fail: which of the executions
to come do is a list (`fails`), behind whose end none does. A failure rolls back what is open.
`restart` executes the statements of a piece of work and commits them; after a failure it starts
over, with statements that may be others each time (they are numbered by the failures before
them).

Whatever fails, what is committed in the end is one piece of work, done once
(`restart_eq_some`); and there is an end if the statements themselves are in order
(`restart_ends`). The same holds of pieces that are worked through one after another
(`restartEach_eq_some`, `restartEach_ends`).
-/

set_option autoImplicit false

namespace TokuQa.Lib

variable {σ : Type}

/-- The connection, the failures to come and the number of those behind it. -/
structure Loading (σ : Type) where
  conn : Conn σ
  fails : List Bool
  failed : Nat

namespace Loading

/-- Nothing is open. -/
def Idle (s : Loading σ) : Prop := s.conn.working = s.conn.committed

def commit (s : Loading σ) : Loading σ := { s with conn := s.conn.commit }

/-- An execution of the statement `f`, which is `none` where the server refuses it. -/
def execute (f : σ → Option σ) (s : Loading σ) : Bool × Loading σ :=
  match s.fails.headD false, f s.conn.working with
  | false, some t => (true, ⟨⟨s.conn.committed, t⟩, s.fails.tail, s.failed⟩)
  | _, _ => (false, ⟨s.conn.rollback, s.fails.tail, s.failed + 1⟩)

/-- The statements one after another, up to one that fails. -/
def executeAll : List (σ → Option σ) → Loading σ → Bool × Loading σ
  | [], s => (true, s)
  | f :: fs, s =>
    match execute f s with
    | (true, s) => executeAll fs s
    | (false, s) => (false, s)

/-- The work is done and committed; `fuel` is the number of times it may start. -/
def restart (work : Nat → List (σ → Option σ)) : Nat → Loading σ → Option (Loading σ)
  | 0, _ => none
  | fuel + 1, s =>
    match executeAll (work s.failed) s with
    | (true, s) => some s.commit
    | (false, s) => restart work fuel s

/-- The pieces of work one after another. -/
def restartEach {α : Type} (work : α → Nat → List (σ → Option σ)) (fuel : Nat) :
    List α → Loading σ → Option (Loading σ)
  | [], s => some s
  | a :: as, s => (restart (work a) fuel s).bind (restartEach work fuel as)

/-- What the statements do when none of them fails. -/
def applyAll (fs : List (σ → Option σ)) (t : σ) : Option σ := fs.foldlM (fun t f => f t) t

section

variable {f : σ → Option σ} {fs : List (σ → Option σ)} {work : Nat → List (σ → Option σ)}
  {s s' : Loading σ} {t : σ} {fuel : Nat}

theorem applyAll_append (fs gs : List (σ → Option σ)) (t : σ) :
    applyAll (fs ++ gs) t = (applyAll fs t).bind (applyAll gs) := List.foldlM_append

theorem execute_eq_true (h : execute f s = (true, s')) :
    f s.conn.working = some s'.conn.working ∧ s'.conn.committed = s.conn.committed ∧
      s'.fails.count true ≤ s.fails.count true := by
  unfold execute at h
  split at h
  · next t _ hf =>
    cases h
    exact ⟨hf, rfl, (List.tail_sublist _).count_le true⟩
  · cases h

theorem execute_eq_false (h : execute f s = (false, s')) :
    s'.conn = s.conn.rollback ∧ s'.fails.count true ≤ s.fails.count true ∧
      ((f s.conn.working).isSome → s'.fails.count true < s.fails.count true) := by
  unfold execute at h
  split at h
  · cases h
  · next hnot =>
    cases h
    refine ⟨rfl, (List.tail_sublist _).count_le true, fun hsome => ?_⟩
    obtain ⟨t, ht⟩ := Option.isSome_iff_exists.mp hsome
    cases hfails : s.fails with
    | nil => exact absurd ht (hnot t (by rw [hfails]; rfl))
    | cons b bs =>
      cases b with
      | false => exact absurd ht (hnot t (by rw [hfails]; rfl))
      | true => simp

theorem executeAll_eq_true (h : executeAll fs s = (true, s')) :
    applyAll fs s.conn.working = some s'.conn.working ∧ s'.conn.committed = s.conn.committed ∧
      s'.fails.count true ≤ s.fails.count true := by
  induction fs generalizing s with
  | nil =>
    cases h
    exact ⟨rfl, rfl, le_refl _⟩
  | cons f fs ih =>
    rw [executeAll] at h
    cases hf : execute f s with
    | mk ok s₁ =>
      rw [hf] at h
      cases ok with
      | false => cases h
      | true =>
        obtain ⟨hfirst, hcommitted, hcount⟩ := execute_eq_true hf
        obtain ⟨hrest, hcommitted', hcount'⟩ := ih h
        refine ⟨?_, hcommitted'.trans hcommitted, hcount'.trans hcount⟩
        rw [applyAll, List.foldlM_cons, hfirst]
        exact hrest

theorem executeAll_eq_false (h : executeAll fs s = (false, s')) :
    s'.conn = s.conn.rollback ∧
      ((applyAll fs s.conn.working).isSome → s'.fails.count true < s.fails.count true) := by
  induction fs generalizing s with
  | nil => cases h
  | cons f fs ih =>
    rw [executeAll] at h
    rw [applyAll, List.foldlM_cons]
    cases hf : execute f s with
    | mk ok s₁ =>
      rw [hf] at h
      cases ok with
      | false =>
        cases h
        obtain ⟨hconn, -, hcount⟩ := execute_eq_false hf
        refine ⟨hconn, fun hsome => hcount ?_⟩
        cases happly : f s.conn.working with
        | none => rw [happly] at hsome; cases hsome
        | some t => rfl
      | true =>
        obtain ⟨hfirst, hcommitted, hcount⟩ := execute_eq_true hf
        obtain ⟨hconn, hrest⟩ := ih h
        refine ⟨?_, fun hsome => ?_⟩
        · rw [hconn, Conn.rollback, Conn.rollback, hcommitted]
        · rw [hfirst] at hsome
          exact (hrest hsome).trans_le hcount

/-- **What is committed** in the end is the work, done once. -/
theorem restart_eq_some (hidle : s.Idle) (h : restart work fuel s = some s') :
    s'.Idle ∧ ∃ k, applyAll (work k) s.conn.committed = some s'.conn.committed := by
  induction fuel generalizing s with
  | zero => cases h
  | succ fuel ih =>
    rw [restart] at h
    cases hall : executeAll (work s.failed) s with
    | mk ok s₁ =>
      rw [hall] at h
      cases ok with
      | true =>
        cases h
        obtain ⟨happly, -, -⟩ := executeAll_eq_true hall
        rw [hidle] at happly
        exact ⟨rfl, s.failed, happly⟩
      | false =>
        obtain ⟨hconn, -⟩ := executeAll_eq_false hall
        have hidle₁ : s₁.Idle := by rw [Idle, hconn]; rfl
        obtain ⟨hidle', k, hk⟩ := ih hidle₁ h
        rw [hconn] at hk
        exact ⟨hidle', k, hk⟩

/-- **There is an end**: each start that fails uses up a failure. -/
theorem restart_ends (hidle : s.Idle) (hwork : ∀ k, (applyAll (work k) s.conn.committed).isSome)
    (hfuel : s.fails.count true < fuel) :
    ∃ s', restart work fuel s = some s' ∧ s'.fails.count true ≤ s.fails.count true := by
  induction fuel generalizing s with
  | zero => exact absurd hfuel (Nat.not_lt_zero _)
  | succ fuel ih =>
    rw [restart]
    cases hall : executeAll (work s.failed) s with
    | mk ok s₁ =>
      cases ok with
      | true =>
        obtain ⟨-, -, hcount⟩ := executeAll_eq_true hall
        exact ⟨s₁.commit, rfl, hcount⟩
      | false =>
        obtain ⟨hconn, hcount⟩ := executeAll_eq_false hall
        have hless := hcount (by rw [hidle]; exact hwork _)
        have hidle₁ : s₁.Idle := by rw [Idle, hconn]; rfl
        obtain ⟨s', hs', hcount'⟩ := ih hidle₁ (by rw [hconn]; exact hwork) (by omega)
        exact ⟨s', hs', hcount'.trans hless.le⟩

end

/-! ## Pieces one after another -/

section

variable {α : Type} [DecidableEq α] {work : α → Nat → List (σ → Option σ)} {as : List α}
  {s s' : Loading σ} {fuel : Nat}

/-- Another choice for `a` does not change the work of the others. -/
theorem flatMap_update {a : α} (ha : a ∉ as) (k : α → Nat) (n : Nat) :
    (as.flatMap fun b => work b (Function.update k a n b)) = as.flatMap fun b => work b (k b) := by
  refine List.flatMap_congr fun b hb => ?_
  have hne : b ≠ a := fun he => ha (he ▸ hb)
  rw [Function.update_of_ne hne]

/-- What is committed in the end is each piece, done once. -/
theorem restartEach_eq_some (hnd : as.Nodup) (hidle : s.Idle)
    (h : restartEach work fuel as s = some s') :
    s'.Idle ∧ ∃ k : α → Nat, applyAll (as.flatMap fun a => work a (k a)) s.conn.committed =
      some s'.conn.committed := by
  induction as generalizing s with
  | nil =>
    cases h
    exact ⟨hidle, fun _ => 0, rfl⟩
  | cons a as ih =>
    obtain ⟨ha, hnd⟩ := List.nodup_cons.mp hnd
    obtain ⟨s₁, hfirst, hrest⟩ := Option.bind_eq_some_iff.mp h
    obtain ⟨hidle₁, n, hn⟩ := restart_eq_some hidle hfirst
    obtain ⟨hidle', k, hk⟩ := ih hnd hidle₁ hrest
    refine ⟨hidle', Function.update k a n, ?_⟩
    rw [List.flatMap_cons, Function.update_self, flatMap_update ha, applyAll_append, hn]
    exact hk

/-- There is an end if the pieces are in order, whichever statements each is done with. -/
theorem restartEach_ends (hnd : as.Nodup) (hidle : s.Idle)
    (hwork : ∀ k : α → Nat,
      (applyAll (as.flatMap fun a => work a (k a)) s.conn.committed).isSome)
    (hfuel : s.fails.count true < fuel) :
    ∃ s', restartEach work fuel as s = some s' ∧ s'.fails.count true ≤ s.fails.count true := by
  induction as generalizing s with
  | nil => exact ⟨s, rfl, le_refl _⟩
  | cons a as ih =>
    obtain ⟨ha, hnd⟩ := List.nodup_cons.mp hnd
    have hfirst : ∀ n, (applyAll (work a n) s.conn.committed).isSome := by
      intro n
      have hall := hwork fun _ => n
      rw [List.flatMap_cons, applyAll_append] at hall
      exact Option.isSome_of_isSome_bind hall
    obtain ⟨s₁, hs₁, hcount⟩ := restart_ends hidle hfirst hfuel
    obtain ⟨hidle₁, n, hn⟩ := restart_eq_some hidle hs₁
    have hrest : ∀ k : α → Nat,
        (applyAll (as.flatMap fun a => work a (k a)) s₁.conn.committed).isSome := by
      intro k
      have hall := hwork (Function.update k a n)
      rwa [List.flatMap_cons, Function.update_self, flatMap_update ha, applyAll_append, hn] at hall
    obtain ⟨s', hs', hcount'⟩ := ih hnd hidle₁ hrest (hcount.trans_lt hfuel)
    exact ⟨s', by rw [restartEach, hs₁]; exact hs', hcount'.trans hcount⟩

end

end Loading

end TokuQa.Lib
