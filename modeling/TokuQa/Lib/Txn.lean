import Mathlib.Init

/-!
# A transactional connection, statement faults, and the retry loop

A connection with autocommit off sees two versions of the database: the `committed` one,
which is what every other connection reads, and the `working` one, which its own statements
read and write. `COMMIT` publishes the second, a rollback drops it.

A program on such a connection is an `EStateM` computation over a `Session`: the connection
together with at most one **fault**, which strikes the statement it names the first time
that statement is reached. What the server undoes is part of the fault: the failed statement
only, or the whole open transaction.

`retry` is the loop `while (true) try { return body } catch { if (!transient) throw }`
over a finite list of faults, one per attempt, after which every attempt is left alone. It
is structural in that list, so it always ends.
-/

set_option autoImplicit false

namespace TokuQa.Lib

/-- The two versions of the database a connection with autocommit off works with. -/
structure Conn (σ : Type) where
  committed : σ
  working : σ
deriving DecidableEq

/-- What the server undoes when a statement fails. -/
inductive Undo where
  | statement
  | transaction
deriving DecidableEq

/-- A failure waiting for the statement `site`. -/
structure Fault (Site ε : Type) where
  site : Site
  undo : Undo
  error : ε

structure Session (Site ε σ : Type) where
  conn : Conn σ
  fault : Option (Fault Site ε)

/-- Programs on a connection: they return a value or throw, and keep the session. -/
abbrev Sql (Site ε σ α : Type) := EStateM ε (Session Site ε σ) α

namespace Conn

variable {σ : Type}

/-- A connection with no transaction open. -/
def idle (t : σ) : Conn σ := ⟨t, t⟩

def commit (c : Conn σ) : Conn σ := ⟨c.working, c.working⟩

def rollback (c : Conn σ) : Conn σ := ⟨c.committed, c.committed⟩

def undo (c : Conn σ) : Undo → Conn σ
  | .statement => c
  | .transaction => c.rollback

end Conn

section Statements

variable {Site ε σ α : Type} [DecidableEq Site]

/-- One statement: it fails if the session's fault names it, and reads and writes the
working tables otherwise. -/
def statement (site : Site) (f : σ → α × σ) : Sql Site ε σ α := fun s =>
  match s.fault with
  | some x =>
    if x.site = site then .error x.error { s with conn := s.conn.undo x.undo }
    else .ok (f s.conn.working).1 { s with conn := { s.conn with working := (f s.conn.working).2 } }
  | none =>
    .ok (f s.conn.working).1 { s with conn := { s.conn with working := (f s.conn.working).2 } }

/-- A statement whose result the caller drops. -/
def update (site : Site) (f : σ → σ) : Sql Site ε σ Unit := statement site fun t => ((), f t)

/-- `COMMIT`, itself a statement a fault can strike. -/
def commitWork (site : Site) : Sql Site ε σ Unit := fun s =>
  match s.fault with
  | some x =>
    if x.site = site then .error x.error { s with conn := s.conn.undo x.undo }
    else .ok () { s with conn := s.conn.commit }
  | none => .ok () { s with conn := s.conn.commit }

end Statements

/-! ## The retry loop -/

section Retry

variable {Site ε σ α : Type}

/-- The outcome of a call: its value or what it threw, and the connection it leaves. -/
inductive Outcome (ε σ α : Type) where
  | returned (value : α) (conn : Conn σ)
  | thrown (error : ε) (conn : Conn σ)

namespace Outcome

def conn : Outcome ε σ α → Conn σ
  | .returned _ c => c
  | .thrown _ c => c

/-- The result alone, of a call whose connection is not looked at again. -/
def toExcept : Outcome ε σ α → Except ε α
  | .returned v _ => .ok v
  | .thrown e _ => .error e

def value? : Outcome ε σ α → Option α
  | .returned v _ => some v
  | .thrown _ _ => none

end Outcome

/-- One attempt: the body from `c`, with the fault given. -/
def attempt (body : Sql Site ε σ α) (fault : Option (Fault Site ε)) (c : Conn σ) :
    Outcome ε σ α :=
  match body.run ⟨c, fault⟩ with
  | .ok v s => .returned v s.conn
  | .error e s => .thrown e s.conn

/-- The retry loop. Attempt `i` meets the `i`-th fault of the list; when the list is used
up the attempts are left alone. -/
def retry (transient : ε → Bool) (body : Sql Site ε σ α) :
    List (Fault Site ε) → Conn σ → Outcome ε σ α
  | [], c => attempt body none c
  | f :: fs, c =>
    match attempt body (some f) c with
    | .returned v c' => .returned v c'
    | .thrown e c' => if transient e then retry transient body fs c' else .thrown e c'

end Retry

/-! ## Straight-line scripts

Once a body has read what it branches on, it is a straight line of writes and commits. For
those the effect of a fault is settled here: a fault that names none of the statements spares
the attempt, and one that does stops it right before that statement. -/

inductive Step (Site σ : Type) where
  | write (site : Site) (f : σ → σ)
  | commit (site : Site)

section Script

variable {Site ε σ α : Type} [DecidableEq Site]

def Step.site : Step Site σ → Site
  | .write site _ => site
  | .commit site => site

def Step.apply : Step Site σ → Conn σ → Conn σ
  | .write _ f, c => { c with working := f c.working }
  | .commit _, c => c.commit

def Step.exec : Step Site σ → Sql Site ε σ Unit
  | .write site f => update site f
  | .commit site => commitWork site

def script (v : α) : List (Step Site σ) → Sql Site ε σ α
  | [] => pure v
  | x :: xs => x.exec >>= fun _ => script v xs

/-- What a script does when nothing fails. -/
def applied (xs : List (Step Site σ)) (c : Conn σ) : Conn σ := xs.foldl (fun c x => x.apply c) c

theorem Step.exec_spared {x : Step Site σ} {s : Session Site ε σ}
    (h : ∀ f, s.fault = some f → x.site ≠ f.site) :
    x.exec s = .ok () { s with conn := x.apply s.conn } := by
  obtain ⟨c, fault⟩ := s
  cases fault with
  | none => cases x <;> rfl
  | some f =>
    have hne : f.site ≠ x.site := fun e => h f rfl e.symm
    cases x <;> simp_all [Step.exec, Step.apply, Step.site, update, statement, commitWork]

theorem Step.exec_struck {x : Step Site σ} {f : Fault Site ε} {c : Conn σ} (h : x.site = f.site) :
    x.exec ⟨c, some f⟩ = .error f.error ⟨c.undo f.undo, some f⟩ := by
  cases x <;> simp_all [Step.exec, Step.site, update, statement, commitWork]

theorem script_cons (v : α) (x : Step Site σ) (xs : List (Step Site σ)) (s : Session Site ε σ) :
    script v (x :: xs) s = match x.exec s with
      | .ok _ s' => script v xs s'
      | .error e s' => .error e s' := by
  rw [script]
  simp only [bind, EStateM.bind]
  cases x.exec s <;> rfl

theorem attempt_script_spared {v : α} {xs : List (Step Site σ)} {fault : Option (Fault Site ε)}
    {c : Conn σ} (h : ∀ f, fault = some f → f.site ∉ xs.map Step.site) :
    attempt (script v xs) fault c = .returned v (applied xs c) := by
  induction xs generalizing c with
  | nil => rfl
  | cons x xs ih =>
    have hx : ∀ f, fault = some f → x.site ≠ f.site := by
      intro f hf he
      exact h f hf (by simp [he])
    have hxs := ih (c := x.apply c) fun f hf hm => h f hf (by simp [hm])
    unfold attempt EStateM.run at hxs ⊢
    rw [script_cons, Step.exec_spared hx]
    exact hxs

theorem attempt_script_struck {v : α} {xs : List (Step Site σ)} {f : Fault Site ε} {c : Conn σ}
    (h : f.site ∈ xs.map Step.site) :
    attempt (script v xs) (some f) c =
      .thrown f.error ((applied (xs.takeWhile fun x => x.site ≠ f.site) c).undo f.undo) := by
  induction xs generalizing c with
  | nil => simp at h
  | cons x xs ih =>
    by_cases hx : x.site = f.site
    · unfold attempt EStateM.run
      rw [script_cons, Step.exec_struck hx]
      simp [hx, applied]
    · have hxs := ih (c := x.apply c) (by
        rcases List.mem_cons.mp h with he | hm
        · exact absurd he.symm hx
        · exact hm)
      unfold attempt EStateM.run at hxs ⊢
      rw [script_cons, Step.exec_spared fun g hg => by cases hg; exact hx]
      simpa [hx, applied] using hxs

/-! ### Writes, then at most one `COMMIT` at the end -/

/-- The script that makes the writes `ws` and then commits at `last`, if that is given. -/
def line (ws : List (Site × (σ → σ))) (last : Option Site) : List (Step Site σ) :=
  ws.map (fun w => .write w.1 w.2) ++ last.toList.map .commit

/-- The writes, applied in order. -/
def written (ws : List (Site × (σ → σ))) (t : σ) : σ := ws.foldl (fun t w => w.2 t) t

omit [DecidableEq Site] in
theorem applied_writes (ws : List (Site × (σ → σ))) (c : Conn σ) :
    applied (ws.map fun w => Step.write w.1 w.2) c = ⟨c.committed, written ws c.working⟩ := by
  induction ws generalizing c with
  | nil => rfl
  | cons w ws ih => exact ih ⟨c.committed, w.2 c.working⟩

omit [DecidableEq Site] in
theorem applied_line (ws : List (Site × (σ → σ))) (last : Option Site) (c : Conn σ) :
    applied (line ws last) c =
      if last.isSome then Conn.idle (written ws c.working)
      else ⟨c.committed, written ws c.working⟩ := by
  unfold line applied
  rw [List.foldl_append]
  have := applied_writes ws c
  unfold applied at this
  rw [this]
  cases last <;> rfl

omit [DecidableEq Site] in
theorem map_site_line (ws : List (Site × (σ → σ))) (last : Option Site) :
    (line ws last).map Step.site = ws.map Prod.fst ++ last.toList := by
  unfold line
  rw [List.map_append, List.map_map, List.map_map]
  congr 1
  cases last <;> rfl

/-- Nothing is committed before a statement of a line is reached. -/
theorem applied_line_takeWhile {ws : List (Site × (σ → σ))} {last : Option Site} {site : Site}
    (c : Conn σ) (h : site ∈ ws.map Prod.fst ++ last.toList) :
    applied ((line ws last).takeWhile fun x => x.site ≠ site) c =
      ⟨c.committed, written (ws.takeWhile fun w => w.1 ≠ site) c.working⟩ := by
  rw [← applied_writes]
  congr 1
  induction ws with
  | nil =>
    cases last with
    | none => simp at h
    | some s =>
      have : site = s := by simpa using h
      subst this
      simp [line, Step.site]
  | cons w ws ih =>
    by_cases hw : w.1 = site
    · simp [line, Step.site, hw]
    · have hmem : site ∈ ws.map Prod.fst ++ last.toList := by
        rw [List.map_cons, List.cons_append, List.mem_cons] at h
        exact h.resolve_left (Ne.symm hw)
      have hx : (decide ((Step.write w.1 w.2 : Step Site σ).site ≠ site)) = true :=
        decide_eq_true hw
      have hw' : (decide (w.1 ≠ site)) = true := decide_eq_true hw
      have hrest := ih hmem
      simp only [line, List.map_cons, List.cons_append] at hrest ⊢
      rw [List.takeWhile_cons, if_pos hx, List.takeWhile_cons, if_pos hw', hrest, List.map_cons]

end Script

end TokuQa.Lib
