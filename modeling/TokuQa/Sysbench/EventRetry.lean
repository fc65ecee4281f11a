import Mathlib.Algebra.BigOperators.Intervals
import Mathlib.Data.List.TakeWhile
import Mathlib.Tactic.Ring

/-!
# Events that are retried

`sb_lua_op_execute_request` calls the event of a script again while a query of it fails with one
of the three errors that `mysql_drv_query` takes for a deadlock. The server has rolled the
transaction back after a real deadlock only; after the other two it is still open, nobody ends
it, and the `BEGIN` of the next attempt commits what has been written so far.

A deadlock that comes with the result of a query is not even noticed: `sb_lua_db_query` drops
what `db_store_results` returns, and the event goes on without a transaction.

Which errors are harmless is said in `NoResidue` and `NoLoss`; the event of
`tokudb_oltp_valid.lua` is the one that looks like a damaged backup when they are not.
-/

set_option autoImplicit false

namespace TokuQa.Sysbench.EventRetry

/-! ## The server -/

/-- The error codes of the server. -/
inductive Errno where
  | lockDeadlock
  | lockWaitTimeout
  | checkread
  | other
deriving DecidableEq

/-- `db_error_t`. -/
inductive DbError where
  | none
  | deadlock
  | failed
deriving DecidableEq

/-- What the driver makes of an error. -/
def Errno.dbError : Errno → DbError
  | .lockDeadlock => .deadlock
  | .lockWaitTimeout => .deadlock
  | .checkread => .deadlock
  | .other => .failed

/-- The errors that are classified as `SB_DB_ERROR_DEADLOCK`. -/
abbrev LockError := { e : Errno // e.dbError = .deadlock }

/-- A connection: what is committed, and what its transaction sees if it has one. -/
structure Conn (σ : Type) where
  committed : σ
  transaction : Option σ
deriving DecidableEq

/-- The statements between `BEGIN` and `COMMIT`. An error can come with the result of a query; only
queries have one. -/
inductive Work (α : Type) where
  | select (result : Option LockError)
  | write (a : α)

inductive Stmt (α : Type) where
  | begin
  | commit
  | work (w : Work α)

/-- A statement that is sent, and the error that the server answers it with. -/
structure Query (α : Type) where
  stmt : Stmt α
  error : Option Errno

section

variable {σ : Type}

/-- A deadlock rolls the transaction back, the other errors undo the statement alone. -/
def Conn.undo (e : Errno) (c : Conn σ) : Conn σ :=
  if e = .lockDeadlock then { c with transaction := none } else c

/-- What the next transaction starts from. -/
def Conn.seen (c : Conn σ) : σ := c.transaction.getD c.committed

/-- `BEGIN` commits an open transaction; without one every write is committed at once. -/
def Stmt.exec : Stmt (σ → σ) → Conn σ → Conn σ
  | .begin, c => ⟨c.seen, some c.seen⟩
  | .commit, c => ⟨c.seen, none⟩
  | .work (.select _), c => c
  | .work (.write f), c =>
    match c.transaction with
    | some t => { c with transaction := some (f t) }
    | none => { c with committed := f c.committed }

/-! ## The client -/

def mysqlDrvQuery (q : Query (σ → σ)) (c : Conn σ) : DbError × Conn σ :=
  match q.error with
  | some e => (e.dbError, c.undo e)
  | none => (.none, q.stmt.exec c)

def mysqlDrvStoreResults (q : Query (σ → σ)) (c : Conn σ) : DbError × Conn σ :=
  match q.stmt with
  | .work (.select (some e)) => (e.val.dbError, c.undo e)
  | _ => (.none, c)

/-- What a script fails with: `SB_DB_RESTART_TRANSACTION`, or something else. -/
inductive LuaError where
  | restart
  | other

/-- `sb_lua_db_query`, with `db_query` and `db_store_results`. -/
def sbLuaDbQuery (q : Query (σ → σ)) (c : Conn σ) : Option LuaError × Conn σ :=
  match mysqlDrvQuery q c with
  | (.none, c) => (none, (mysqlDrvStoreResults q c).2)
  | (.deadlock, c) => (some .restart, c)
  | (.failed, c) => (some .other, c)

/-- The queries of an event, up to the first one that fails. -/
def event : List (Query (σ → σ)) → Conn σ → Option LuaError × Conn σ
  | [], c => (none, c)
  | q :: qs, c =>
    match sbLuaDbQuery q c with
    | (none, c) => event qs c
    | r => r

/-- The loop of `sb_lua_op_execute_request`, with the queries of one attempt after the other.
`none` is a loop that goes on after them. -/
def sbLuaOpExecuteRequest : List (List (Query (σ → σ))) → Conn σ → Option (Nat × Conn σ)
  | [], _ => none
  | attempt :: attempts, c =>
    match event attempt c with
    | (none, c) => some (0, c)
    | (some .restart, c) => sbLuaOpExecuteRequest attempts c
    | (some .other, c) => some (1, c)

end

/-! ## Attempts -/

section

variable {α β : Type}

/-- An attempt that fails: at its `BEGIN`, or at a statement behind the ones that pass. -/
inductive Struck (α : Type) where
  | atBegin (e : LockError)
  | later (passed : List (Work α)) (stmt : Stmt α) (e : LockError)

/-- Statements without an error of their own. -/
def passing (ws : List (Work α)) : List (Query α) := ws.map fun w => ⟨.work w, none⟩

def Struck.queries : Struck α → List (Query α)
  | .atBegin e => [⟨.begin, some e⟩]
  | .later passed stmt e => ⟨.begin, none⟩ :: passing passed ++ [⟨stmt, some e⟩]

/-- An attempt that does not fail. -/
def queries (ws : List (Work α)) : List (Query α) :=
  ⟨.begin, none⟩ :: passing ws ++ [⟨.commit, none⟩]

/-- Without an error in a result. -/
def Work.clean : Work α → Work α
  | .select _ => .select none
  | .write a => .write a

def Work.map (f : α → β) : Work α → Work β
  | .select result => .select result
  | .write a => .write (f a)

def Stmt.map (f : α → β) : Stmt α → Stmt β
  | .begin => .begin
  | .commit => .commit
  | .work w => .work (w.map f)

def Struck.map (f : α → β) : Struck α → Struck β
  | .atBegin e => .atBegin e
  | .later passed stmt e => .later (passed.map (Work.map f)) (stmt.map f) e

def Work.writes : Work α → Bool
  | .select _ => false
  | .write _ => true

/-- A deadlock that is not noticed. -/
def Work.unnoticed : Work α → Bool
  | .select (some e) => e.val = .lockDeadlock
  | _ => false

/-- What comes before a deadlock that is not noticed, and is rolled back by it. -/
def early (ws : List (Work α)) : List (Work α) := ws.takeWhile fun w => !w.unnoticed

/-- What comes from a deadlock on that is not noticed: there is no transaction any more. -/
def late (ws : List (Work α)) : List (Work α) := ws.dropWhile fun w => !w.unnoticed

/-- A deadlock at a `BEGIN` ends the transaction that is left open. -/
def RolledBack : List (Struck α) → Prop
  | .atBegin e :: rest => e.val = .lockDeadlock ∨ RolledBack rest
  | _ => False

/-- **Nothing stays of the attempts that fail.** -/
def NoResidue : List (Struck α) → Prop
  | [] => True
  | .atBegin _ :: rest => NoResidue rest
  | .later passed _ e :: rest =>
    (∀ w ∈ late passed, w.writes = false) ∧
    (e.val ≠ .lockDeadlock → late passed = [] → (∃ w ∈ passed, w.writes = true) →
      RolledBack rest) ∧
    NoResidue rest

/-- **Nothing of the last attempt is rolled back.** -/
def NoLoss (ws : List (Work α)) : Prop := late ws ≠ [] → ∀ w ∈ early ws, w.writes = false

end

/-! ## The event of `tokudb_oltp_valid.lua` -/

/-- A row of `sbtest`, without the columns that the event does not write. -/
structure Row where
  k : Int
  c : List Char
  c1 : Int

/-- A row of `sbvalid`. -/
structure Valid where
  table : Nat
  tableId : Nat
  c1 : Int

/-- The tables: each `sbtest<i>` has the rows 1 to `oltp_table_size`. -/
structure Tables where
  sbtest : Nat → Nat → Row
  sbvalid : List Valid

/-- What an attempt draws. -/
structure Draw (size : Nat) where
  table : Nat
  incId : Nat
  incC1 : Int
  cVal : List Char
  bounds : 1 ≤ incId ∧ incId ≤ size

section

variable {size : Nat}

/-- `UPDATE sbtest<i> SET k=k+1, c=.., c1=c1+ .. where id=..`. -/
def Draw.update (d : Draw size) (db : Tables) : Tables :=
  { db with sbtest := fun i id => if i = d.table ∧ id = d.incId then
      { k := (db.sbtest i id).k + 1, c := d.cVal, c1 := (db.sbtest i id).c1 + d.incC1 }
    else db.sbtest i id }

/-- `insert into sbvalid (table_name,table_id,c1) values (..)`. -/
def Draw.insert (d : Draw size) (db : Tables) : Tables :=
  { db with sbvalid := db.sbvalid ++ [⟨d.table, d.incId, d.incC1⟩] }

/-- The statements of the event, with so many queries in front. -/
def Draw.event (selects : Nat) (readOnly : Bool) (d : Draw size) : List (Work (Tables → Tables)) :=
  List.replicate selects (.select none) ++
    if readOnly then [] else [.write d.update, .write d.insert]

/-- The sum of `c1` over `sbtest<i>`, less the sum over its rows in `sbvalid`. -/
def balance (size i : Nat) (db : Tables) : Int :=
  ∑ id ∈ Finset.Icc 1 size, (db.sbtest i id).c1 -
    ((db.sbvalid.filter fun row => row.table = i).map Valid.c1).sum

end

/-! ## What an event leaves -/

/-- What one run of the statements commits if there is no error. -/
def once {σ : Type} (ws : List (Work (σ → σ))) (start : σ) : σ :=
  (event (queries (ws.map Work.clean)) ⟨start, none⟩).2.committed

/-- The statements of an attempt, without what they write. -/
def shape {α : Type} (ws : List (Work α)) : List (Work Unit) := ws.map (Work.map fun _ => ())

/-- An event is atomic under these errors: what it commits is what its last attempt commits, run
once, whatever the statements write; the event of the script keeps the balance of each table. -/
structure Atomic (failed : List (Struck Unit)) (last : List (Work Unit)) : Prop where
  committed : ∀ (σ : Type) (attempts : List (Struck (σ → σ))) (ws : List (Work (σ → σ))) (start : σ),
    attempts.map (Struck.map fun _ => ()) = failed → shape ws = last →
    ∃ c, sbLuaOpExecuteRequest (attempts.map Struck.queries ++ [queries ws]) ⟨start, none⟩ =
      some (0, c) ∧ c.committed = once ws start
  balance : ∀ (size selects : Nat) (readOnly : Bool) (d : Draw size)
    (attempts : List (Struck (Tables → Tables))) (ws : List (Work (Tables → Tables)))
    (start : Tables), attempts.map (Struck.map fun _ => ()) = failed → shape ws = last →
    ws.map Work.clean = d.event selects readOnly →
    ∃ c, sbLuaOpExecuteRequest (attempts.map Struck.queries ++ [queries ws]) ⟨start, none⟩ =
      some (0, c) ∧ ∀ i, balance size i c.committed = balance size i start

/-! ## One attempt -/

section

variable {σ : Type} {ws : List (Work (σ → σ))} {c : Conn σ}

/-- The writes of statements. -/
def effect (ws : List (Work (σ → σ))) (s : σ) : σ :=
  ws.foldl (fun s w => match w with
    | .select _ => s
    | .write f => f s) s

/-- A statement that passes. -/
def Work.pass (w : Work (σ → σ)) (c : Conn σ) : Conn σ :=
  (mysqlDrvStoreResults ⟨.work w, none⟩ ((Stmt.work w).exec c)).2

def passes (ws : List (Work (σ → σ))) (c : Conn σ) : Conn σ := ws.foldl (fun c w => w.pass c) c

theorem event_passing (ws : List (Work (σ → σ))) (qs : List (Query (σ → σ))) (c : Conn σ) :
    event (passing ws ++ qs) c = event qs (passes ws c) := by
  induction ws generalizing c with
  | nil => rfl
  | cons w ws ih => exact ih (w.pass c)

theorem event_begin (qs : List (Query (σ → σ))) (c : Conn σ) :
    event (⟨.begin, none⟩ :: qs) c = event qs ⟨c.seen, some c.seen⟩ := rfl

theorem event_error (stmt : Stmt (σ → σ)) (e : LockError) (c : Conn σ) :
    event [⟨stmt, some e⟩] c = (some .restart, c.undo e) := by
  rw [event, sbLuaDbQuery, mysqlDrvQuery]
  dsimp only
  rw [e.property]

/-- What an attempt that fails leaves. -/
def Struck.after : Struck (σ → σ) → Conn σ → Conn σ
  | .atBegin e, c => c.undo e
  | .later passed _ e, c => (passes passed ⟨c.seen, some c.seen⟩).undo e

theorem event_struck (a : Struck (σ → σ)) (c : Conn σ) :
    event a.queries c = (some .restart, a.after c) := by
  cases a with
  | atBegin e => exact event_error .begin e c
  | later passed stmt e =>
    rw [Struck.queries, List.cons_append, event_begin, event_passing, event_error]
    rfl

theorem event_queries (ws : List (Work (σ → σ))) (c : Conn σ) :
    event (queries ws) c = (none, ⟨(passes ws ⟨c.seen, some c.seen⟩).seen, none⟩) := by
  rw [queries, List.cons_append, event_begin, event_passing]
  rfl

/-- **The loop** comes to its end with the attempt that does not fail. -/
theorem sbLuaOpExecuteRequest_eq (attempts : List (Struck (σ → σ))) (ws : List (Work (σ → σ)))
    (c : Conn σ) :
    sbLuaOpExecuteRequest (attempts.map Struck.queries ++ [queries ws]) c =
      some (0, (event (queries ws) (attempts.foldl (fun c a => a.after c) c)).2) := by
  induction attempts generalizing c with
  | nil =>
    rw [List.map_nil, List.nil_append, sbLuaOpExecuteRequest, List.foldl_nil, event_queries]
  | cons a attempts ih =>
    rw [List.map_cons, List.cons_append, sbLuaOpExecuteRequest, event_struck]
    exact ih (a.after c)

/-- Without a transaction every write is committed. -/
theorem passes_committed (ws : List (Work (σ → σ))) (k : σ) :
    passes ws ⟨k, none⟩ = ⟨effect ws k, none⟩ := by
  induction ws generalizing k with
  | nil => rfl
  | cons w ws ih =>
    cases w with
    | write f => exact ih (f k)
    | select result =>
      have hpass : (Work.select result).pass (⟨k, none⟩ : Conn σ) = ⟨k, none⟩ := by
        cases result with
        | none => rfl
        | some e => exact ite_self _
      have hih := ih k
      rw [← hpass] at hih
      exact hih

theorem late_cons (w : Work (σ → σ)) (ws : List (Work (σ → σ))) :
    late (w :: ws) = if w.unnoticed = true then w :: ws else late ws := by
  cases hw : w.unnoticed <;> simp [late, hw]

/-- **With a transaction** the writes are in it, unless it is rolled back on the way. -/
theorem passes_transaction (ws : List (Work (σ → σ))) (k t : σ) :
    passes ws ⟨k, some t⟩ =
      if late ws = [] then ⟨k, some (effect ws t)⟩ else ⟨effect (late ws) k, none⟩ := by
  induction ws generalizing t with
  | nil => rfl
  | cons w ws ih =>
    rw [late_cons]
    by_cases hw : w.unnoticed = true
    · rw [if_pos hw, if_neg (List.cons_ne_nil _ _), ← passes_committed]
      have hpass : w.pass (⟨k, some t⟩ : Conn σ) = w.pass ⟨k, none⟩ := by
        cases w with
        | write f => cases hw
        | select result =>
          cases result with
          | none => cases hw
          | some e =>
            have he : e.val = .lockDeadlock := by simpa [Work.unnoticed] using hw
            exact (if_pos he).trans (ite_self _).symm
      exact congrArg (passes ws) hpass
    · rw [if_neg hw]
      cases w with
      | write f => exact ih (f t)
      | select result =>
        have hpass : (Work.select result).pass (⟨k, some t⟩ : Conn σ) = ⟨k, some t⟩ := by
          cases result with
          | none => rfl
          | some e =>
            refine if_neg fun he => hw ?_
            simpa [Work.unnoticed] using he
        have hih := ih t
        rw [← hpass] at hih
        exact hih

theorem effect_append (vs ws : List (Work (σ → σ))) (s : σ) :
    effect (vs ++ ws) s = effect ws (effect vs s) := List.foldl_append

theorem early_append_late {α : Type} (ws : List (Work α)) : early ws ++ late ws = ws :=
  List.takeWhile_append_dropWhile

theorem effect_of_not_writes (h : ∀ w ∈ ws, w.writes = false) (s : σ) : effect ws s = s := by
  induction ws with
  | nil => rfl
  | cons w ws ih =>
    cases w with
    | write f => cases h _ List.mem_cons_self
    | select result => exact ih fun w hw => h w (List.mem_cons_of_mem _ hw)

/-- What the last attempt commits. -/
theorem event_committed (ws : List (Work (σ → σ))) (c : Conn σ) :
    (event (queries ws) c).2.committed =
      if late ws = [] then effect ws c.seen else effect (late ws) c.seen := by
  rw [event_queries, passes_transaction]
  split <;> rfl

theorem effect_clean (ws : List (Work (σ → σ))) (s : σ) :
    effect (ws.map Work.clean) s = effect ws s := by
  rw [effect, List.foldl_map]
  refine congrArg (fun f => ws.foldl f s) (funext fun s => funext fun w => ?_)
  cases w <;> rfl

theorem once_eq (ws : List (Work (σ → σ))) (s : σ) : once ws s = effect ws s := by
  have hlate : late (ws.map Work.clean) = [] := by
    rw [late, List.dropWhile_eq_nil_iff]
    intro w hw
    obtain ⟨v, -, rfl⟩ := List.mem_map.mp hw
    cases v <;> rfl
  rw [once, event_committed, if_pos hlate]
  exact effect_clean ws s

/-! ## Errors that are harmless -/

/-- What an attempt that has begun leaves. -/
theorem after_later (passed : List (Work (σ → σ))) (stmt : Stmt (σ → σ)) (e : LockError)
    (c : Conn σ) : (Struck.later passed stmt e).after c =
      if late passed ≠ [] then ⟨effect (late passed) c.seen, none⟩
      else if e.val = .lockDeadlock then ⟨c.seen, none⟩
      else ⟨c.seen, some (effect passed c.seen)⟩ := by
  rw [Struck.after, passes_transaction, Conn.undo]
  by_cases hlate : late passed = []
  · rw [if_pos hlate, if_neg (not_not.mpr hlate)]
  · rw [if_neg hlate, if_pos hlate]
    exact ite_self _

theorem after_atBegin (e : LockError) (c : Conn σ) : (Struck.atBegin e).after c =
    if e.val = .lockDeadlock then ⟨c.committed, none⟩ else c := rfl

/-- **No attempt leaves anything** if nothing is left that the next `BEGIN` commits, or a deadlock
ends the transaction before. -/
theorem seen_of_noResidue {attempts : List (Struck (σ → σ))} (h : NoResidue attempts)
    (hc : c.seen = c.committed ∨ RolledBack attempts) :
    (attempts.foldl (fun c a => a.after c) c).seen = c.committed := by
  induction attempts generalizing c with
  | nil => exact hc.resolve_right fun h => h
  | cons a attempts ih =>
    rw [List.foldl_cons]
    cases a with
    | atBegin e =>
      rw [after_atBegin]
      by_cases he : e.val = .lockDeadlock
      · rw [if_pos he]
        exact ih h (.inl rfl)
      · rw [if_neg he]
        exact ih h (hc.imp_right fun hrest => hrest.resolve_left he)
    | later passed stmt e =>
      obtain ⟨hlate, hopen, hrest⟩ := h
      have hseen : c.seen = c.committed := hc.resolve_right fun h => h
      rw [after_later, hseen]
      by_cases hnil : late passed = []
      · rw [if_neg (not_not.mpr hnil)]
        by_cases he : e.val = .lockDeadlock
        · rw [if_pos he]
          exact ih hrest (.inl rfl)
        · rw [if_neg he]
          by_cases hwrites : ∃ w ∈ passed, w.writes = true
          · exact ih hrest (.inr (hopen he hnil hwrites))
          · refine ih hrest (.inl (effect_of_not_writes (fun w hw => ?_) _))
            exact Bool.eq_false_iff.mpr fun hw' => hwrites ⟨w, hw, hw'⟩
      · rw [if_pos hnil, effect_of_not_writes hlate]
        exact ih hrest (.inl rfl)

theorem committed_of_noLoss (h : NoLoss ws) :
    (event (queries ws) c).2.committed = effect ws c.seen := by
  rw [event_committed]
  split
  · rfl
  · next hlate =>
    conv_rhs => rw [← early_append_late ws, effect_append, effect_of_not_writes (h hlate)]

/-! ## Errors that are not -/

/-- The number of writes. -/
def writesOf {α : Type} (ws : List (Work α)) : Nat := ws.countP Work.writes

theorem effect_count {α : Type} (n : Nat) (ws : List (Work α)) (k : Nat) :
    effect (ws.map (Work.map fun _ => (· + n))) k = k + n * writesOf ws := by
  induction ws generalizing k with
  | nil => rfl
  | cons w ws ih =>
    cases w with
    | select result => exact ih k
    | write a =>
      have hcount : writesOf (.write a :: ws) = writesOf ws + 1 := List.countP_cons_of_pos rfl
      rw [hcount]
      refine (ih (k + n)).trans ?_
      ring

theorem unnoticed_map {α β : Type} (f : α → β) (w : Work α) :
    (w.map f).unnoticed = w.unnoticed := by
  cases w with
  | write a => rfl
  | select result => cases result <;> rfl

theorem late_map {α β : Type} (f : α → β) (ws : List (Work α)) :
    late (ws.map (Work.map f)) = (late ws).map (Work.map f) := by
  rw [late, late, List.dropWhile_map]
  simp only [Function.comp_def, unnoticed_map]

theorem writesOf_eq_zero {α : Type} {ws : List (Work α)} :
    writesOf ws = 0 ↔ ∀ w ∈ ws, w.writes = false := by
  simp [writesOf, List.countP_eq_zero]

/-- **Whatever stays is counted**: where each write adds one, the number of them that are committed
or will be is zero only if nothing stays. -/
theorem noResidue_of_seen {failed : List (Struck Unit)} {c : Conn Nat}
    (hle : c.committed ≤ c.seen)
    (h : ((failed.map (Struck.map fun _ => (· + 1))).foldl (fun c a => a.after c) c).seen = 0) :
    c.committed = 0 ∧ (c.seen = 0 ∨ RolledBack failed) ∧ NoResidue failed := by
  induction failed generalizing c with
  | nil =>
    have hseen : c.seen = 0 := h
    exact ⟨by omega, .inl hseen, trivial⟩
  | cons a failed ih =>
    rw [List.map_cons, List.foldl_cons] at h
    cases a with
    | atBegin e =>
      rw [Struck.map, after_atBegin] at h
      by_cases he : e.val = .lockDeadlock
      · rw [if_pos he] at h
        obtain ⟨hzero, -, hrest⟩ := ih le_rfl h
        exact ⟨hzero, .inr (.inl he), hrest⟩
      · rw [if_neg he] at h
        obtain ⟨hzero, hseen, hrest⟩ := ih hle h
        exact ⟨hzero, hseen.imp_right .inr, hrest⟩
    | later passed stmt e =>
      rw [Struck.map, after_later, late_map, effect_count, effect_count] at h
      by_cases hnil : late passed = []
      · rw [hnil, List.map_nil, if_neg (not_not.mpr rfl)] at h
        have hlate : ∀ w ∈ late passed, w.writes = false := by
          rw [hnil]
          exact fun w hw => absurd hw List.not_mem_nil
        by_cases he : e.val = .lockDeadlock
        · rw [if_pos he] at h
          obtain ⟨hzero, -, hrest⟩ := ih le_rfl h
          exact ⟨Nat.le_zero.mp (hle.trans hzero.le), .inl hzero, hlate, fun hne => absurd he hne,
            hrest⟩
        · rw [if_neg he] at h
          obtain ⟨hzero, hseen, hrest⟩ := ih (Nat.le_add_right _ _) h
          refine ⟨Nat.le_zero.mp (hle.trans hzero.le), .inl hzero, hlate, fun _ _ hwrites => ?_,
            hrest⟩
          refine hseen.resolve_left fun hsum => ?_
          obtain ⟨w, hw, hw'⟩ := hwrites
          have hnone := writesOf_eq_zero.mp (by simpa using (Nat.add_eq_zero_iff.mp hsum).2) w hw
          rw [hw'] at hnone
          cases hnone
      · have hmap : ((late passed).map (Work.map fun _ : Unit => (· + 1))) ≠ [] :=
          fun h => hnil (List.map_eq_nil_iff.mp h)
        rw [if_pos hmap] at h
        obtain ⟨hzero, -, hrest⟩ := ih le_rfl h
        obtain ⟨hseen, hwrites⟩ := Nat.add_eq_zero_iff.mp hzero
        exact ⟨by omega, .inl hseen, writesOf_eq_zero.mp (by simpa using hwrites),
          fun _ hnil' => absurd hnil' hnil, hrest⟩

end

/-! ## The statements do not matter -/

section

variable {α β : Type} {f : α → β}

theorem writes_map (w : Work α) : (w.map f).writes = w.writes := by
  cases w <;> rfl

theorem forall_not_writes_map {ws : List (Work α)} :
    (∀ w ∈ ws.map (Work.map f), w.writes = false) ↔ ∀ w ∈ ws, w.writes = false := by
  rw [List.forall_mem_map]
  simp only [writes_map]

theorem early_map (ws : List (Work α)) :
    early (ws.map (Work.map f)) = (early ws).map (Work.map f) := by
  rw [early, early, List.takeWhile_map]
  simp only [Function.comp_def, unnoticed_map]

theorem noLoss_map {ws : List (Work α)} : NoLoss (ws.map (Work.map f)) ↔ NoLoss ws := by
  unfold NoLoss
  rw [late_map, early_map, forall_not_writes_map, Ne, List.map_eq_nil_iff]

theorem rolledBack_map {attempts : List (Struck α)} :
    RolledBack (attempts.map (Struck.map f)) ↔ RolledBack attempts := by
  induction attempts with
  | nil => exact Iff.rfl
  | cons a attempts ih =>
    cases a with
    | atBegin e => exact or_congr_right ih
    | later passed stmt e => exact Iff.rfl

theorem noResidue_map {attempts : List (Struck α)} :
    NoResidue (attempts.map (Struck.map f)) ↔ NoResidue attempts := by
  induction attempts with
  | nil => exact Iff.rfl
  | cons a attempts ih =>
    cases a with
    | atBegin e => exact ih
    | later passed stmt e =>
      rw [List.map_cons, Struck.map, NoResidue, NoResidue, late_map, forall_not_writes_map,
        List.map_eq_nil_iff, rolledBack_map, ih]
      simp only [List.mem_map, exists_exists_and_eq_and, writes_map]

theorem shape_map (g : Unit → β) (ws : List (Work Unit)) : shape (ws.map (Work.map g)) = ws := by
  have hid : ∀ w ∈ ws, ((Work.map fun _ : β => ()) ∘ Work.map g) w = id w := by
    intro w _
    cases w <;> rfl
  rw [shape, List.map_map, List.map_congr_left hid, List.map_id]

theorem map_struck_map (g : Unit → β) (failed : List (Struck Unit)) :
    (failed.map (Struck.map g)).map (Struck.map fun _ => ()) = failed := by
  have hid : ∀ a ∈ failed, ((Struck.map fun _ : β => ()) ∘ Struck.map g) a = id a := by
    intro a _
    cases a with
    | atBegin e => rfl
    | later passed stmt e =>
      have hstmt : (stmt.map g).map (fun _ => ()) = stmt := by
        cases stmt with
        | begin => rfl
        | commit => rfl
        | work w => cases w <;> rfl
      exact congrArg₂ (Struck.later · · e) (shape_map g passed) hstmt
  rw [List.map_map, List.map_congr_left hid, List.map_id]

end

/-! ## The balance -/

theorem balance_update_insert {size : Nat} (d : Draw size) (db : Tables) (i : Nat) :
    balance size i (d.insert (d.update db)) = balance size i db := by
  have hrow (id : Nat) : ((d.update db).sbtest i id).c1 =
      (db.sbtest i id).c1 + if id = d.incId then (if i = d.table then d.incC1 else 0) else 0 := by
    unfold Draw.update
    by_cases hid : id = d.incId <;> by_cases hi : i = d.table <;> simp [hid, hi]
  have hsum : ∑ id ∈ Finset.Icc 1 size, ((d.update db).sbtest i id).c1 =
      ∑ id ∈ Finset.Icc 1 size, (db.sbtest i id).c1 + if i = d.table then d.incC1 else 0 := by
    rw [Finset.sum_congr rfl fun id _ => hrow id, Finset.sum_add_distrib, Finset.sum_ite_eq',
      if_pos (Finset.mem_Icc.mpr d.bounds)]
  unfold balance
  rw [show (d.insert (d.update db)).sbtest = (d.update db).sbtest from rfl, hsum,
    show (d.insert (d.update db)).sbvalid = db.sbvalid ++ [⟨d.table, d.incId, d.incC1⟩] from rfl,
    List.filter_append, List.map_append, List.sum_append]
  by_cases hi : i = d.table
  · have hfilter : [Valid.mk d.table d.incId d.incC1].filter (fun row => row.table = i) =
        [Valid.mk d.table d.incId d.incC1] := by simp [hi]
    rw [hfilter, if_pos hi, List.map_singleton, List.sum_singleton]
    ring
  · have hfilter : [Valid.mk d.table d.incId d.incC1].filter (fun row => row.table = i) = [] := by
      simp [Ne.symm hi]
    rw [hfilter, if_neg hi, List.map_nil, List.sum_nil]
    ring

/-- **The event keeps the balance** of each table. -/
theorem balance_event {size : Nat} (d : Draw size) (selects : Nat) (readOnly : Bool) (db : Tables)
    (i : Nat) : balance size i (effect (d.event selects readOnly) db) = balance size i db := by
  have hselects : ∀ w ∈ List.replicate selects (Work.select none : Work (Tables → Tables)),
      w.writes = false := by
    intro w hw
    rw [List.eq_of_mem_replicate hw]
    rfl
  rw [Draw.event, effect_append, effect_of_not_writes hselects]
  cases readOnly with
  | true => rfl
  | false => exact balance_update_insert d db i

/-! ## Atomic or not -/

/-- **An event is atomic under errors exactly if** nothing stays of the attempts that fail, and
nothing of the last one is rolled back. -/
theorem atomic_iff (failed : List (Struck Unit)) (last : List (Work Unit)) :
    Atomic failed last ↔ NoResidue failed ∧ NoLoss last := by
  constructor
  · intro h
    have hresidue : NoResidue failed := by
      obtain ⟨c, hrun, hc⟩ := h.committed Nat (failed.map (Struck.map fun _ => (· + 1)))
        (last.map (Work.map fun _ => (· + 0))) 0 (map_struck_map _ _) (shape_map _ _)
      rw [sbLuaOpExecuteRequest_eq] at hrun
      cases hrun
      rw [event_committed, once_eq, late_map, effect_count, effect_count, effect_count] at hc
      exact (noResidue_of_seen le_rfl (by simpa using hc)).2.2
    refine ⟨hresidue, fun hlate => ?_⟩
    obtain ⟨c, hrun, hc⟩ := h.committed Nat (failed.map (Struck.map fun _ => (· + 0)))
      (last.map (Work.map fun _ => (· + 1))) 0 (map_struck_map _ _) (shape_map _ _)
    rw [sbLuaOpExecuteRequest_eq] at hrun
    cases hrun
    have hlate' : (late last).map (Work.map fun _ : Unit => (· + 1)) ≠ [] :=
      fun h => hlate (List.map_eq_nil_iff.mp h)
    rw [event_committed, once_eq, late_map, if_neg hlate',
      seen_of_noResidue (noResidue_map.mpr hresidue) (.inl rfl), effect_count, effect_count] at hc
    have hsplit : writesOf last = writesOf (early last) + writesOf (late last) := by
      rw [writesOf, writesOf, writesOf, ← List.countP_append, early_append_late]
    have hsame : 0 + 1 * writesOf (late last) = 0 + 1 * writesOf last := hc
    exact writesOf_eq_zero.mp (by omega)
  · rintro ⟨hresidue, hloss⟩
    have hrun {σ : Type} {attempts : List (Struck (σ → σ))} {ws : List (Work (σ → σ))} (start : σ)
        (hattempts : attempts.map (Struck.map fun _ => ()) = failed) (hws : shape ws = last) :
        ∃ c, sbLuaOpExecuteRequest (attempts.map Struck.queries ++ [queries ws]) ⟨start, none⟩ =
          some (0, c) ∧ c.committed = effect ws start := by
      rw [← hattempts, noResidue_map] at hresidue
      rw [← hws, shape, noLoss_map] at hloss
      refine ⟨_, sbLuaOpExecuteRequest_eq _ _ _, ?_⟩
      rw [committed_of_noLoss hloss, seen_of_noResidue hresidue (.inl rfl)]
    refine ⟨fun σ attempts ws start hattempts hws => ?_,
      fun size selects readOnly d attempts ws start hattempts hws hevent => ?_⟩
    · rw [once_eq]
      exact hrun start hattempts hws
    · obtain ⟨c, hc, hcommitted⟩ := hrun start hattempts hws
      refine ⟨c, hc, fun i => ?_⟩
      rw [hcommitted, ← effect_clean, hevent, balance_event]

def firstDraw : Draw 1 := ⟨1, 1, 7, [], by decide⟩

def secondDraw : Draw 1 := ⟨1, 1, 5, [], by decide⟩

def zeroTables : Tables := ⟨fun _ _ => ⟨0, [], 0⟩, []⟩

/-- A lock wait timeout at the insert: the update of the first attempt is committed by the `BEGIN`
of the second one. -/
theorem balance_timeout : ∃ c,
    sbLuaOpExecuteRequest
      [(Struck.later [.write firstDraw.update] (.work (.write firstDraw.insert))
        ⟨.lockWaitTimeout, rfl⟩).queries, queries (secondDraw.event 0 false)]
      ⟨zeroTables, none⟩ = some (0, c) ∧
    balance 1 1 zeroTables = 0 ∧ balance 1 1 c.committed = 7 ∧
    c.committed ≠ once (secondDraw.event 0 false) zeroTables := by
  refine ⟨_, sbLuaOpExecuteRequest_eq [_] _ _, rfl, ?_⟩
  have hcommitted : (event (queries (secondDraw.event 0 false))
      ((Struck.later [.write firstDraw.update] (.work (.write firstDraw.insert))
        ⟨.lockWaitTimeout, rfl⟩).after ⟨zeroTables, none⟩)).2.committed =
      secondDraw.insert (secondDraw.update (firstDraw.update zeroTables)) := rfl
  have hbalance : balance 1 1 (secondDraw.insert (secondDraw.update
      (firstDraw.update zeroTables))) = 7 := by
    rw [balance_update_insert]
    rfl
  rw [List.foldl_cons, List.foldl_nil, hcommitted]
  refine ⟨hbalance, fun heq => ?_⟩
  rw [heq, once_eq, balance_event] at hbalance
  exact absurd hbalance (by decide)

end TokuQa.Sysbench.EventRetry
