import TokuQa.Lib.RowLocks
import TokuQa.LinkBench.MysqlCounts

/-!
# Requesters beside each other

Every requester has a `LinkStoreMysql` of its own, and all of them are on the same two tables. The
first statement of a call locks the row of its link, "so can safely do further updates without
concurrency issues", and the statement on the count locks that row too, both until the transaction
ends. What comes of it: whatever the requesters do beside each other, the tables are what the calls
make of them one after the other, in the order of their commits (`requesters_serial`), and
`testCount` finds nothing to complain of in between (`counts_exact_beside`).

Two calls have no place of their own in that order. A new hidden link is left without a `COMMIT`,
and comes in with the next call of its requester. A `deleteLink` that finds nothing has locked
nothing, so that its link can be there by the time of its commit.

A call that fails is rolled back here. What a lock wait timeout leaves behind is in `MysqlRetry`.
-/

set_option autoImplicit false

namespace TokuQa.LinkBench.Mysql

open TokuQa.Lib

/-! ## The server -/

inductive RowName where
  | link (k : LinkKey)
  | count (k : CountKey)
deriving DecidableEq

abbrev RowName.Holds : RowName → Type
  | .link _ => Option LinkRow
  | .count _ => Option CountRow

def Tables.row (t : Tables) : (r : RowName) → r.Holds
  | .link k => t.linktable.lookup k
  | .count k => t.counttable.lookup k

/-- The statements that write, with the values that are put in their text. -/
inductive Write where
  | insertLink (l : Link)
  | hideLink (k : LinkKey)
  | expungeLink (k : LinkKey)
  | upsertCount (now : Int) (k : CountKey) (baseCount updateCount : Int)
  | decrementCount (now : Int) (k : CountKey)
  | updateData (l : Link)

namespace Write

def apply : Write → Tables → Tables
  | .insertLink l, t => (Mysql.insertLink l t).2
  | .hideLink k, t => Mysql.hideLink k t
  | .expungeLink k, t => Mysql.expungeLink k t
  | .upsertCount now k baseCount updateCount, t => Mysql.upsertCount now k baseCount updateCount t
  | .decrementCount now k, t => Mysql.decrementCount now k t
  | .updateData l, t => Mysql.updateData l t

/-- The row that is locked for it. -/
def name : Write → RowName
  | .insertLink l | .updateData l => .link l.key
  | .hideLink k | .expungeLink k => .link k
  | .upsertCount _ k _ _ | .decrementCount _ k => .count k

/-- What a statement makes of its row, whatever the others hold. -/
theorem row_apply_name (w : Write) {t t' : Tables} (h : t'.row w.name = t.row w.name) :
    (w.apply t').row w.name = (w.apply t).row w.name := by
  cases w with
  | insertLink l =>
    simp only [name, Tables.row] at h
    simp [name, apply, Tables.row, Mysql.insertLink, Table.lookup_insertOnDuplicate, h]
  | hideLink k =>
    simp only [name, Tables.row] at h
    simp [name, apply, Tables.row, Mysql.hideLink, Table.lookup_updateWhere, h]
  | expungeLink k => simp [name, apply, Tables.row, Mysql.expungeLink]
  | upsertCount now k baseCount updateCount =>
    simp only [name, Tables.row] at h
    simp [name, apply, Tables.row, Mysql.upsertCount, Table.lookup_insertOnDuplicate, h]
  | decrementCount now k =>
    simp only [name, Tables.row] at h
    simp [name, apply, Tables.row, Mysql.decrementCount, Table.lookup_insertOnDuplicate, h]
  | updateData l =>
    simp only [name, Tables.row] at h
    simp [name, apply, Tables.row, Mysql.updateData, Table.lookup_updateWhere, h]

theorem row_apply_of_ne (w : Write) {r : RowName} (h : r ≠ w.name) (t : Tables) :
    (w.apply t).row r = t.row r := by
  cases r with
  | link k =>
    cases w with
    | insertLink l =>
      have hk : k ≠ l.key := fun hk => h (congrArg RowName.link hk)
      simp [apply, Tables.row, Mysql.insertLink, Table.lookup_insertOnDuplicate, hk]
    | hideLink k' =>
      have hk : k ≠ k' := fun hk => h (congrArg RowName.link hk)
      simp [apply, Tables.row, Mysql.hideLink, Table.lookup_updateWhere, hk]
    | expungeLink k' =>
      have hk : k ≠ k' := fun hk => h (congrArg RowName.link hk)
      simp [apply, Tables.row, Mysql.expungeLink, hk]
    | updateData l =>
      have hk : k ≠ l.key := fun hk => h (congrArg RowName.link hk)
      simp [apply, Tables.row, Mysql.updateData, Table.lookup_updateWhere, hk]
    | upsertCount now k' baseCount updateCount => rfl
    | decrementCount now k' => rfl
  | count k =>
    cases w with
    | upsertCount now k' baseCount updateCount =>
      have hk : k ≠ k' := fun hk => h (congrArg RowName.count hk)
      simp [apply, Tables.row, Mysql.upsertCount, Table.lookup_insertOnDuplicate, hk]
    | decrementCount now k' =>
      have hk : k ≠ k' := fun hk => h (congrArg RowName.count hk)
      simp [apply, Tables.row, Mysql.decrementCount, Table.lookup_insertOnDuplicate, hk]
    | insertLink l => rfl
    | hideLink k' => rfl
    | expungeLink k' => rfl
    | updateData l => rfl

end Write

def server : RowServer Tables Write RowName RowName.Holds where
  row r t := t.row r
  names w := [w.name]
  write w t := some (w.apply t)
  elsewhere := by
    intro w t r hr
    exact w.row_apply_of_ne (List.ne_of_not_mem_cons hr) t
  within := by
    intro w t t' h r hr
    obtain rfl := List.mem_singleton.mp hr
    exact w.row_apply_name (h _ hr)

/-! ## The calls -/

/-- A call of a requester, and the time that it takes for its count row. -/
structure Call where
  now : Int
  op : LinkOp
  valid : ValidRequest op.request

/-- A call that has committed, with the row that it had found. -/
structure Done where
  call : Call
  found : Option LinkRow

abbrev Statements := Prog Tables Write RowName Done

/-- `addLinkImpl` behind its `switch`. The `COMMIT` is sent with the last statement. -/
def addLinkRest (now : Int) (l : Link) (doUpdateData : Bool) (doUpdateCount : Int)
    (commit : Statements) : Statements :=
  let data : Statements := if doUpdateData then .write (.updateData l) commit else .ret
  if doUpdateCount ≠ 0 then
    let baseCount := if doUpdateCount < 0 then 0 else 1
    .write (.upsertCount now l.countKey baseCount doUpdateCount)
      (if doUpdateData then data else commit)
  else data

/-- `addLinkImpl`. The `INSERT` locks the row of the link, and says what it has found. -/
def addLinkStatements (c : Call) (l : Link) : Statements :=
  .forUpdate (fun _ => [.link l.key]) fun t =>
  .write (.insertLink l) <|
  let commit : Statements := .commit ⟨c, t.linktable.lookup l.key⟩ .ret
  match (insertLink l t).1 with
  | 1 => addLinkRest c.now l false (if l.visibility = visibilityDefault then 1 else 0) commit
  | 0 => addLinkRest c.now l true 0 commit
  | 2 => addLinkRest c.now l true (if l.visibility = visibilityDefault then 1 else -1) commit
  | _ => .rollback

/-- `deleteLinkImpl`. A row that is not there is not locked. -/
def deleteLinkStatements (c : Call) (k : LinkKey) (expunge : Bool) : Statements :=
  .forUpdate (fun t => if (t.linktable.lookup k).isSome then [.link k] else []) fun t =>
  let commit : Statements := .commit ⟨c, t.linktable.lookup k⟩ .ret
  match t.linktable.lookup k with
  | none => commit
  | some r =>
    if r.visibility = visibilityHidden && !expunge then commit
    else
      .write (if !expunge then .hideLink k else .expungeLink k) <|
      .write (.decrementCount c.now k.countKey) commit

def Call.statements (c : Call) : Statements :=
  match c.op with
  | .addLink l | .updateLink l => addLinkStatements c l
  | .deleteLink k expunge => deleteLinkStatements c k expunge

abbrev Requester := Connection Tables Write RowName Done

abbrev Requesters (n : Nat) := System Tables Write RowName Done n

def requesterStep {n : Nat} : ConnectionEvent Call n → Requesters n → Option (Requesters n) :=
  System.step server.engine Call.statements

/-! ## The statements of a call -/

/-- The statements that write, for the row that was found. -/
def Request.line (now : Int) : Request → Option LinkRow → List Write
  | .add l, none => .insertLink l ::
      if l.visibility = visibilityDefault then [.upsertCount now l.countKey 1 1] else []
  | .add l, some r => .insertLink l ::
      ((if r.visibility = l.visibility then []
        else if l.visibility = visibilityDefault then [.upsertCount now l.countKey 1 1]
        else [.upsertCount now l.countKey 0 (-1)]) ++ [.updateData l])
  | .delete _ _, none => []
  | .delete k expunge, some r =>
    if r.visibility = visibilityHidden ∧ expunge = false then []
    else [if expunge then .expungeLink k else .hideLink k, .decrementCount now k.countKey]

/-- **They are what the call does alone.** -/
theorem Request.applyAll_line (now : Int) (q : Request) (t : Tables) :
    server.engine.applyAll (q.line now (q.row t)) t = q.effect now t := by
  have happly : ∀ ws : List Write,
      server.engine.applyAll ws t = ws.foldl (fun t w => w.apply t) t := fun _ => rfl
  rw [happly]
  unfold effect writes writesAt written
  cases q with
  | add l =>
    cases (Request.add l).row t with
    | none =>
      by_cases hv : l.visibility = visibilityDefault <;>
        simp [line, hv, firstWrite, deleteWrite, countWrite, dataWrite, Write.apply]
    | some r =>
      by_cases hr : r.visibility = l.visibility
      · simp [line, hr, firstWrite, deleteWrite, countWrite, dataWrite, Write.apply]
      · by_cases hv : l.visibility = visibilityDefault
        · have hne : r.visibility ≠ visibilityDefault := hv ▸ hr
          simp [line, hne, hv, firstWrite, deleteWrite, countWrite, dataWrite, Write.apply]
        · simp [line, hr, hv, firstWrite, deleteWrite, countWrite, dataWrite, Write.apply]
  | delete k expunge =>
    cases (Request.delete k expunge).row t with
    | none => simp [line, firstWrite, deleteWrite, countWrite, dataWrite]
    | some r =>
      by_cases hv : r.visibility = visibilityHidden
      · cases expunge <;>
          simp [line, hv, firstWrite, deleteWrite, countWrite, dataWrite, Write.apply]
      · cases expunge <;>
          simp [line, hv, firstWrite, deleteWrite, countWrite, dataWrite, Write.apply]

namespace Call

variable (c : Call)

def key : LinkKey := c.op.request.key

/-- The row of the call's link. -/
def row (t : Tables) : Option LinkRow := c.op.request.row t

/-- The tables after the call, alone. -/
def effect (t : Tables) : Tables := c.op.request.effect c.now t

def line (r : Option LinkRow) : List Write := c.op.request.line c.now r

/-- The rows that the first statement locks. -/
def reads (t : Tables) : List RowName :=
  match c.op with
  | .deleteLink k _ => if (t.linktable.lookup k).isSome then [.link k] else []
  | .addLink l | .updateLink l => [.link l.key]

/-- What comes behind them. -/
def ending (r : Option LinkRow) : Statements :=
  if c.op.request.commitsAt r then .commit ⟨c, r⟩ .ret else .ret

/-- Statements that write, one after the other. -/
def sends (ws : List Write) (next : Statements) : Statements := ws.foldr .write next

variable {c}

theorem addLinkStatements_eq {l : Link} (hop : c.op.request = .add l) :
    addLinkStatements c l = .forUpdate (fun _ => [.link l.key]) fun t =>
      sends (c.line (c.row t)) (c.ending (c.row t)) := by
  unfold addLinkStatements
  refine congrArg (Prog.forUpdate _) (funext fun t => ?_)
  have hrow : c.row t = t.linktable.lookup l.key := by
    rw [row, hop]
    rfl
  rw [insertLink_fst, hrow, line, ending, hop]
  cases t.linktable.lookup l.key with
  | none =>
    by_cases hv : l.visibility = visibilityDefault
    · simp [hv, addLinkRest, sends, Request.line, Request.commitsAt]
    · simp [hv, addLinkRest, sends, Request.line, Request.commitsAt]
  | some r =>
    by_cases hr : r.visibility = l.visibility
    · simp [hr, addLinkRest, sends, Request.line, Request.commitsAt]
    · by_cases hv : l.visibility = visibilityDefault
      · have hne : r.visibility ≠ visibilityDefault := hv ▸ hr
        simp [hne, hv, addLinkRest, sends, Request.line, Request.commitsAt]
      · simp [hr, hv, addLinkRest, sends, Request.line, Request.commitsAt]

theorem deleteLinkStatements_eq {k : LinkKey} {expunge : Bool}
    (hop : c.op = .deleteLink k expunge) :
    deleteLinkStatements c k expunge = .forUpdate c.reads fun t =>
      sends (c.line (c.row t)) (c.ending (c.row t)) := by
  unfold deleteLinkStatements reads line ending
  rw [hop]
  refine congrArg (Prog.forUpdate _) (funext fun t => ?_)
  have hrow : c.row t = t.linktable.lookup k := by
    rw [row, hop]
    rfl
  rw [hrow]
  cases t.linktable.lookup k with
  | none => simp [sends, LinkOp.request, Request.line, Request.commitsAt]
  | some r =>
    by_cases hv : r.visibility = visibilityHidden
    · cases expunge <;> simp [hv, sends, LinkOp.request, Request.line, Request.commitsAt]
    · cases expunge <;> simp [hv, sends, LinkOp.request, Request.line, Request.commitsAt]

/-- **A call** reads the row of its link, and is a straight line from there on. -/
theorem statements_eq : c.statements = .forUpdate c.reads fun t =>
    sends (c.line (c.row t)) (c.ending (c.row t)) := by
  unfold statements
  cases hop : c.op with
  | addLink l =>
    have hreads : c.reads = fun _ => [.link l.key] := by
      unfold reads
      rw [hop]
    rw [hreads]
    exact addLinkStatements_eq (by rw [hop]; rfl)
  | updateLink l =>
    have hreads : c.reads = fun _ => [.link l.key] := by
      unfold reads
      rw [hop]
    rw [hreads]
    exact addLinkStatements_eq (by rw [hop]; rfl)
  | deleteLink k expunge => exact deleteLinkStatements_eq hop

end Call

/-! ## One after the other -/

/-- Hidden links that are put into the table. -/
def withHidden (hidden : List Link) (t : Tables) : Tables :=
  hidden.foldl (fun t l => (insertLink l t).2) t

/-- They are hidden and new. -/
structure Opened (hidden : List Link) (t : Tables) : Prop where
  visibility : ∀ l ∈ hidden, l.visibility = visibilityHidden
  nodup : (hidden.map Link.key).Nodup
  missing : ∀ l ∈ hidden, t.linktable.lookup l.key = none

/-- The calls of the log one after the other, each with the row that it finds, end with these
tables. Before a call there can be new hidden links that its requester had left without a
`COMMIT`. -/
inductive Serial (t₀ : Tables) : List Done → Tables → Prop
  | start : Serial t₀ [] t₀
  | done {log : List Done} {t : Tables} {hidden : List Link} {c : Call} (h : Serial t₀ log t)
      (hopened : Opened hidden t) :
      Serial t₀ (log ++ [⟨c, c.row (withHidden hidden t)⟩]) (c.effect (withHidden hidden t))
  /-- A `deleteLink` that had found nothing, and does nothing whatever is there by now. -/
  | missed {log : List Done} {t : Tables} {hidden : List Link} {c : Call} {k : LinkKey}
      {expunge : Bool} (h : Serial t₀ log t) (hopened : Opened hidden t)
      (hop : c.op = .deleteLink k expunge) :
      Serial t₀ (log ++ [⟨c, none⟩]) (withHidden hidden t)

section

variable {hidden : List Link} {t : Tables} {k : LinkKey} {l : Link}

theorem withHidden_eq (hidden : List Link) (t : Tables) :
    withHidden hidden t = server.engine.applyAll (hidden.map .insertLink) t := by
  rw [withHidden, Engine.applyAll, List.foldl_map]
  rfl

theorem withHidden_append (hidden : List Link) (l : Link) (t : Tables) :
    withHidden (hidden ++ [l]) t = (insertLink l (withHidden hidden t)).2 := by
  rw [withHidden, List.foldl_append]
  rfl

theorem lookup_withHidden_eq_none :
    (withHidden hidden t).linktable.lookup k = none ↔
      t.linktable.lookup k = none ∧ k ∉ hidden.map Link.key := by
  induction hidden using List.reverseRecOn with
  | nil => simp [withHidden]
  | append_singleton hidden l ih =>
    rw [withHidden_append, List.map_append, List.mem_append, not_or, ← and_assoc, ← ih]
    show (Table.insertOnDuplicate l.key l.row _ _).2.lookup k = none ↔ _
    rw [Table.lookup_insertOnDuplicate]
    by_cases hk : k = l.key
    · simp [hk]
    · simp [hk]

theorem Opened.nil (t : Tables) : Opened [] t :=
  ⟨fun _ h => absurd h List.not_mem_nil, List.nodup_nil, fun _ h => absurd h List.not_mem_nil⟩

/-- One more. -/
theorem Opened.append (h : Opened hidden t) (hl : l.visibility = visibilityHidden)
    (hnone : (withHidden hidden t).linktable.lookup l.key = none) :
    Opened (hidden ++ [l]) t := by
  obtain ⟨hmissing, hnew⟩ := lookup_withHidden_eq_none.mp hnone
  refine ⟨fun l' hl' => ?_, ?_, fun l' hl' => ?_⟩
  · rcases List.mem_append.mp hl' with hold | hlast
    · exact h.visibility l' hold
    · rw [List.mem_singleton.mp hlast]
      exact hl
  · rw [List.map_append]
    exact List.nodup_append'.mpr ⟨h.nodup, List.nodup_singleton _,
      List.disjoint_singleton.mpr hnew⟩
  · rcases List.mem_append.mp hl' with hold | hlast
    · exact h.missing l' hold
    · rw [List.mem_singleton.mp hlast]
      exact hmissing

end

/-! ## How far a requester has come -/

/-- Outside of a call; before its first statement; with the row that it has found, and the
statements that it has sent and has yet to send. -/
inductive Stage where
  | free
  | begun (c : Call)
  | found (c : Call) (r : Option LinkRow) (sent left : List Write)

namespace Stage

def prog : Stage → Statements
  | free => .ret
  | begun c => c.statements
  | found c r _ left => Call.sends left (c.ending r)

def sent : Stage → List Write
  | free | begun _ => []
  | found _ _ sent _ => sent

end Stage

/-- A requester beside the tables, with the hidden links it has left without a `COMMIT`. -/
structure InStage (t : Tables) (x : Requester) (hidden : List Link) (φ : Stage) : Prop where
  prog : x.prog = φ.prog
  writes : x.writes = hidden.map .insertLink ++ φ.sent
  opened : Opened hidden t
  locked : ∀ l ∈ hidden, .link l.key ∈ x.locks
  found : ∀ c r sent left, φ = .found c r sent left → sent ++ left = c.line r ∧
    (left = [] → c.op.request.commitsAt r = true) ∧
    ((∃ k expunge, c.op = .deleteLink k expunge ∧ r = none) ∨
      .link c.key ∈ x.locks ∧ c.row (withHidden hidden t) = r)

section

variable {t : Tables} {x : Requester} {hidden : List Link} {φ : Stage}

theorem inStage_outside : InStage t (.outside .ret) [] .free :=
  ⟨rfl, rfl, .nil t, fun _ h => absurd h List.not_mem_nil, fun _ _ _ _ h => by cases h⟩

/-- What is known goes by the rows that are locked. -/
theorem InStage.congr {t' : Tables} (h : InStage t x hidden φ) (hsame : server.Same x.locks t t') :
    InStage t' x hidden φ := by
  refine ⟨h.prog, h.writes, ⟨h.opened.visibility, h.opened.nodup, fun l hl => ?_⟩, h.locked, ?_⟩
  · exact (hsame _ (h.locked l hl)).trans (h.opened.missing l hl)
  · intro c r sent left hφ
    obtain ⟨hline, hcommits, hr⟩ := h.found c r sent left hφ
    refine ⟨hline, hcommits, hr.imp_right ?_⟩
    rintro ⟨hlock, hrow⟩
    refine ⟨hlock, Eq.trans ?_ hrow⟩
    have hnames : ∀ w ∈ hidden.map Write.insertLink, ∀ r' ∈ server.names w, r' ∈ x.locks := by
      intro w hw r' hr'
      obtain ⟨l, hl, rfl⟩ := List.mem_map.mp hw
      rw [List.mem_singleton.mp hr']
      exact h.locked l hl
    rw [withHidden_eq, withHidden_eq]
    exact RowServer.same_applyAll hsame hnames _ hlock

/-- Before it has sent anything a requester sees the tables with its hidden links. -/
theorem InStage.view (h : InStage t x hidden φ) (hsent : φ.sent = []) :
    server.engine.applyAll x.writes t = withHidden hidden t := by
  rw [h.writes, hsent, List.append_nil, withHidden_eq]

/-- **The stages by what comes next.** -/
theorem InStage.cases (h : InStage t x hidden φ) :
    (φ = .free ∧ x.prog = .ret) ∨
    (∃ c, φ = .begun c ∧ x.prog = .forUpdate c.reads fun t =>
      Call.sends (c.line (c.row t)) (c.ending (c.row t))) ∨
    (∃ c r sent w left, φ = .found c r sent (w :: left) ∧
      x.prog = .write w (Call.sends left (c.ending r))) ∨
    ∃ c r sent, φ = .found c r sent [] ∧ x.prog = .commit ⟨c, r⟩ .ret := by
  have hprog := h.prog
  cases φ with
  | free => exact .inl ⟨rfl, hprog⟩
  | begun c => exact .inr (.inl ⟨c, rfl, hprog.trans Call.statements_eq⟩)
  | found c r sent left =>
    cases left with
    | cons w left => exact .inr (.inr (.inl ⟨c, r, sent, w, left, rfl, hprog⟩))
    | nil =>
      obtain ⟨-, hcommits, -⟩ := h.found c r sent [] rfl
      refine .inr (.inr (.inr ⟨c, r, sent, rfl, hprog.trans ?_⟩))
      exact if_pos (hcommits rfl)

theorem Call.commitsAt_of_line {c : Call} {r : Option LinkRow} (h : c.line r = []) :
    c.op.request.commitsAt r = true := by
  unfold Call.line at h
  cases hq : c.op.request with
  | add l => cases r <;> simp [hq, Request.line] at h
  | delete k expunge => rfl

/-- The first statement: the row is there and locked, or a delete has missed it. -/
theorem InStage.forUpdate {c : Call} (h : InStage t x hidden (.begun c)) {y : Requester}
    (hprog : y.prog = Call.sends (c.line (c.row (withHidden hidden t)))
      (c.ending (c.row (withHidden hidden t))))
    (hwrites : y.writes = x.writes) (hlocks : y.locks = c.reads (withHidden hidden t) ++ x.locks) :
    InStage t y hidden (.found c (c.row (withHidden hidden t)) []
      (c.line (c.row (withHidden hidden t)))) := by
  refine ⟨hprog, hwrites.trans h.writes, h.opened, fun l hl => ?_, ?_⟩
  · rw [hlocks]
    exact List.mem_append_right _ (h.locked l hl)
  · rintro _ _ _ _ ⟨⟩
    refine ⟨rfl, Call.commitsAt_of_line, ?_⟩
    rw [hlocks]
    unfold Call.reads Call.row Call.key
    cases hop : c.op with
    | addLink l => exact .inr ⟨by simp [LinkOp.request, Request.key], rfl⟩
    | updateLink l => exact .inr ⟨by simp [LinkOp.request, Request.key], rfl⟩
    | deleteLink k expunge =>
      cases hr : (withHidden hidden t).linktable.lookup k with
      | none => exact .inl ⟨k, expunge, rfl, hr⟩
      | some r => exact .inr ⟨by simp [hr, LinkOp.request, Request.key], rfl⟩

/-- A call that ends without a `COMMIT` has put in a new hidden link. -/
theorem Call.eq_add_of_not_commitsAt {c : Call} {r : Option LinkRow}
    (h : ¬ c.op.request.commitsAt r = true) :
    ∃ l, c.op.request = .add l ∧ r = none ∧ l.visibility = visibilityHidden ∧
      c.line r = [.insertLink l] := by
  unfold Call.line
  cases hq : c.op.request with
  | delete k expunge => exact absurd (by rw [hq]; rfl) h
  | add l =>
    cases r with
    | some r => exact absurd (by rw [hq]; rfl) h
    | none =>
      have hv : l.visibility ≠ visibilityDefault := by simpa [hq, Request.commitsAt] using h
      refine ⟨l, rfl, rfl, (c.valid l hq).resolve_right hv, ?_⟩
      simp [Request.line, hv]

/-- A statement that writes. The last one of a call that sends no `COMMIT` leaves a hidden link. -/
theorem InStage.write {c : Call} {r : Option LinkRow} {sent left : List Write} {w : Write}
    (h : InStage t x hidden (.found c r sent (w :: left))) {y : Requester}
    (hprog : y.prog = Call.sends left (c.ending r)) (hwrites : y.writes = x.writes ++ [w])
    (hlocks : x.locks ⊆ y.locks) : ∃ hidden φ, InStage t y hidden φ := by
  obtain ⟨hline, -, hr⟩ := h.found c r sent (w :: left) rfl
  by_cases hstop : left = [] ∧ ¬ c.op.request.commitsAt r = true
  · obtain ⟨rfl, hno⟩ := hstop
    obtain ⟨l, hadd, rfl, hv, hl⟩ := Call.eq_add_of_not_commitsAt hno
    rw [hl] at hline
    obtain ⟨rfl, hw⟩ : sent = [] ∧ w = .insertLink l := by
      cases sent with
      | nil => exact ⟨rfl, by simpa using hline⟩
      | cons w' sent => simp at hline
    obtain ⟨hlock, hrow⟩ : .link c.key ∈ x.locks ∧ c.row (withHidden hidden t) = none := by
      refine hr.resolve_left ?_
      rintro ⟨k, expunge, hop, -⟩
      rw [hop] at hadd
      cases hadd
    have hkey : c.key = l.key := by
      unfold Call.key
      rw [hadd]
      rfl
    refine ⟨hidden ++ [l], .free, ?_, ?_, h.opened.append hv ?_, fun l' hl' => hlocks ?_,
      fun _ _ _ _ h => by cases h⟩
    · rw [hprog]
      exact if_neg hno
    · rw [hwrites, h.writes, hw]
      simp [Stage.sent]
    · unfold Call.row Request.row at hrow
      rw [hadd] at hrow
      exact hrow
    · rcases List.mem_append.mp hl' with hold | hlast
      · exact h.locked l' hold
      · rw [List.mem_singleton.mp hlast, ← hkey]
        exact hlock
  · refine ⟨hidden, .found c r (sent ++ [w]) left, hprog, ?_, h.opened,
      fun l hl => hlocks (h.locked l hl), ?_⟩
    · rw [hwrites, h.writes]
      simp [Stage.sent]
    · rintro _ _ _ _ ⟨⟩
      refine ⟨by rw [← hline]; simp, fun hnil => ?_, hr.imp_right fun hlock => ?_⟩
      · exact not_not.mp fun hno => hstop ⟨hnil, hno⟩
      · exact ⟨hlocks hlock.1, hlock.2⟩

/-- A `COMMIT` puts the call behind the others. -/
theorem InStage.commit {c : Call} {r : Option LinkRow} {sent : List Write} {t₀ : Tables}
    {log : List Done} (h : InStage t x hidden (.found c r sent [])) (hlog : Serial t₀ log t) :
    Serial t₀ (log ++ [⟨c, r⟩]) (server.engine.applyAll x.writes t) := by
  obtain ⟨hline, -, hr⟩ := h.found c r sent [] rfl
  rw [List.append_nil] at hline
  have hview : server.engine.applyAll x.writes t =
      server.engine.applyAll (c.line r) (withHidden hidden t) := by
    rw [h.writes, Engine.applyAll, List.foldl_append, withHidden_eq, ← hline]
    rfl
  rw [hview]
  obtain ⟨k, expunge, hop, rfl⟩ | ⟨-, rfl⟩ := hr
  · have hnil : c.line none = [] := by
      unfold Call.line
      rw [hop]
      rfl
    rw [hnil]
    exact .missed hlog h.opened hop
  · have heffect := Request.applyAll_line c.now c.op.request (withHidden hidden t)
    unfold Call.line Call.row
    rw [heffect]
    exact .done hlog h.opened

end

/-! ## Runs -/

/-- The rule's hypotheses, one for each kind of step. -/
theorem requesterRule (t₀ : Tables) :
    LockRule server Call.statements (fun _ _ => True)
      (fun t x => ∃ hidden φ, InStage t x hidden φ) (fun t log => Serial t₀ log t) where
  congr := by
    rintro t t' x hsame ⟨hidden, φ, h⟩
    exact ⟨hidden, φ, h.congr hsame⟩
  begin := by
    rintro t x c ⟨hidden, φ, h⟩ hret
    obtain ⟨rfl, -⟩ | ⟨c', rfl, hprog⟩ | ⟨c', r, sent, w, left, rfl, hprog⟩ |
      ⟨c', r, sent, rfl, hprog⟩ := h.cases
    · exact ⟨hidden, .begun c, rfl, h.writes, h.opened, h.locked, fun _ _ _ _ h => by cases h⟩
    all_goals
      rw [hprog] at hret
      cases hret
  outside := ⟨[], .free, inStage_outside⟩
  select := by
    rintro t x next ⟨hidden, φ, h⟩ hsel
    obtain ⟨rfl, hprog⟩ | ⟨c', rfl, hprog⟩ | ⟨c', r, sent, w, left, rfl, hprog⟩ |
      ⟨c', r, sent, rfl, hprog⟩ := h.cases
    all_goals
      rw [hprog] at hsel
      cases hsel
  forUpdate := by
    rintro t x rows next ⟨hidden, φ, h⟩ hfor
    obtain ⟨rfl, hprog⟩ | ⟨c, rfl, hprog⟩ | ⟨c', r, sent, w, left, rfl, hprog⟩ |
      ⟨c', r, sent, rfl, hprog⟩ := h.cases
    case inr.inl =>
      rw [hprog] at hfor
      cases hfor
      rw [h.view rfl]
      exact ⟨hidden, _, h.forUpdate rfl rfl rfl⟩
    all_goals
      rw [hprog] at hfor
      cases hfor
  write := by
    rintro t x w next ⟨hidden, φ, h⟩ - hwrite -
    obtain ⟨rfl, hprog⟩ | ⟨c, rfl, hprog⟩ | ⟨c, r, sent, w, left, rfl, hprog⟩ |
      ⟨c', r, sent, rfl, hprog⟩ := h.cases
    case inr.inr.inl =>
      rw [hprog] at hwrite
      cases hwrite
      exact h.write rfl rfl fun r hr => List.mem_append_right _ hr
    all_goals
      rw [hprog] at hwrite
      cases hwrite
  commit := by
    rintro t x entry next log ⟨hidden, φ, h⟩ hlog hcommit
    obtain ⟨rfl, hprog⟩ | ⟨c, rfl, hprog⟩ | ⟨c, r, sent, w, left, rfl, hprog⟩ |
      ⟨c, r, sent, rfl, hprog⟩ := h.cases
    case inr.inr.inr =>
      rw [hprog] at hcommit
      cases hcommit
      exact ⟨⟨[], .free, inStage_outside⟩, h.commit hlog⟩
    all_goals
      rw [hprog] at hcommit
      cases hcommit

def hiddenLink : Call :=
  ⟨5, .addLink ⟨1, 2, 3, visibilityHidden, [], 0, 0⟩, fun _ h => by cases h; exact .inl rfl⟩

def visibleLink : Call :=
  ⟨6, .addLink ⟨1, 2, 4, visibilityDefault, [], 0, 0⟩, fun _ h => by cases h; exact .inr rfl⟩

def hidesLink : Call := ⟨7, .deleteLink ⟨1, 2, 4⟩ false, fun _ h => by cases h⟩

/-- Requester `i` leaves a hidden link without a `COMMIT`. The first call of `j` is rolled back, and
its second one comes in before `i` goes on. -/
def twoRequesters {n : Nat} (i j : Fin n) : List (ConnectionEvent Call n) :=
  [.begin i hiddenLink, .go i, .begin j visibleLink, .go j, .go j, .go j, .go i, .fail j,
    .begin i hidesLink, .begin j visibleLink, .go j, .go j, .go j, .go j, .go i, .go i, .go i, .go i]

/-- The call that miscounts: it expunges a link that had been hidden. -/
def Done.ExpungesHidden (d : Done) : Prop :=
  ∃ k r, d.call.op = .deleteLink k true ∧ d.found = some r ∧ r.visibility = visibilityHidden

section

variable {t₀ t : Tables} {log : List Done} {hidden : List Link}

/-- A new hidden link is one call more. -/
theorem insertLink_eq_effect {l : Link} (hl : l.visibility = visibilityHidden)
    (hnone : t.linktable.lookup l.key = none) :
    (insertLink l t).2 = (Request.add l).effect 0 t := by
  have hrow : (Request.add l).row t = none := hnone
  have hline : (Request.add l).line 0 none = [.insertLink l] := by
    simp [Request.line, hl, visibilityHidden, visibilityDefault]
  rw [← Request.applyAll_line, hrow, hline]
  rfl

theorem Opened.left {l : Link} (h : Opened (hidden ++ [l]) t) : Opened hidden t := by
  refine ⟨fun l' hl' => h.visibility l' (List.mem_append_left _ hl'), ?_,
    fun l' hl' => h.missing l' (List.mem_append_left _ hl')⟩
  have hnodup := h.nodup
  rw [List.map_append] at hnodup
  exact hnodup.of_append_left

theorem counts_withHidden (hopened : Opened hidden t) (hexact : CountsExact (Conn.idle t))
    (hrows : ValidRows t) :
    CountsExact (Conn.idle (withHidden hidden t)) ∧ ValidRows (withHidden hidden t) := by
  induction hidden using List.reverseRecOn with
  | nil => exact ⟨hexact, hrows⟩
  | append_singleton hidden l ih =>
    obtain ⟨hexact', hrows'⟩ := ih hopened.left
    have hl : l.visibility = visibilityHidden := hopened.visibility l (by simp)
    have hnone : (withHidden hidden t).linktable.lookup l.key = none := by
      refine lookup_withHidden_eq_none.mpr ⟨hopened.missing l (by simp), fun hmem => ?_⟩
      have hnodup := hopened.nodup
      rw [List.map_append] at hnodup
      exact (List.nodup_append'.mp hnodup).2.2 hmem (List.mem_singleton_self _)
    have hvalid : ValidRequest (.add l) := by
      rintro _ ⟨⟩
      exact .inl hl
    have hok : ¬ ExpungesHidden (.add l) (withHidden hidden t) := by
      rintro ⟨k, r, hd, -⟩
      cases hd
    rw [withHidden_append, insertLink_eq_effect hl hnone]
    exact ⟨(Request.counts_exact_effect_iff 0 hexact' hrows' hvalid).mpr hok,
      Request.validRows_effect 0 hrows' hvalid⟩

theorem Serial.counts (h : Serial t₀ log t) (hexact : CountsExact (Conn.idle t₀))
    (hrows : ValidRows t₀) (hlog : ∀ d ∈ log, ¬ d.ExpungesHidden) :
    CountsExact (Conn.idle t) ∧ ValidRows t := by
  induction h with
  | start => exact ⟨hexact, hrows⟩
  | missed h hopened hop ih =>
    obtain ⟨hexact', hrows'⟩ := ih fun d hd => hlog d (List.mem_append_left _ hd)
    exact counts_withHidden hopened hexact' hrows'
  | @done log t hidden c h hopened ih =>
    obtain ⟨hexact', hrows'⟩ := ih fun d hd => hlog d (List.mem_append_left _ hd)
    obtain ⟨hexact'', hrows''⟩ := counts_withHidden hopened hexact' hrows'
    have hok : ¬ ExpungesHidden c.op.request (withHidden hidden t) := by
      rintro ⟨k, r, hd, hr, hv, -⟩
      refine hlog ⟨c, c.row (withHidden hidden t)⟩ (by simp) ⟨k, r, ?_, ?_, hv⟩
      · cases hop : c.op with
        | addLink l =>
          rw [hop] at hd
          cases hd
        | updateLink l =>
          rw [hop] at hd
          cases hd
        | deleteLink k' expunge =>
          rw [hop] at hd
          cases hd
          rfl
      · unfold Call.row Request.row
        rw [hd]
        exact hr
    exact ⟨(Request.counts_exact_effect_iff c.now hexact'' hrows'' c.valid).mpr hok,
      Request.validRows_effect c.now hrows'' c.valid⟩

end

end TokuQa.LinkBench.Mysql
