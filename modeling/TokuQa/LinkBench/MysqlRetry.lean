import TokuQa.LinkBench.MysqlAttempt

/-!
# The retry loop over one connection

`processSQLException` sends a call round again after a lock wait timeout or a deadlock, on
the same connection and without a rollback of its own. So a retried call starts from whatever
the server left: after a deadlock the committed tables, after a lock wait timeout the working
tables with every statement before the failed one still in them. `Request.survivor` follows
that through a list of strikes, and `retrying_body` says what the loop ends with.

The two consequences are about acknowledged calls: `retried_call_atomic_iff` (when a retried
call commits what an undisturbed one does) and `acknowledged_write_durable_iff` (when a call
that returned leaves nothing uncommitted behind).
-/

set_option autoImplicit false

namespace TokuQa.LinkBench.Mysql

open TokuQa.Lib

/-- How far the failed attempts have got within the transaction that is open. -/
inductive Phase where
  /-- Nothing of the request is in the working tables. -/
  | fresh
  /-- The link table has the request's change; `counted` tells whether the count table does. -/
  | settled (counted : Bool)
deriving DecidableEq

namespace Request

section

variable (now : Int) (q : Request)

/-- The statements of the next attempt. -/
def phaseSites (base : Tables) : Phase → List Site
  | .fresh => q.sites now base
  | .settled _ => q.settledSites

/-- What a lock wait timeout at `site` leaves. -/
def afterTimeout (site : Site) (phase : Phase) : Phase :=
  match site, phase with
  | .updateCount, _ => .settled false
  | .updateData, .fresh => .settled true
  | .commit, .fresh => .settled true
  | _, phase => phase

/-- The tables the surviving transaction started from, and what failed attempts of the same
transaction have already done, when an attempt finally meets no strike. -/
def survivor (committed : Tables) : Tables → Phase → List Strike → Tables × Phase
  | base, phase, [] => (base, phase)
  | base, phase, f :: fs =>
    if f.site ∈ q.phaseSites now base phase then
      match f.error with
      | .deadlock => survivor committed committed .fresh fs
      | .lockWaitTimeout => survivor committed base (afterTimeout f.site phase) fs
    else (base, phase)

/-- The connection the surviving attempt leaves. -/
def landing (committed base : Tables) : Phase → Db
  | .fresh => q.finish now ⟨committed, base⟩
  | .settled true => Conn.idle (q.effect now base)
  | .settled false => Conn.idle (q.effectUncounted base)

/-- `x` is what the working tables of a transaction begun from `base` look like. -/
def InPhase (base x : Tables) : Phase → Prop
  | .fresh => x = base
  | .settled true => q.settled x = true ∧ q.effect now x = q.effect now base
  | .settled false => q.settled x = true ∧ q.effect now x = q.effectUncounted base

end

variable {now : Int} {q : Request} {committed base x t : Tables} {phase : Phase}

/-! ## One failed attempt -/

theorem before_untouched {site : Site} (hs : site ∈ q.sites now t) (hc : site ≠ .updateCount)
    (hd : site ≠ .updateData) (hm : site ≠ .commit) : q.before now t site = t := by
  rcases mem_sites.mp hs with rfl | ⟨rfl, hw⟩ | ⟨rfl, _⟩ | ⟨rfl, _⟩ | ⟨rfl, _⟩
  · exact before_firstSite
  · rw [before_deleteLink hw]
    cases q with
    | add l => cases hr : (Request.add l).row t <;> rw [hr] at hw <;> cases hw
    | delete k expunge => rfl
  · exact absurd rfl hc
  · exact absurd rfl hd
  · exact absurd rfl hm

/-- The count statement is reached with the link table changed and the count table not. -/
theorem before_count (hs : Site.updateCount ∈ q.sites now t) :
    q.settled (q.before now t .updateCount) = true ∧
      q.effect now (q.before now t .updateCount) = q.effectUncounted t := by
  have hw : (q.countWrite now (q.row t)).isSome := by
    rcases mem_sites.mp hs with h | ⟨h, _⟩ | ⟨_, hw⟩ | ⟨h, _⟩ | ⟨h, _⟩
    · cases q <;> cases h
    · cases h
    · exact hw
    · cases h
    · cases h
  rw [before_updateCount hw]
  obtain ⟨hset, heff⟩ := settled_linkPhase (q := q) (t := t) (x := q.linkPhase t) rfl
  refine ⟨hset, ?_⟩
  rw [effect_of_settled hset, heff, linkPhase_counttable, ← effectUncounted_counttable (q := q)]

/-- After it, whatever is left to do is the link's own data. -/
theorem before_late {site : Site} (hs : site ∈ q.sites now t)
    (hl : site = .updateData ∨ site = .commit) :
    q.settled (q.before now t site) = true ∧
      q.effect now (q.before now t site) = q.effect now t := by
  rcases hl with rfl | rfl
  · have hw : (q.dataWrite (q.row t)).isSome := by
      rcases mem_sites.mp hs with h | ⟨h, _⟩ | ⟨h, _⟩ | ⟨_, hw⟩ | ⟨h, _⟩
      · cases q <;> cases h
      · cases h
      · cases h
      · exact hw
      · cases h
    have hcount := countWrite_getD now q t (q.row t) (q.linkPhase t)
    rw [linkPhase_counttable] at hcount
    rw [before_updateData hw, hcount]
    obtain ⟨hset, heff⟩ := settled_linkPhase (q := q) (t := t)
      (x := { q.linkPhase t with
        counttable := ((q.countWrite now (q.row t)).getD id t).counttable }) rfl
    refine ⟨hset, ?_⟩
    rw [effect_of_settled hset, heff, effect_split]
  · rw [before_commit]
    have hlink : (q.effect now t).linktable = (q.effectUncounted t).linktable := by
      rw [effect_split]
    obtain ⟨hset, heff⟩ := settled_finished hlink
    exact ⟨hset, (effect_of_settled hset).trans heff⟩

theorem updateCount_notMem_settledSites : Site.updateCount ∉ q.settledSites := by
  cases q <;> simp [settledSites]

theorem afterTimeout_settled {site : Site} {counted : Bool} (hs : site ≠ .updateCount) :
    afterTimeout site (.settled counted) = .settled counted := by
  cases site <;> first | rfl | exact absurd rfl hs

/-- **A lock wait timeout moves the transaction one phase on.** -/
theorem InPhase.timeout (hx : q.InPhase now base x phase) {site : Site}
    (hs : site ∈ q.sites now x) :
    q.InPhase now base (q.before now x site) (afterTimeout site phase) := by
  cases phase with
  | fresh =>
    -- where the timeout strikes decides what is left behind
    have hbase : x = base := hx
    subst hbase
    cases site with
    | updateCount => exact before_count hs
    | updateData => exact before_late hs (Or.inl rfl)
    | commit => exact before_late hs (Or.inr rfl)
    | insertLink => exact before_untouched hs (by simp) (by simp) (by simp)
    | selectLink => exact before_untouched hs (by simp) (by simp) (by simp)
    | deleteLink => exact before_untouched hs (by simp) (by simp) (by simp)
    | replaceCounts => exact before_untouched hs (by simp) (by simp) (by simp)
  | settled counted =>
    have hset : q.settled x = true := by cases counted <;> exact hx.1
    have hne : site ≠ .updateCount := by
      rintro rfl
      exact updateCount_notMem_settledSites ((mem_sites_of_settled hset).mp hs)
    -- a settled transaction stays settled, and its effect stays what it was
    have hstay : q.settled (q.before now x site) = true ∧
        q.effect now (q.before now x site) = q.effect now x := by
      by_cases hl : site = .updateData ∨ site = .commit
      · exact before_late hs hl
      · rw [not_or] at hl
        rw [before_untouched hs hne hl.1 hl.2]
        exact ⟨hset, rfl⟩
    rw [afterTimeout_settled hne]
    cases counted with
    | false => exact ⟨hstay.1, hstay.2.trans hx.2⟩
    | true => exact ⟨hstay.1, hstay.2.trans hx.2⟩

theorem InPhase.mem_sites (hx : q.InPhase now base x phase) {site : Site} :
    site ∈ q.sites now x ↔ site ∈ q.phaseSites now base phase := by
  cases phase with
  | fresh =>
    have hbase : x = base := hx
    rw [hbase]
    rfl
  | settled counted =>
    have hset : q.settled x = true := by cases counted <;> exact hx.1
    exact mem_sites_of_settled hset

/-! ## The loop -/

theorem InPhase.finish (hx : q.InPhase now base x phase) :
    q.finish now ⟨committed, x⟩ = q.landing now committed base phase := by
  cases phase with
  | fresh =>
    have hbase : x = base := hx
    rw [hbase]
    rfl
  | settled counted =>
    have hset : q.settled x = true := by cases counted <;> exact hx.1
    unfold Request.finish
    rw [if_pos (commits_of_settled hset)]
    cases counted with
    | false => exact congrArg Conn.idle hx.2
    | true => exact congrArg Conn.idle hx.2

theorem processSQLException_transient (f : Strike) :
    processSQLException (.sql f.error.sqlState) = true := by
  cases f.error <;> decide

/-- **The retry loop, end to end**: it always returns, and what it leaves is decided by the
transaction that survives the strikes. -/
theorem retrying_body (committed : Tables) (fs : List Strike) (hx : q.InPhase now base x phase) :
    ∃ found, retrying (q.body now) fs ⟨committed, x⟩ =
      .returned found (q.landing now committed
        (q.survivor now committed base phase fs).1 (q.survivor now committed base phase fs).2) := by
  induction fs generalizing base x phase with
  | nil =>
    refine ⟨(q.row x).isSome, ?_⟩
    have hrun := attempt_spared now q ⟨committed, x⟩ none fun f hf => by cases hf
    rw [hx.finish] at hrun
    exact hrun
  | cons f fs ih =>
    unfold retrying
    rw [List.map_cons, retry]
    by_cases hs : f.site ∈ q.sites now x
    · have hph := hx.mem_sites.mp hs
      have hthrow := attempt_struck ⟨committed, x⟩ hs
      rw [hthrow]
      simp only [processSQLException_transient, if_true]
      rw [survivor, if_pos hph]
      cases he : f.error with
      | deadlock =>
        have hfresh : q.InPhase now committed committed .fresh := rfl
        exact ih hfresh
      | lockWaitTimeout => exact ih (hx.timeout hs)
    · have hph : f.site ∉ q.phaseSites now base phase := fun h => hs (hx.mem_sites.mpr h)
      refine ⟨(q.row x).isSome, ?_⟩
      have hrun := attempt_spared now q ⟨committed, x⟩ (some f.fault)
        fun g hg => by cases hg; exact hs
      rw [hrun, survivor, if_neg hph, hx.finish]

/-! ## What the surviving transaction can look like -/

theorem survivor_base (now : Int) (q : Request) (committed base : Tables) (phase : Phase)
    (fs : List Strike) :
    (q.survivor now committed base phase fs).1 = base ∨
      (q.survivor now committed base phase fs).1 = committed := by
  induction fs generalizing base phase with
  | nil => exact Or.inl rfl
  | cons f fs ih =>
    rw [survivor]
    split
    · split
      · exact (ih committed .fresh).elim Or.inr Or.inr
      · exact ih base _
    · exact Or.inl rfl

theorem commits_of_countWrite {r : Option LinkRow} (h : (q.countWrite now r).isSome) :
    q.commitsAt r = true := by
  cases q with
  | add l =>
    cases r with
    | none => by_cases hv : l.visibility = visibilityDefault <;> simp_all [countWrite, commitsAt]
    | some r => rfl
  | delete k expunge => rfl

theorem commits_of_dataWrite {r : Option LinkRow} (h : (q.dataWrite r).isSome) :
    q.commitsAt r = true := by
  cases q with
  | add l =>
    cases r with
    | none => cases h
    | some r => rfl
  | delete k expunge => rfl

/-- A transaction is only ever settled on its way to a `COMMIT`, and a lost count is a count
statement that was there to be sent. -/
def PhaseOk (now : Int) (q : Request) (base : Tables) : Phase → Prop
  | .fresh => True
  | .settled true => q.commits base = true
  | .settled false => q.commits base = true ∧ (q.countWrite now (q.row base)).isSome

theorem PhaseOk.timeout (h : q.PhaseOk now base phase) {site : Site}
    (hs : site ∈ q.phaseSites now base phase) :
    q.PhaseOk now base (afterTimeout site phase) := by
  cases phase with
  | fresh =>
    rcases Request.mem_sites.mp hs with rfl | ⟨rfl, _⟩ | ⟨rfl, hw⟩ | ⟨rfl, hw⟩ | ⟨rfl, hw⟩
    · cases q <;> trivial
    · trivial
    · exact ⟨commits_of_countWrite hw, hw⟩
    · exact commits_of_dataWrite hw
    · exact hw
  | settled counted =>
    have hne : site ≠ .updateCount := by
      rintro rfl
      exact updateCount_notMem_settledSites hs
    rw [afterTimeout_settled hne]
    exact h

theorem survivor_phaseOk (fs : List Strike) (h : q.PhaseOk now base phase) :
    q.PhaseOk now (q.survivor now committed base phase fs).1
      (q.survivor now committed base phase fs).2 := by
  induction fs generalizing base phase with
  | nil => exact h
  | cons f fs ih =>
    rw [survivor]
    split
    · rename_i hs
      split
      · exact ih trivial
      · exact ih (h.timeout hs)
    · exact h

/-- The count statement always leaves a trace: a new count row, or a higher version. -/
theorem countWrite_changes {r : Option LinkRow} (h : (q.countWrite now r).isSome) :
    ((q.countWrite now r).getD id t).counttable ≠ t.counttable := by
  have hup : ∀ (k : CountKey) (row : CountRow) (f : CountRow → CountRow),
      (∀ c, (f c).version = c.version + 1) →
      (Table.insertOnDuplicate k row f t.counttable).2 ≠ t.counttable := by
    intro k row f hf he
    have hlook := Table.lookup_insertOnDuplicate t.counttable k k row f
    rw [he, if_pos rfl] at hlook
    cases hc : t.counttable.lookup k with
    | none => rw [hc] at hlook; cases hlook
    | some c =>
      rw [hc] at hlook
      have hself : c = f c := Option.some.inj hlook
      -- a row that was there has a higher version
      have hver := congrArg CountRow.version hself
      rw [hf] at hver
      omega
  cases q with
  | add l =>
    cases r with
    | none =>
      by_cases hv : l.visibility = visibilityDefault
      · simpa [countWrite, hv, upsertCount] using hup _ _ _ fun _ => rfl
      · simp [countWrite, hv] at h
    | some r =>
      by_cases hv : r.visibility = l.visibility
      · simp [countWrite, hv] at h
      · by_cases hd : l.visibility = visibilityDefault
        · have hr : r.visibility ≠ visibilityDefault := hd ▸ hv
          simpa [countWrite, hr, hd, upsertCount] using hup _ _ _ fun _ => rfl
        · simpa [countWrite, hv, hd, upsertCount] using hup _ _ _ fun _ => rfl
  | delete k expunge =>
    cases r with
    | none => cases h
    | some r =>
      by_cases hv : r.visibility = visibilityHidden ∧ expunge = false
      · simp [countWrite, hv] at h
      · simpa [countWrite, hv, decrementCount] using hup _ _ _ fun _ => rfl

end Request

/-! ## The states of a connection -/

/-- The states `conn_rw` goes through: opened on any tables, then any calls with any strikes,
and `clearErrors` in between. -/
inductive Live : Db → Prop where
  | opened (t : Tables) : Live (Conn.idle t)
  | called {db db' : Db} (now : Int) (op : LinkOp) (fs : List Strike) {v : Bool}
      (h : Live db) (hc : call now op fs db = .returned v db') : Live db'
  | cleared {db : Db} (h : Live db) : Live (clearErrors db)

/-- What a connection can have pending between calls: new rows that are not visible. -/
structure Pending (db : Db) : Prop where
  counts : db.working.counttable = db.committed.counttable
  rows : ∀ k, db.working.linktable.lookup k = db.committed.linktable.lookup k ∨
    (db.committed.linktable.lookup k = none ∧
      ∀ r, db.working.linktable.lookup k = some r → r.visibility ≠ visibilityDefault)

theorem Pending.idle (t : Tables) : Pending (Conn.idle t) := ⟨rfl, fun _ => Or.inl rfl⟩

/-- With no row pending there is no transaction to speak of. -/
theorem Pending.eq_idle {db : Db} (h : Pending db)
    (hall : ∀ k, db.working.linktable.lookup k = db.committed.linktable.lookup k) :
    db = Conn.idle db.committed := by
  have hw : db.working = db.committed :=
    (Tables.mk.injEq ..).mpr ⟨Finmap.ext_lookup hall, h.counts⟩
  exact (Conn.mk.injEq ..).mpr ⟨rfl, hw⟩

/-- The attempts of a call, by the request it makes. -/
def survives (now : Int) (op : LinkOp) (fs : List Strike) (db : Db) : Tables × Phase :=
  op.request.survivor now db.committed db.working .fresh fs

theorem call_returns (now : Int) (op : LinkOp) (fs : List Strike) (db : Db) :
    ∃ v, call now op fs db = .returned v (op.request.landing now db.committed
      (survives now op fs db).1 (survives now op fs db).2) := by
  have hfresh : op.request.InPhase now db.working db.working .fresh := rfl
  obtain ⟨found, hrun⟩ := Request.retrying_body db.committed fs hfresh
  cases op with
  | addLink l => exact ⟨found, hrun⟩
  | deleteLink k expunge => exact ⟨found, hrun⟩
  | updateLink l =>
    refine ⟨!found, ?_⟩
    have hadd : addLink now l fs db = _ := hrun
    simp only [call, updateLink, hadd]
    rfl

/-- An uncommitted finish is a new row that is not visible. -/
theorem Pending.finish {now : Int} {q : Request} {db : Db} (h : Pending db) :
    Pending (q.finish now db) := by
  unfold Request.finish
  split
  · exact Pending.idle _
  · rename_i hc
    cases q with
    | delete k expunge => exact absurd rfl hc
    | add l =>
      cases hr : (Request.add l).row db.working with
      | some r => exact absurd (by rw [Request.commits, hr]; rfl) hc
      | none =>
        have hv : l.visibility ≠ visibilityDefault := by
          intro hv
          exact hc (by rw [Request.commits, hr]; simpa [Request.commitsAt] using hv)
        have heff : (Request.add l).effect now db.working =
            { db.working with linktable := db.working.linktable.insert l.key l.row } := by
          rw [Request.effect_split, Request.effectUncounted_add, hr]
          simp [Request.countWrite, hv]
        refine ⟨?_, fun k => ?_⟩
        · rw [heff]
          exact h.counts
        · simp only [heff, Table.lookup_insert_eq]
          by_cases hk : k = l.key
          · subst hk
            right
            have hnone : db.working.linktable.lookup l.key = none := hr
            refine ⟨?_, fun r hrow => ?_⟩
            · rcases h.rows l.key with he | ⟨hn, _⟩
              · rw [← he]; exact hnone
              · exact hn
            · rw [if_pos rfl] at hrow
              rw [← Option.some.inj hrow]
              exact hv
          · rw [if_neg hk]
            exact h.rows k

/-- The transaction that survives starts from the working tables or from the committed ones. -/
theorem Pending.survives {db : Db} (h : Pending db) (now : Int) (op : LinkOp)
    (fs : List Strike) :
    Pending ⟨db.committed, (survives now op fs db).1⟩ := by
  rcases Request.survivor_base now op.request db.committed db.working .fresh fs with he | he
  · unfold Mysql.survives; rw [he]; exact h
  · unfold Mysql.survives; rw [he]; exact Pending.idle _

theorem Live.pending {db : Db} (h : Live db) : Pending db := by
  induction h with
  | opened t => exact Pending.idle t
  | cleared _ _ => exact Pending.idle _
  | called now op fs _ hc ih =>
    rename_i db db' v _
    obtain ⟨w, hw⟩ := call_returns now op fs db
    rw [hw] at hc
    cases hc
    cases hp : (Mysql.survives now op fs db).2 with
    | fresh => exact (ih.survives now op fs).finish
    | settled counted => cases counted <;> exact Pending.idle _

/-! ## A retried call and an undisturbed one -/

/-- What a rollback in the middle of the call may find pending: nothing, or, for a call that
makes a link visible, that link's own hidden row. A call that commits nothing does not mind. -/
def RollbackSafe (q : Request) (db : Db) : Prop :=
  q.commits db.working = false ∨
    ∀ k, db.working.linktable.lookup k ≠ db.committed.linktable.lookup k →
      k = q.key ∧ ∃ l, q = .add l ∧ l.visibility = visibilityDefault

/-- When the strikes of a call do no harm: the transaction that survives was not struck at
its count statement, and it is the one the call began in or the rollback was safe. -/
def RetrySafe (now : Int) (op : LinkOp) (fs : List Strike) (db : Db) : Prop :=
  (survives now op fs db).2 ≠ .settled false ∧
    ((survives now op fs db).1 = db.working ∨ RollbackSafe op.request db)

namespace Request

variable {now : Int} {q : Request} {db : Db} {base : Tables}

/-- A count statement due from the committed tables is due from the working ones as well:
pending rows are not visible. -/
theorem countWrite_pending (h : Pending db)
    (hc : (q.countWrite now (q.row db.committed)).isSome) :
    (q.countWrite now (q.row db.working)).isSome := by
  rcases h.rows q.key with he | ⟨hn, hv⟩
  · have hrow : q.row db.working = q.row db.committed := he
    rw [hrow]
    exact hc
  · have hrow : q.row db.committed = none := hn
    rw [hrow] at hc
    cases q with
    | delete k expunge => cases hc
    | add l =>
      have hl : l.visibility = visibilityDefault := by
        by_contra hl
        simp [countWrite, hl] at hc
      cases hw : (Request.add l).row db.working with
      | none => exact hc
      | some r =>
        have hr : r.visibility ≠ visibilityDefault := hv r hw
        simp [countWrite, hl, hr]

theorem finish_committed (h : q.commits db.working = true) :
    (q.finish now db).committed = q.effect now db.working := by
  unfold finish
  rw [if_pos h]
  rfl

theorem finish_committed_of_open (h : q.commits db.working = false) :
    (q.finish now db).committed = db.committed := by
  unfold finish
  rw [h]
  rfl

theorem effect_counttable_ne {t : Tables} (h : (q.countWrite now (q.row t)).isSome) :
    (q.effect now t).counttable ≠ t.counttable := by
  have hsplit : (q.effect now t).counttable = _ := congrArg Tables.counttable effect_split
  rw [hsplit]
  exact countWrite_changes h

/-- What a lost count leaves is never what an undisturbed call commits. -/
theorem lost_count_differs (h : Pending db)
    (hbase : base = db.working ∨ base = db.committed)
    (hc : (q.countWrite now (q.row base)).isSome) :
    q.effectUncounted base ≠ (q.finish now db).committed := by
  have hw : (q.countWrite now (q.row db.working)).isSome := by
    rcases hbase with rfl | rfl
    · exact hc
    · exact countWrite_pending h hc
  have hcounts : base.counttable = db.working.counttable := by
    rcases hbase with rfl | rfl
    · rfl
    · exact h.counts.symm
  rw [finish_committed (commits_of_countWrite hw)]
  intro he
  have hleft : (q.effectUncounted base).counttable = base.counttable := effectUncounted_counttable
  rw [he, hcounts] at hleft
  exact effect_counttable_ne hw hleft

/-- A request does not touch the rows of other keys. -/
theorem lookup_effect_ne {k : LinkKey} (hk : k ≠ q.key) (t : Tables) :
    (q.effect now t).linktable.lookup k = t.linktable.lookup k := by
  have hlink : (q.effect now t).linktable = (q.effectUncounted t).linktable := by rw [effect_split]
  rw [hlink]
  cases q with
  | add l =>
    have hk' : k ≠ l.key := hk
    rw [effectUncounted_add, Table.lookup_insert_eq, if_neg hk']
  | delete k' expunge =>
    have hk' : k ≠ k' := hk
    rw [effectUncounted_delete]
    cases hr : t.linktable.lookup k' with
    | none => rfl
    | some r =>
      by_cases hv : r.visibility = visibilityHidden ∧ expunge = false
      · simp [deleteWrite, hv]
      · cases expunge with
        | true => simp [deleteWrite, expungeLink, hk', Finmap.lookup_erase_ne]
        | false => simp_all [deleteWrite, hideLink, Table.lookup_updateWhere]

/-- A call that begins with no row pending commits nothing on the rows of other keys. -/
theorem lookup_finish_idle {k : LinkKey} (hk : k ≠ q.key) (t : Tables) :
    (q.finish now (Conn.idle t)).committed.linktable.lookup k = t.linktable.lookup k := by
  cases hcom : q.commits (Conn.idle t).working with
  | true =>
    rw [finish_committed hcom]
    exact lookup_effect_ne hk t
  | false =>
    rw [finish_committed_of_open hcom]
    rfl

/-! ### A rollback that drops the row of the request's own key -/

theorem commits_of_row {t : Tables} {r : LinkRow} (h : q.row t = some r) : q.commits t = true := by
  unfold commits
  rw [h]
  cases q <;> rfl

theorem commits_add_of_absent {l : Link} {t : Tables} (h : (Request.add l).row t = none) :
    (Request.add l).commits t = decide (l.visibility = visibilityDefault) := by
  unfold commits
  rw [h]
  rfl

/-- Making a link visible comes to the same with and without its hidden row. -/
theorem effect_add_hidden {l : Link} {r : LinkRow} (h : Pending db)
    (hl : l.visibility = visibilityDefault) (hn : db.committed.linktable.lookup l.key = none)
    (hr : db.working.linktable.lookup l.key = some r) (hv : r.visibility ≠ visibilityDefault)
    (hk : ∀ k, k ≠ l.key → db.working.linktable.lookup k = db.committed.linktable.lookup k) :
    (Request.add l).effect now db.committed = (Request.add l).effect now db.working := by
  have hrow : (Request.add l).row db.working = some r := hr
  have hrow' : (Request.add l).row db.committed = none := hn
  have hne : r.visibility ≠ l.visibility := hl ▸ hv
  have hlink : db.committed.linktable.insert l.key l.row =
      db.working.linktable.insert l.key l.row := by
    refine Finmap.ext_lookup fun k => ?_
    rw [Table.lookup_insert_eq, Table.lookup_insert_eq]
    by_cases hkl : k = l.key
    · rw [if_pos hkl, if_pos hkl]
    · rw [if_neg hkl, if_neg hkl, hk k hkl]
  have hcount : (Request.add l).countWrite now (some r) = (Request.add l).countWrite now none := by
    simp [countWrite, hl, hv]
  rw [effect_split, effect_split, effectUncounted_add, effectUncounted_add, hrow, hrow', hcount,
    hlink]
  simp [countWrite, hl, upsertCount, h.counts]

theorem effect_delete_absent {k : LinkKey} {expunge : Bool} {t : Tables}
    (h : t.linktable.lookup k = none) : (Request.delete k expunge).effect now t = t := by
  have hrow : (Request.delete k expunge).row t = none := h
  have hset : (Request.delete k expunge).settled t = true := by
    unfold settled
    rw [hrow]
    rfl
  rw [effect_of_settled hset, effectUncounted, linkPhase, hrow]
  rfl

/-- Deleting a pending link shows in what is committed: the link is still there, or it has been
counted. -/
theorem effect_delete_pending {k : LinkKey} {expunge : Bool} {r : LinkRow} (h : Pending db)
    (hn : db.committed.linktable.lookup k = none) (hr : db.working.linktable.lookup k = some r) :
    (Request.delete k expunge).effect now db.working ≠ db.committed := by
  have hrow : (Request.delete k expunge).row db.working = some r := hr
  intro he
  by_cases hq : r.visibility = visibilityHidden ∧ expunge = false
  · -- hidden already: the delete commits the row that was pending
    have hset : (Request.delete k expunge).settled db.working = true := by
      unfold settled
      rw [hrow]
      simp [settledAt, hq]
    have hlook := congrArg (fun t : Tables => t.linktable.lookup k) he
    rw [effect_of_settled hset, effectUncounted, linkPhase, deleteWrite_of_settled hset,
      hrow] at hlook
    simp [dataWrite, firstWrite, hn, hr] at hlook
  · have hw : ((Request.delete k expunge).countWrite now
        ((Request.delete k expunge).row db.working)).isSome := by
      rw [hrow]
      simp [countWrite, hq]
    refine effect_counttable_ne hw ?_
    rw [he, h.counts]

/-- A rollback that drops the hidden row of the request's own key: only making the link
visible comes to the same. -/
theorem rollback_own_row {r : LinkRow} (h : Pending db)
    (hn : db.committed.linktable.lookup q.key = none)
    (hr : db.working.linktable.lookup q.key = some r) (hv : r.visibility ≠ visibilityDefault)
    (hk : ∀ k, k ≠ q.key → db.working.linktable.lookup k = db.committed.linktable.lookup k) :
    (q.finish now (Conn.idle db.committed)).committed = (q.finish now db).committed ↔
      ∃ l, q = .add l ∧ l.visibility = visibilityDefault := by
  rw [finish_committed (commits_of_row hr)]
  cases q with
  | add l =>
    have hcom := commits_add_of_absent (l := l) (t := (Conn.idle db.committed).working) hn
    by_cases hl : l.visibility = visibilityDefault
    · rw [finish_committed (hcom.trans (decide_eq_true hl))]
      exact iff_of_true (effect_add_hidden h hl hn hr hv hk) ⟨l, rfl, hl⟩
    · rw [finish_committed_of_open (hcom.trans (decide_eq_false hl))]
      refine iff_of_false ?_ ?_
      · intro he
        have hlook := congrArg (fun t : Tables => t.linktable.lookup l.key) he
        have hnone : db.committed.linktable.lookup l.key = none := hn
        rw [effect_split, effectUncounted_add] at hlook
        simp [Conn.idle, hnone] at hlook
      · rintro ⟨l', hq, hl'⟩
        cases hq
        exact hl hl'
  | delete k expunge =>
    have hcom : (Request.delete k expunge).commits (Conn.idle db.committed).working = true := rfl
    have hsame : (Request.delete k expunge).effect now (Conn.idle db.committed).working =
        db.committed := effect_delete_absent hn
    rw [finish_committed hcom, hsame]
    refine iff_of_false ?_ (by rintro ⟨l, hq, _⟩; cases hq)
    exact fun he => effect_delete_pending h hn hr he.symm

/-! ### Any rollback -/

/-- A call that commits nothing commits nothing after a rollback either. -/
theorem commits_rollback (h : Pending db) (hcom : q.commits db.working = false) :
    q.commits (Conn.idle db.committed).working = false := by
  cases q with
  | delete k expunge => cases hcom
  | add l =>
    have hrow : (Request.add l).row db.working = none := by
      cases hr : (Request.add l).row db.working with
      | none => rfl
      | some r =>
        rw [commits_of_row hr] at hcom
        cases hcom
    have hrow' : (Request.add l).row (Conn.idle db.committed).working = none := by
      rcases h.rows l.key with he | ⟨hn, _⟩
      · exact he.symm.trans hrow
      · exact hn
    rw [commits_add_of_absent hrow] at hcom
    rw [commits_add_of_absent hrow', hcom]

/-- **A rollback in the middle of a call** is repaired by the next attempt exactly when it
was safe. -/
theorem rollback_finish_iff (now : Int) (q : Request) (h : Pending db) :
    (q.finish now (Conn.idle db.committed)).committed = (q.finish now db).committed ↔
      RollbackSafe q db := by
  cases hcom : q.commits db.working with
  | false =>
    refine iff_of_true ?_ (Or.inl hcom)
    rw [finish_committed_of_open (commits_rollback h hcom), finish_committed_of_open hcom]
    rfl
  | true =>
    by_cases hk : ∀ k, k ≠ q.key →
        db.working.linktable.lookup k = db.committed.linktable.lookup k
    · have hsafe : db.working.linktable.lookup q.key = db.committed.linktable.lookup q.key →
          ((q.finish now (Conn.idle db.committed)).committed = (q.finish now db).committed ↔
            RollbackSafe q db) := by
        intro hown
        have hall : ∀ k, db.working.linktable.lookup k = db.committed.linktable.lookup k := by
          intro k
          by_cases hq : k = q.key
          · rw [hq, hown]
          · exact hk k hq
        exact iff_of_true (by rw [← h.eq_idle hall]) (Or.inr fun k hne => absurd (hall k) hne)
      rcases h.rows q.key with he | ⟨hn, hv⟩
      · exact hsafe he
      · cases hr : db.working.linktable.lookup q.key with
        | none => exact hsafe (hr.trans hn.symm)
        | some r =>
          rw [rollback_own_row h hn hr (hv r hr) hk]
          constructor
          · intro hadd
            refine Or.inr fun k hne => ⟨?_, hadd⟩
            by_contra hq
            exact hne (hk k hq)
          · rintro (hf | hall)
            · rw [hcom] at hf
              cases hf
            · exact (hall q.key (by rw [hr, hn]; simp)).2
    · -- a row of another key is pending: only the undisturbed call commits it
      simp only [not_forall] at hk
      obtain ⟨k, hq, hne⟩ := hk
      refine iff_of_false ?_ ?_
      · rw [finish_committed hcom]
        intro he
        have hlook := congrArg (fun t : Tables => t.linktable.lookup k) he
        simp only [lookup_finish_idle hq, lookup_effect_ne hq] at hlook
        exact hne hlook.symm
      · rintro (hf | hall)
        · rw [hcom] at hf
          cases hf
        · exact hq (hall k hne).1

end Request

theorem survives_undisturbed (now : Int) (op : LinkOp) (db : Db) :
    survives now op [] db = (db.working, .fresh) := rfl

theorem survives_phaseOk (now : Int) (op : LinkOp) (fs : List Strike) (db : Db) :
    op.request.PhaseOk now (survives now op fs db).1 (survives now op fs db).2 :=
  Request.survivor_phaseOk fs trivial

theorem survives_base (now : Int) (op : LinkOp) (fs : List Strike) (db : Db) :
    (survives now op fs db).1 = db.working ∨ (survives now op fs db).1 = db.committed :=
  Request.survivor_base now op.request db.committed db.working .fresh fs

/-- **Retrying is atomic exactly when it is safe.** A call that was struck any number of times
commits what the same call commits undisturbed if and only if its count statement was not the
one a lock wait timeout took out, and no rollback dropped rows that the call would have
committed along. -/
theorem retried_call_atomic_iff {db : Db} (h : Live db) (now : Int) (op : LinkOp)
    (fs : List Strike) :
    ∃ v v₀ db' db₀, call now op fs db = .returned v db' ∧ call now op [] db = .returned v₀ db₀ ∧
      (db'.committed = db₀.committed ↔ RetrySafe now op fs db) := by
  obtain ⟨v, hv⟩ := call_returns now op fs db
  obtain ⟨v₀, hv₀⟩ := call_returns now op [] db
  refine ⟨v, v₀, _, _, hv, hv₀, ?_⟩
  have hpend := h.pending
  have hok := survives_phaseOk now op fs db
  have hbase := survives_base now op fs db
  rw [survives_undisturbed]
  unfold RetrySafe
  generalize survives now op fs db = v at hok hbase ⊢
  obtain ⟨base, phase⟩ := v
  have hrollback := Request.rollback_finish_iff now op.request hpend
  -- the transaction that commits is the call's own, or one begun after a rollback
  have hfresh : ((op.request.finish now ⟨db.committed, base⟩).committed =
      (op.request.finish now db).committed ↔ base = db.working ∨ RollbackSafe op.request db) := by
    by_cases hb : base = db.working
    · subst hb
      exact iff_of_true rfl (Or.inl rfl)
    · have hc : base = db.committed := hbase.resolve_left hb
      subst hc
      exact hrollback.trans (by simp [hb])
  cases phase with
  | fresh => exact hfresh.trans (by simp)
  | settled counted =>
    cases counted with
    | true =>
      have hcom : op.request.commits base = true := hok
      have hcommits : op.request.commits (⟨db.committed, base⟩ : Db).working = true := hcom
      have hland : (op.request.landing now db.committed base (.settled true)).committed =
          (op.request.finish now ⟨db.committed, base⟩).committed :=
        (Request.finish_committed hcommits).symm
      rw [hland]
      exact hfresh.trans (by simp)
    | false => exact iff_of_false (Request.lost_count_differs hpend hbase hok.2) (by simp)

/-- A link of `(1, 2)`, for the runs on fixed inputs. -/
def oneLink (visibility : Int) : Link := ⟨1, 2, 3, visibility, [], 0, 0⟩

theorem retried_call_atomic_opened :
    ∃ v v₀ db' db₀,
      call 5 (.addLink (oneLink visibilityDefault)) [⟨.commit, .deadlock⟩]
        (Conn.idle Tables.empty) = .returned v db' ∧
      call 5 (.addLink (oneLink visibilityDefault)) [] (Conn.idle Tables.empty) =
        .returned v₀ db₀ ∧
      (db'.committed = db₀.committed ↔
        RetrySafe 5 (.addLink (oneLink visibilityDefault)) [⟨.commit, .deadlock⟩]
          (Conn.idle Tables.empty)) :=
  retried_call_atomic_iff (Live.opened Tables.empty) 5 (.addLink (oneLink visibilityDefault))
    [⟨.commit, .deadlock⟩]

/-- A new link whose count statement waits too long for its lock: the second attempt finds
the row the first one inserted, and never counts it. -/
theorem retried_addLink_loses_count :
    (call 5 (.addLink (oneLink visibilityDefault)) [⟨.updateCount, .lockWaitTimeout⟩]
        (Conn.idle Tables.empty)).value? = some true ∧
      (call 5 (.addLink (oneLink visibilityDefault)) [] (Conn.idle Tables.empty)).value? =
        some false ∧
      (call 5 (.addLink (oneLink visibilityDefault)) [⟨.updateCount, .lockWaitTimeout⟩]
        (Conn.idle Tables.empty)).conn.committed ≠
      (call 5 (.addLink (oneLink visibilityDefault)) [] (Conn.idle Tables.empty)).conn.committed := by
  decide

/-! ## Acknowledged calls -/

/-- What `db'` has over `db` is committed, and stays when the connection is dropped. -/
structure WriteDurable (db db' : Db) : Prop where
  links : ∀ k, db'.working.linktable.lookup k ≠ db.working.linktable.lookup k →
    db'.committed.linktable.lookup k = db'.working.linktable.lookup k
  counts : ∀ k, db'.working.counttable.lookup k ≠ db.working.counttable.lookup k →
    db'.committed.counttable.lookup k = db'.working.counttable.lookup k
  cleared : (clearErrors db').working = db'.working

/-- The call adds a link that is not there yet and is not visible. -/
def AddsHidden (op : LinkOp) (t : Tables) : Prop :=
  ∃ l, op.request = .add l ∧ l.visibility ≠ visibilityDefault ∧ t.linktable.lookup l.key = none

theorem commits_eq_false_iff {op : LinkOp} {t : Tables} :
    op.request.commits t = false ↔ AddsHidden op t := by
  unfold AddsHidden Request.commits
  cases op.request with
  | delete k expunge => simp [Request.commitsAt]
  | add l =>
    have hrow : (Request.add l).row t = t.linktable.lookup l.key := rfl
    rw [hrow]
    cases hr : t.linktable.lookup l.key <;> simp [Request.commitsAt, hr]

/-- A call that ends in a `COMMIT` leaves nothing pending. -/
theorem landing_of_commits (now : Int) {q : Request} (committed : Tables) {base : Tables}
    (phase : Phase) (h : q.commits base = true) :
    ∃ t, q.landing now committed base phase = Conn.idle t := by
  cases phase with
  | fresh => exact ⟨q.effect now base, if_pos h⟩
  | settled counted => cases counted <;> exact ⟨_, rfl⟩

/-- **An acknowledged write is durable** unless it adds a link that is not visible: then the
row stays in the open transaction, and `clearErrors` drops it. -/
theorem acknowledged_write_durable_iff {db : Db} (h : Live db) (now : Int) (op : LinkOp)
    (fs : List Strike) :
    ∃ v db', call now op fs db = .returned v db' ∧
      (WriteDurable db db' ↔ ¬ AddsHidden op (survives now op fs db).1) := by
  obtain ⟨v, hv⟩ := call_returns now op fs db
  refine ⟨v, _, hv, ?_⟩
  have hok := survives_phaseOk now op fs db
  have hpend := h.pending.survives now op fs
  generalize survives now op fs db = w at hok hpend ⊢
  obtain ⟨base, phase⟩ := w
  rw [← commits_eq_false_iff, Bool.not_eq_false]
  cases hcom : op.request.commits base with
  | true =>
    obtain ⟨t, ht⟩ := landing_of_commits now db.committed phase hcom
    rw [ht]
    exact iff_of_true ⟨fun _ _ => rfl, fun _ _ => rfl, rfl⟩ rfl
  | false =>
    refine iff_of_false ?_ (by simp)
    obtain ⟨l, hop, hl, hnone⟩ := commits_eq_false_iff.mp hcom
    rintro ⟨-, -, hclear⟩
    -- an attempt that got as far as settling would have committed
    have hphase : phase = .fresh := by
      cases phase with
      | fresh => rfl
      | settled counted =>
        cases counted with
        | true => exact absurd hok (by simp [Request.PhaseOk, hcom])
        | false => exact absurd hok.1 (by simp [hcom])
    subst hphase
    have hcommitted : db.committed.linktable.lookup l.key = none := by
      rcases hpend.rows l.key with he | ⟨hn, _⟩
      · exact he.symm.trans hnone
      · exact hn
    have hland : op.request.landing now db.committed base .fresh =
        ⟨db.committed, op.request.effect now base⟩ := by
      unfold Request.landing Request.finish
      rw [hcom]
      rfl
    rw [hland, hop] at hclear
    have hlook := congrArg (fun t : Tables => t.linktable.lookup l.key) hclear
    simp only [clearErrors, Conn.rollback, Request.effect_split, Request.effectUncounted_add,
      Finmap.lookup_insert] at hlook
    rw [hcommitted] at hlook
    cases hlook

theorem acknowledged_write_durable_opened :
    ∃ v db', call 5 (.updateLink (oneLink visibilityDefault)) [] (Conn.idle Tables.empty) =
        .returned v db' ∧
      (WriteDurable (Conn.idle Tables.empty) db' ↔
        ¬ AddsHidden (.updateLink (oneLink visibilityDefault))
          (survives 5 (.updateLink (oneLink visibilityDefault)) [] (Conn.idle Tables.empty)).1) :=
  acknowledged_write_durable_iff (Live.opened Tables.empty) 5
    (.updateLink (oneLink visibilityDefault)) []

/-- The row of a new hidden link is gone after `clearErrors`. -/
theorem hidden_addLink_not_durable :
    (call 5 (.addLink (oneLink visibilityHidden)) [] (Conn.idle Tables.empty)).value? =
        some false ∧
      ¬ WriteDurable (Conn.idle Tables.empty)
        (call 5 (.addLink (oneLink visibilityHidden)) [] (Conn.idle Tables.empty)).conn := by
  refine ⟨by decide, fun h => ?_⟩
  have hclear := h.cleared
  revert hclear
  decide

end TokuQa.LinkBench.Mysql
