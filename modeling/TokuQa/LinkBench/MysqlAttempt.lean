import TokuQa.LinkBench.Mysql

/-!
# One attempt of a writing call

`addLinkImpl` and `deleteLinkImpl` read the link's row once, in their first statement, and
are a straight line from there on: a statement on the link row, perhaps one on the count row,
perhaps one on the link's data, perhaps a `COMMIT`. `Request.writesAt` is that line as a
function of the row found, and `attempt_body` says the methods send exactly these statements.

Everything the later chapters need about a call is then a fact about functions of the tables:

* `effect`: the tables after an undisturbed attempt, and `effectUncounted`: the same without
  the statement on the count table;
* `commits`: whether the attempt ends in a `COMMIT`;
* `before`: the tables a struck attempt leaves at the statement it was struck at.
-/

set_option autoImplicit false

namespace TokuQa.LinkBench

open TokuQa.Lib

namespace Mysql

/-- What a call asks of the two tables: `updateLink` is `addLink` with the answer negated. -/
inductive Request where
  | add (l : Link)
  | delete (k : LinkKey) (expunge : Bool)

end Mysql

open Mysql

def LinkOp.request : LinkOp → Request
  | .addLink l => .add l
  | .updateLink l => .add l
  | .deleteLink k expunge => .delete k expunge

namespace Mysql

namespace Request

def key : Request → LinkKey
  | .add l => l.key
  | .delete k _ => k

/-- The row the request is about. -/
def row (q : Request) (t : Tables) : Option LinkRow := t.linktable.lookup q.key

def body (now : Int) : Request → Body Bool
  | .add l => addLinkImpl now l
  | .delete k expunge => deleteLinkImpl now k expunge

/-! ## The straight line, part by part -/

def firstSite : Request → Site
  | .add _ => .insertLink
  | .delete _ _ => .selectLink

def firstWrite : Request → Tables → Tables
  | .add l, t => (insertLink l t).2
  | .delete _ _, t => t

def deleteWrite : Request → Option LinkRow → Option (Tables → Tables)
  | .delete k expunge, some r =>
    if r.visibility = visibilityHidden ∧ expunge = false then none
    else some (if expunge then expungeLink k else hideLink k)
  | _, _ => none

def countWrite (now : Int) : Request → Option LinkRow → Option (Tables → Tables)
  | .add l, none =>
    if l.visibility = visibilityDefault then some (upsertCount now l.countKey 1 1) else none
  | .add l, some r =>
    if r.visibility = l.visibility then none
    else if l.visibility = visibilityDefault then some (upsertCount now l.countKey 1 1)
    else some (upsertCount now l.countKey 0 (-1))
  | .delete _ _, none => none
  | .delete k expunge, some r =>
    if r.visibility = visibilityHidden ∧ expunge = false then none
    else some (decrementCount now k.countKey)

def dataWrite : Request → Option LinkRow → Option (Tables → Tables)
  | .add l, some _ => some (updateData l)
  | _, _ => none

/-- The writes of an attempt that finds the row `r`, each with its site. -/
def writesAt (now : Int) (q : Request) (r : Option LinkRow) : List (Site × (Tables → Tables)) :=
  (q.firstSite, q.firstWrite) :: ((q.deleteWrite r).toList.map (Prod.mk .deleteLink) ++
    ((q.countWrite now r).toList.map (Prod.mk .updateCount) ++
      (q.dataWrite r).toList.map (Prod.mk .updateData)))

/-- Only a new link that is not counted leaves without a `COMMIT`. -/
def commitsAt : Request → Option LinkRow → Bool
  | .add l, none => l.visibility = visibilityDefault
  | _, _ => true

def stepsAt (now : Int) (q : Request) (r : Option LinkRow) : List (Step Site Tables) :=
  line (q.writesAt now r) (if q.commitsAt r then some .commit else none)

section

variable (now : Int) (q : Request) (t : Tables)

def writes : List (Site × (Tables → Tables)) := q.writesAt now (q.row t)

def commits : Bool := q.commitsAt (q.row t)

/-- The sites of an undisturbed attempt, in order. -/
def sites : List Site :=
  (q.writes now t).map Prod.fst ++ (if q.commits t then some Site.commit else none).toList

/-- The tables after an undisturbed attempt. -/
def effect : Tables := written (q.writes now t) t

/-- The tables an attempt has when it reaches `site`. -/
def before (site : Site) : Tables := written ((q.writes now t).takeWhile fun w => w.1 ≠ site) t

/-- The tables after the statements that change whether the link is there and visible. -/
def linkPhase : Tables := (q.deleteWrite (q.row t)).getD id (q.firstWrite t)

/-- The tables after an attempt that leaves out the statement on the count table. -/
def effectUncounted : Tables := (q.dataWrite (q.row t)).getD id (q.linkPhase t)

end

/-- The connection an undisturbed attempt leaves. -/
def finish (now : Int) (q : Request) (db : Db) : Db :=
  if q.commits db.working then Conn.idle (q.effect now db.working)
  else ⟨db.committed, q.effect now db.working⟩

end Request

/-! ## The methods are those straight lines -/

theorem statement_bind {α β : Type} (site : Site) (f : Tables → α × Tables) (k : α → Body β)
    (s : Session Site Exn Tables) :
    (statement site f >>= k) s =
      (update site (fun t => (f t).2) >>= fun _ => k (f s.conn.working).1) s := by
  obtain ⟨c, fault⟩ := s
  cases fault with
  | none => rfl
  | some x => by_cases hx : x.site = site <;> simp [bind, EStateM.bind, statement, update, hx]

/-- The affected-row number tells the three states of the row apart. -/
theorem insertLink_fst (l : Link) (t : Tables) :
    (insertLink l t).1 = match t.linktable.lookup l.key with
      | none => 1
      | some r => if r.visibility = l.visibility then 0 else 2 := by
  unfold insertLink Table.insertOnDuplicate
  cases t.linktable.lookup l.key with
  | none => rfl
  | some r =>
    obtain ⟨v, d, ti, ve⟩ := r
    by_cases hv : v = l.visibility
    · simp [hv]
    · simp [hv, Ne.symm hv]

theorem addLinkImpl_eq (now : Int) (l : Link) (s : Session Site Exn Tables) :
    addLinkImpl now l s =
      script ((Request.add l).row s.conn.working).isSome
        ((Request.add l).stepsAt now ((Request.add l).row s.conn.working)) s := by
  have hfirst : addLinksNoCount [l] = statement .insertLink (insertLinks [l]) := rfl
  have hn : (insertLinks [l] s.conn.working).1 = (insertLink l s.conn.working).1 := rfl
  have hu : (fun t => (insertLinks [l] t).2) = fun t => (insertLink l t).2 := rfl
  have hrow : (Request.add l).row s.conn.working = s.conn.working.linktable.lookup l.key := rfl
  have hsite : (Request.add l).firstSite = .insertLink := rfl
  have hwrite : (Request.add l).firstWrite = fun t => (insertLink l t).2 := rfl
  unfold addLinkImpl Request.stepsAt Request.writesAt line
  rw [hfirst, statement_bind, hn, hu, insertLink_fst, hrow, hsite, hwrite]
  cases s.conn.working.linktable.lookup l.key with
  | none =>
    -- affected rows 1: counted only when the link is visible
    by_cases hv : l.visibility = visibilityDefault <;>
      simp [Request.deleteWrite, Request.countWrite, Request.dataWrite, Request.commitsAt, hv,
        script, Step.exec]
  | some r =>
    -- affected rows 0 when the visibility is the same, 2 otherwise
    by_cases hv : r.visibility = l.visibility
    · simp [Request.deleteWrite, Request.countWrite, Request.dataWrite, Request.commitsAt, hv,
        script, Step.exec]
    · by_cases hd : l.visibility = visibilityDefault
      · have hr : r.visibility ≠ visibilityDefault := hd ▸ hv
        simp [Request.deleteWrite, Request.countWrite, Request.dataWrite, Request.commitsAt, hr,
          hd, script, Step.exec]
      · simp [Request.deleteWrite, Request.countWrite, Request.dataWrite, Request.commitsAt, hv,
          hd, script, Step.exec]

theorem deleteLinkImpl_eq (now : Int) (k : LinkKey) (expunge : Bool)
    (s : Session Site Exn Tables) :
    deleteLinkImpl now k expunge s =
      script ((Request.delete k expunge).row s.conn.working).isSome
        ((Request.delete k expunge).stepsAt now ((Request.delete k expunge).row s.conn.working))
        s := by
  have hrow : (Request.delete k expunge).row s.conn.working =
    s.conn.working.linktable.lookup k := rfl
  have hsite : (Request.delete k expunge).firstSite = .selectLink := rfl
  have hwrite : (Request.delete k expunge).firstWrite = fun t => t := rfl
  unfold deleteLinkImpl Request.stepsAt Request.writesAt line
  rw [statement_bind, hrow, hsite, hwrite]
  cases s.conn.working.linktable.lookup k with
  | none =>
    simp [Request.deleteWrite, Request.countWrite, Request.dataWrite, Request.commitsAt, script,
      Step.exec]
  | some r =>
    by_cases hv : r.visibility = visibilityHidden <;> cases expunge <;>
      simp [Request.deleteWrite, Request.countWrite, Request.dataWrite, Request.commitsAt, hv,
        script, Step.exec]

namespace Request

variable {now : Int} {q : Request} {db : Db} {t : Tables}

theorem attempt_body (fault : Option (Fault Site Exn)) :
    attempt (q.body now) fault db =
      attempt (script (q.row db.working).isSome (q.stepsAt now (q.row db.working))) fault db := by
  unfold attempt EStateM.run
  cases q with
  | add l => rw [body, addLinkImpl_eq]
  | delete k expunge => rw [body, deleteLinkImpl_eq]

theorem applied_stepsAt : applied (q.stepsAt now (q.row db.working)) db = q.finish now db := by
  unfold stepsAt
  rw [applied_line]
  unfold finish commits effect writes
  cases q.commitsAt (q.row db.working) <;> rfl

/-- An attempt no fault reaches runs to its end. -/
theorem attempt_spared (now : Int) (q : Request) (db : Db) (fault : Option (Fault Site Exn))
    (h : ∀ f, fault = some f → f.site ∉ q.sites now db.working) :
    attempt (q.body now) fault db = .returned (q.row db.working).isSome (q.finish now db) := by
  rw [attempt_body, ← applied_stepsAt]
  refine attempt_script_spared fun f hf => ?_
  unfold stepsAt
  rw [map_site_line]
  exact h f hf

/-- A struck attempt stops before its statement, and nothing has been committed. -/
theorem attempt_struck (db : Db) {f : Strike} (h : f.site ∈ q.sites now db.working) :
    attempt (q.body now) (some f.fault) db =
      .thrown (.sql f.error.sqlState)
        (Conn.undo ⟨db.committed, q.before now db.working f.site⟩ f.error.undo) := by
  have hmem : f.fault.site ∈ (q.stepsAt now (q.row db.working)).map Step.site := by
    unfold stepsAt
    rw [map_site_line]
    exact h
  have hline : f.fault.site ∈ (q.writesAt now (q.row db.working)).map Prod.fst ++
      (if q.commitsAt (q.row db.working) then some Site.commit else none).toList := h
  rw [attempt_body, attempt_script_struck hmem]
  unfold stepsAt
  rw [applied_line_takeWhile db hline]
  rfl

/-! ## What an attempt has written when it reaches a statement -/

theorem effect_eq :
    q.effect now t = (q.dataWrite (q.row t)).getD id
      ((q.countWrite now (q.row t)).getD id (q.linkPhase t)) := by
  unfold effect writes writesAt linkPhase
  cases q.deleteWrite (q.row t) <;> cases q.countWrite now (q.row t) <;>
    cases q.dataWrite (q.row t) <;> rfl

theorem before_firstSite : q.before now t q.firstSite = t := by
  unfold before writes writesAt
  simp [written]

theorem before_deleteLink (h : (q.deleteWrite (q.row t)).isSome) :
    q.before now t .deleteLink = q.firstWrite t := by
  have hne : q.firstSite ≠ .deleteLink := by cases q <;> simp [firstSite]
  unfold before writes writesAt
  cases hd : q.deleteWrite (q.row t) with
  | none => rw [hd] at h; cases h
  | some f => simp [written, hne]

theorem before_updateCount (h : (q.countWrite now (q.row t)).isSome) :
    q.before now t .updateCount = q.linkPhase t := by
  have hne : q.firstSite ≠ .updateCount := by cases q <;> simp [firstSite]
  unfold before writes writesAt linkPhase
  cases hc : q.countWrite now (q.row t) with
  | none => rw [hc] at h; cases h
  | some f => cases q.deleteWrite (q.row t) <;> simp [written, hne]

theorem before_updateData (h : (q.dataWrite (q.row t)).isSome) :
    q.before now t .updateData = (q.countWrite now (q.row t)).getD id (q.linkPhase t) := by
  have hne : q.firstSite ≠ .updateData := by cases q <;> simp [firstSite]
  unfold before writes writesAt linkPhase
  cases hd : q.dataWrite (q.row t) with
  | none => rw [hd] at h; cases h
  | some f =>
    cases q.deleteWrite (q.row t) <;> cases q.countWrite now (q.row t) <;> simp [written, hne]

theorem before_commit : q.before now t .commit = q.effect now t := by
  have hne : q.firstSite ≠ .commit := by cases q <;> simp [firstSite]
  unfold before effect writes writesAt
  cases q.deleteWrite (q.row t) <;> cases q.countWrite now (q.row t) <;>
    cases q.dataWrite (q.row t) <;> simp [written, hne]

/-- A site of the attempt, with the part of the line it belongs to. -/
theorem mem_sites {site : Site} :
    site ∈ q.sites now t ↔
      site = q.firstSite ∨ (site = .deleteLink ∧ (q.deleteWrite (q.row t)).isSome) ∨
      (site = .updateCount ∧ (q.countWrite now (q.row t)).isSome) ∨
      (site = .updateData ∧ (q.dataWrite (q.row t)).isSome) ∨
      (site = .commit ∧ q.commits t = true) := by
  unfold sites writes writesAt
  cases q.deleteWrite (q.row t) <;> cases q.countWrite now (q.row t) <;>
    cases q.dataWrite (q.row t) <;> cases q.commits t <;> simp

/-! ## What the statements do to the tables -/

theorem lookup_insertLink (l : Link) (t : Tables) (k : LinkKey) :
    (insertLink l t).2.linktable.lookup k =
      if k = l.key then
        some ((t.linktable.lookup l.key).elim l.row fun r => { r with visibility := l.visibility })
      else t.linktable.lookup k :=
  Table.lookup_insertOnDuplicate ..

/-- Whatever the row was, once both statements on the link table have run it is the link's. -/
theorem updateData_insertLink (l : Link) (t : Tables) :
    updateData l (insertLink l t).2 = { t with linktable := t.linktable.insert l.key l.row } := by
  refine (Tables.mk.injEq ..).mpr ⟨Finmap.ext_lookup fun k => ?_, rfl⟩
  rw [Table.lookup_updateWhere, lookup_insertLink, lookup_insertLink, if_pos rfl,
    Table.lookup_insert_eq]
  by_cases hk : k = l.key
  · rw [if_pos hk, if_pos hk]; rfl
  · rw [if_neg hk, if_neg hk, if_neg hk]

theorem insertLink_absent {l : Link} (hr : t.linktable.lookup l.key = none) :
    (insertLink l t).2 = { t with linktable := t.linktable.insert l.key l.row } := by
  unfold insertLink Table.insertOnDuplicate
  simp [hr]

theorem linkPhase_counttable : (q.linkPhase t).counttable = t.counttable := by
  unfold linkPhase
  cases q with
  | add l => rfl
  | delete k expunge =>
    cases hr : (Request.delete k expunge).row t with
    | none => rfl
    | some r =>
      by_cases hv : r.visibility = visibilityHidden ∧ expunge = false
      · simp [deleteWrite, hv, firstWrite]
      · cases expunge <;> simp_all [deleteWrite, firstWrite, hideLink, expungeLink]

/-- **The count statement and the others do not meet**: an attempt is its effect on the link
table next to its effect on the count table. -/
theorem effect_split :
    q.effect now t = { q.effectUncounted t with
      counttable := ((q.countWrite now (q.row t)).getD id t).counttable } := by
  have hcount := linkPhase_counttable (q := q) (t := t)
  rw [effect_eq]
  unfold effectUncounted
  cases q with
  | add l =>
    cases hr : (Request.add l).row t with
    | none =>
      by_cases hv : l.visibility = visibilityDefault
      · simp [dataWrite, countWrite, hv, upsertCount, hcount]
      · simp [dataWrite, countWrite, hv, ← hcount]
    | some r =>
      by_cases hv : r.visibility = l.visibility
      · simp [dataWrite, countWrite, hv, ← hcount, updateData]
      · by_cases hd : l.visibility = visibilityDefault
        · have hr' : r.visibility ≠ visibilityDefault := hd ▸ hv
          simp [dataWrite, countWrite, hr', hd, updateData, upsertCount, hcount]
        · simp [dataWrite, countWrite, hv, hd, updateData, upsertCount, hcount]
  | delete k expunge =>
    cases hr : (Request.delete k expunge).row t with
    | none => simp [dataWrite, countWrite, ← hcount]
    | some r =>
      by_cases hv : r.visibility = visibilityHidden ∧ expunge = false
      · simp [dataWrite, countWrite, hv, ← hcount]
      · simp [dataWrite, countWrite, hv, decrementCount, hcount]

theorem effectUncounted_add (l : Link) :
    (Request.add l).effectUncounted t =
      { t with linktable := t.linktable.insert l.key l.row } := by
  unfold effectUncounted linkPhase
  cases hr : (Request.add l).row t with
  | none => exact insertLink_absent hr
  | some r => exact updateData_insertLink l t

theorem effectUncounted_delete (k : LinkKey) (expunge : Bool) :
    (Request.delete k expunge).effectUncounted t =
      ((Request.delete k expunge).deleteWrite (t.linktable.lookup k)).getD id t := rfl

theorem effectUncounted_counttable : (q.effectUncounted t).counttable = t.counttable := by
  have hcount := linkPhase_counttable (q := q) (t := t)
  unfold effectUncounted
  cases q with
  | add l => cases (Request.add l).row t <;> exact hcount
  | delete k expunge => exact hcount

/-- The count statement reads and writes the count table only. -/
theorem countWrite_getD (now : Int) (q : Request) (t : Tables) (r : Option LinkRow) (x : Tables) :
    (q.countWrite now r).getD id x =
      { x with counttable := ((q.countWrite now r).getD id { t with
        counttable := x.counttable }).counttable } := by
  cases q with
  | add l =>
    cases r with
    | none => by_cases hv : l.visibility = visibilityDefault <;> simp [countWrite, hv, upsertCount]
    | some r =>
      by_cases hv : r.visibility = l.visibility
      · simp [countWrite, hv]
      · by_cases hd : l.visibility = visibilityDefault
        · have hr' : r.visibility ≠ visibilityDefault := hd ▸ hv
          simp [countWrite, hr', hd, upsertCount]
        · simp [countWrite, hv, hd, upsertCount]
  | delete k expunge =>
    cases r with
    | none => simp [countWrite]
    | some r =>
      by_cases hv : r.visibility = visibilityHidden ∧ expunge = false
      · simp [countWrite, hv]
      · simp [countWrite, hv, decrementCount]

/-! ## Settled tables

Tables are **settled** for a request when an attempt finds nothing left to count: the row
already has the visibility asked for, or there is no visible row to delete. Whatever changed
the link table for the request leaves settled tables behind, which is what makes a second
attempt skip the count statement. -/

def settledAt : Request → Option LinkRow → Bool
  | .add _, none => false
  | .add l, some r => r.visibility = l.visibility
  | .delete _ _, none => true
  | .delete _ expunge, some r => r.visibility = visibilityHidden && !expunge

def settled (q : Request) (t : Tables) : Bool := q.settledAt (q.row t)

/-- What an attempt sends from settled tables. -/
def settledSites : Request → List Site
  | .add _ => [.insertLink, .updateData, .commit]
  | .delete _ _ => [.selectLink, .commit]

theorem countWrite_of_settled (h : q.settled t = true) : q.countWrite now (q.row t) = none := by
  unfold settled at h
  cases q with
  | add l =>
    cases hr : (Request.add l).row t with
    | none => rw [hr] at h; cases h
    | some r =>
      have hv : r.visibility = l.visibility := by simpa [hr, settledAt] using h
      simp [countWrite, hv]
  | delete k expunge =>
    cases hr : (Request.delete k expunge).row t with
    | none => rfl
    | some r =>
      have hv : r.visibility = visibilityHidden ∧ expunge = false := by
        simpa [hr, settledAt] using h
      simp [countWrite, hv]

theorem deleteWrite_of_settled (h : q.settled t = true) : q.deleteWrite (q.row t) = none := by
  unfold settled at h
  cases q with
  | add l => cases (Request.add l).row t <;> rfl
  | delete k expunge =>
    cases hr : (Request.delete k expunge).row t with
    | none => rfl
    | some r =>
      have hv : r.visibility = visibilityHidden ∧ expunge = false := by
        simpa [hr, settledAt] using h
      simp [deleteWrite, hv]

theorem effect_of_settled (h : q.settled t = true) : q.effect now t = q.effectUncounted t := by
  rw [effect_split, countWrite_of_settled h]
  exact (Tables.mk.injEq ..).mpr ⟨rfl, effectUncounted_counttable.symm⟩

theorem commits_of_settled (h : q.settled t = true) : q.commits t = true := by
  unfold settled at h
  unfold commits
  cases q with
  | add l =>
    cases hr : (Request.add l).row t with
    | none => rw [hr] at h; cases h
    | some r => rfl
  | delete k expunge => rfl

theorem mem_sites_of_settled {site : Site} (h : q.settled t = true) :
    site ∈ q.sites now t ↔ site ∈ q.settledSites := by
  rw [mem_sites, countWrite_of_settled h, deleteWrite_of_settled h, commits_of_settled h]
  unfold settled at h
  cases q with
  | add l =>
    cases hr : (Request.add l).row t with
    | none => rw [hr] at h; cases h
    | some r => simp [firstSite, dataWrite, settledSites]
  | delete k expunge => simp [firstSite, dataWrite, settledSites]

theorem settled_add_of_row {l : Link} {x : Tables} {r : LinkRow}
    (hx : x.linktable.lookup l.key = some r) (hv : r.visibility = l.visibility) :
    (Request.add l).settled x = true := by
  have hrow : (Request.add l).row x = some r := hx
  unfold settled
  rw [hrow]
  simpa [settledAt] using hv

theorem settled_delete_of_linktable {k : LinkKey} {expunge : Bool} {x : Tables}
    (hx : x.linktable = ((Request.delete k expunge).linkPhase t).linktable) :
    (Request.delete k expunge).settled x = true := by
  have hrow : (Request.delete k expunge).row x =
    ((Request.delete k expunge).linkPhase t).linktable.lookup k := by rw [← hx]; rfl
  unfold settled
  rw [hrow]
  unfold linkPhase
  cases hr : (Request.delete k expunge).row t with
  | none =>
    have hk : t.linktable.lookup k = none := hr
    simp [deleteWrite, firstWrite, hk, settledAt]
  | some r =>
    have hk : t.linktable.lookup k = some r := hr
    by_cases hv : r.visibility = visibilityHidden ∧ expunge = false
    · simp [deleteWrite, firstWrite, hk, hv, settledAt]
    · cases expunge with
      | true => simp [deleteWrite, firstWrite, expungeLink, settledAt]
      | false =>
        simp_all [deleteWrite, firstWrite, hideLink, Table.lookup_updateWhere, settledAt]

/-- **A changed link table is settled**, and what an attempt does from there is what was left
to do. -/
theorem settled_linkPhase {x : Tables} (hx : x.linktable = (q.linkPhase t).linktable) :
    q.settled x = true ∧
      q.effectUncounted x = { q.effectUncounted t with counttable := x.counttable } := by
  cases q with
  | add l =>
    -- the row has the link's visibility now, so the next INSERT finds nothing to change
    have hlook : x.linktable = (insertLink l t).2.linktable := by
      rw [hx]
      unfold linkPhase
      cases (Request.add l).row t <;> rfl
    refine ⟨?_, ?_⟩
    · have hself := lookup_insertLink l t l.key
      rw [if_pos rfl, ← hlook] at hself
      refine settled_add_of_row hself ?_
      cases t.linktable.lookup l.key <;> rfl
    · rw [effectUncounted_add, effectUncounted_add]
      refine (Tables.mk.injEq ..).mpr ⟨Finmap.ext_lookup fun k => ?_, rfl⟩
      rw [Table.lookup_insert_eq, Table.lookup_insert_eq, hlook, lookup_insertLink]
      by_cases hk : k = l.key
      · rw [if_pos hk, if_pos hk]
      · rw [if_neg hk, if_neg hk, if_neg hk]
  | delete k expunge =>
    -- the link is hidden or gone, so the next attempt returns after its SELECT
    have hset := settled_delete_of_linktable hx
    refine ⟨hset, ?_⟩
    have hx' : (Request.delete k expunge).effectUncounted x = x := by
      rw [effectUncounted, linkPhase, deleteWrite_of_settled hset]
      rfl
    rw [hx']
    exact (Tables.mk.injEq ..).mpr ⟨hx, rfl⟩

/-- A finished link table is settled, and the request has nothing more to do to it. -/
theorem settled_finished {x : Tables} (hx : x.linktable = (q.effectUncounted t).linktable) :
    q.settled x = true ∧ q.effectUncounted x = x := by
  cases q with
  | add l =>
    rw [effectUncounted_add] at hx
    have hlook : x.linktable.lookup l.key = some l.row := by rw [hx]; exact Finmap.lookup_insert _
    refine ⟨settled_add_of_row hlook rfl, ?_⟩
    rw [effectUncounted_add, Table.insert_self hlook]
  | delete k expunge =>
    obtain ⟨hset, heff⟩ := settled_linkPhase (q := .delete k expunge) hx
    exact ⟨hset, heff.trans ((Tables.mk.injEq ..).mpr ⟨hx.symm, rfl⟩)⟩

end Request

end Mysql

end TokuQa.LinkBench
