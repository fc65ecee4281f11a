import TokuQa.Lib.Run
import TokuQa.LinkBench.MysqlRetry

/-!
# The count table against the link table

`testCount` compares a count row with the visible links of its `(id1, link_type)`. This is
the comparison as an invariant of error-free calls. Every call touches the row of one key, so
the visible links of one `CountKey` change by what that row contributes before and after
(`visibleCount_effect`); the count statement is read off the same two rows.

They move together except in one place. `deleteLinkImpl` works out whether the link was
visible, "only update count if link is present and visible", and then updates the count
whatever came out: expunging a link that is already hidden takes one off a count that the
link was no longer part of. `ExpungesHidden` is that step, and `counts_exact_iff` says it is
the only one.
-/

set_option autoImplicit false

namespace TokuQa.LinkBench.Mysql

open TokuQa.Lib

/-- `testCount`, for every `(id1, link_type)`: both of its selects read committed rows. -/
def CountsExact (db : Db) : Prop := ∀ k, countLinks db k = visibleCount db.committed k

/-- The visibilities that links have. -/
def ValidVisibility (v : Int) : Prop := v = visibilityHidden ∨ v = visibilityDefault

def ValidRows (t : Tables) : Prop :=
  ∀ k r, t.linktable.lookup k = some r → ValidVisibility r.visibility

def ValidRequest (q : Request) : Prop := ∀ l, q = .add l → ValidVisibility l.visibility

/-- The request expunges a hidden link while others of its `(id1, link_type)` are visible. -/
def ExpungesHidden (q : Request) (t : Tables) : Prop :=
  ∃ k r, q = .delete k true ∧ t.linktable.lookup k = some r ∧
    r.visibility = visibilityHidden ∧ visibleCount t k.countKey ≠ 0

/-! ## What a call does to a count -/

/-- What a row adds to the count of its `(id1, link_type)`. -/
def contribution (r : Option LinkRow) : Nat :=
  if r.any fun r => r.visibility = visibilityDefault then 1 else 0

theorem contribution_some {r : LinkRow} (h : r.visibility = visibilityDefault) :
    contribution (some r) = 1 := by simp [contribution, h]

theorem contribution_hidden {r : LinkRow} (h : r.visibility = visibilityHidden) :
    contribution (some r) = 0 := by
  simp [contribution, h, visibilityHidden, visibilityDefault]

@[simp] theorem contribution_none : contribution none = 0 := rfl

/-- The count of an `(id1, link_type)` in one version of the tables. -/
def countOf (t : Tables) (k : CountKey) : Int := countLinks (Conn.idle t) k

theorem countOf_eq (t : Tables) (k : CountKey) :
    countOf t k = (t.counttable.lookup k).elim 0 (·.count) := by
  unfold countOf countLinks Conn.idle
  cases t.counttable.lookup k <;> rfl

/-- The two statements on the counts insert a row, or update the one that is there. -/
theorem countOf_insertOnDuplicate (t : Tables) (k k' : CountKey) (row : CountRow)
    (f : CountRow → CountRow) :
    countOf { t with counttable := (Table.insertOnDuplicate k row f t.counttable).2 } k' =
      if k' = k then (t.counttable.lookup k).elim row.count fun c => (f c).count
      else countOf t k' := by
  rw [countOf_eq, countOf_eq, Table.lookup_insertOnDuplicate]
  by_cases hk : k' = k
  · rw [if_pos hk, if_pos hk]
    cases t.counttable.lookup k <;> rfl
  · rw [if_neg hk, if_neg hk]

theorem countOf_upsertCount (now : Int) (k k' : CountKey) (base upd : Int) (t : Tables) :
    countOf (upsertCount now k base upd t) k' =
      if k' = k then (t.counttable.lookup k).elim base fun c => c.count + upd
      else countOf t k' :=
  countOf_insertOnDuplicate t k k' _ _

theorem countOf_decrementCount (now : Int) (k k' : CountKey) (t : Tables) :
    countOf (decrementCount now k t) k' =
      if k' = k then (if countOf t k = 0 then 0 else countOf t k - 1) else countOf t k' := by
  rw [decrementCount, countOf_insertOnDuplicate, countOf_eq t k]
  cases t.counttable.lookup k <;> rfl

theorem countOf_increment (now : Int) (k : CountKey) (t : Tables) :
    countOf (upsertCount now k 1 1 t) k = countOf t k + 1 := by
  rw [countOf_upsertCount, countOf_eq, if_pos rfl]
  cases t.counttable.lookup k <;> rfl

theorem countOf_lower (now : Int) {k : CountKey} {t : Tables} (h : countOf t k ≠ 0) :
    countOf (upsertCount now k 0 (-1) t) k = countOf t k - 1 := by
  rw [countOf_eq] at h
  rw [countOf_upsertCount, countOf_eq, if_pos rfl]
  cases hc : t.counttable.lookup k with
  | none => simp [hc] at h
  | some c => simp [sub_eq_add_neg]

theorem visibleCount_pos {t : Tables} {k : LinkKey} {r : LinkRow}
    (h : t.linktable.lookup k = some r) (hv : r.visibility = visibilityDefault) :
    0 < visibleCount t k.countKey :=
  Table.count_pos_of_lookup h (by simp [hv])

namespace Request

variable {now : Int} {q : Request} {t : Tables}

/-- The row of the request's key afterwards. -/
def rowAfter : Request → Option LinkRow → Option LinkRow
  | .add l, _ => some l.row
  | .delete _ true, _ => none
  | .delete _ false, r => r.map fun r => { r with visibility := visibilityHidden }

theorem linktable_effect : (q.effect now t).linktable = (q.effectUncounted t).linktable := by
  rw [effect_split]

theorem row_effect : q.row (q.effect now t) = q.rowAfter (q.row t) := by
  unfold row
  rw [linktable_effect]
  cases q with
  | add l =>
    rw [effectUncounted_add]
    exact Finmap.lookup_insert _
  | delete k expunge =>
    have hkey : (Request.delete k expunge).key = k := rfl
    rw [effectUncounted_delete, hkey]
    cases hr : t.linktable.lookup k with
    | none => cases expunge <;> simp [deleteWrite, rowAfter, hr]
    | some r =>
      obtain ⟨v, d, ti, ve⟩ := r
      cases expunge with
      | true => simp [deleteWrite, expungeLink, rowAfter]
      | false =>
        by_cases hv : v = visibilityHidden
        · simp [deleteWrite, hv, rowAfter, hr]
        · simp [deleteWrite, hv, hideLink, Table.lookup_updateWhere, rowAfter, hr]

/-- **The visible links of a key** change by what the one row contributed and contributes. -/
theorem visibleCount_effect (now : Int) (q : Request) (t : Tables) (k : CountKey) :
    visibleCount (q.effect now t) k + (if q.key.countKey = k then contribution (q.row t) else 0) =
      visibleCount t k +
        if q.key.countKey = k then contribution (q.rowAfter (q.row t)) else 0 := by
  have herase : (q.effect now t).linktable.erase q.key = t.linktable.erase q.key := by
    refine Finmap.ext_lookup fun k' => ?_
    rw [Table.lookup_erase_eq, Table.lookup_erase_eq]
    by_cases hk : k' = q.key
    · rw [if_pos hk, if_pos hk]
    · rw [if_neg hk, if_neg hk, lookup_effect_ne hk]
  have hcount := Table.count_of_erase_eq
    (fun (key : LinkKey) (r : LinkRow) => key.countKey = k && r.visibility = visibilityDefault)
    herase
  have hrow : (q.effect now t).linktable.lookup q.key = q.rowAfter (q.row t) := row_effect
  have hold : t.linktable.lookup q.key = q.row t := rfl
  rw [hrow, hold] at hcount
  unfold visibleCount contribution
  by_cases hk : q.key.countKey = k
  · simpa [hk] using hcount
  · simpa [hk] using hcount

theorem countOf_effect (k : CountKey) :
    countOf (q.effect now t) k = countOf ((q.countWrite now (q.row t)).getD id t) k := by
  rw [countOf_eq, countOf_eq]
  have hsplit : (q.effect now t).counttable = _ := congrArg Tables.counttable effect_split
  rw [hsplit]

/-- The count statement leaves every other count alone. -/
theorem countOf_effect_ne {k : CountKey} (hk : k ≠ q.key.countKey) :
    countOf (q.effect now t) k = countOf t k := by
  rw [countOf_effect]
  cases q with
  | add l =>
    have hk' : k ≠ l.countKey := hk
    cases hr : (Request.add l).row t with
    | none =>
      by_cases hl : l.visibility = visibilityDefault
      · simp [countWrite, hl, countOf_upsertCount, hk']
      · simp [countWrite, hl]
    | some r =>
      by_cases hv : r.visibility = l.visibility
      · simp [countWrite, hv]
      · by_cases hl : l.visibility = visibilityDefault
        · simp [countWrite, hl, hl ▸ hv, countOf_upsertCount, hk']
        · simp [countWrite, hv, hl, countOf_upsertCount, hk']
  | delete k' expunge =>
    have hk' : k ≠ k'.countKey := hk
    cases hr : (Request.delete k' expunge).row t with
    | none => simp [countWrite]
    | some r =>
      by_cases hv : r.visibility = visibilityHidden ∧ expunge = false
      · simp [countWrite, hv]
      · simp [countWrite, hv, countOf_decrementCount, hk']

/-- Adding a link moves its count as it moves the contribution of its row. -/
theorem countOf_add (now : Int) {l : Link} {r : Option LinkRow}
    (hl : ValidVisibility l.visibility) (hr : ∀ x, r = some x → ValidVisibility x.visibility)
    (hle : (contribution r : Int) ≤ countOf t l.countKey) :
    countOf (((Request.add l).countWrite now r).getD id t) l.countKey + contribution r =
      countOf t l.countKey + contribution (some l.row) := by
  rcases hl with hl | hl
  · -- the link becomes, or stays, hidden
    have hnot : l.visibility ≠ visibilityDefault := by rw [hl]; decide
    rw [contribution_hidden (r := l.row) hl]
    cases r with
    | none => simp [countWrite, hnot]
    | some x =>
      rcases hr x rfl with hv | hv
      · simp [countWrite, hv, hl, contribution_hidden hv]
      · have hne : x.visibility ≠ l.visibility := by rw [hv]; exact Ne.symm hnot
        rw [contribution_some hv] at hle ⊢
        simp only [countWrite, hne, hnot, if_false, Option.getD_some]
        rw [countOf_lower now (by omega)]
        omega
  · -- the link becomes, or stays, visible
    rw [contribution_some (r := l.row) hl]
    cases r with
    | none => simp [countWrite, hl, countOf_increment]
    | some x =>
      rcases hr x rfl with hv | hv
      · have hne : x.visibility ≠ visibilityDefault := by rw [hv]; decide
        simp [countWrite, hl, hne, countOf_increment, contribution_hidden hv]
      · simp [countWrite, hv, hl, contribution_some hv]

/-- Deleting a link lowers its count whenever it changes the row, visible or not. -/
theorem countOf_delete (now : Int) (k : LinkKey) (expunge : Bool) (r : LinkRow) :
    countOf (((Request.delete k expunge).countWrite now (some r)).getD id t) k.countKey =
      if r.visibility = visibilityHidden ∧ expunge = false then countOf t k.countKey
      else if countOf t k.countKey = 0 then 0 else countOf t k.countKey - 1 := by
  by_cases hskip : r.visibility = visibilityHidden ∧ expunge = false
  · simp [countWrite, hskip]
  · simp only [countWrite, hskip, if_false, Option.getD_some]
    rw [countOf_decrementCount, if_pos rfl]

theorem contribution_le (t : Tables) (k : LinkKey) :
    contribution (t.linktable.lookup k) ≤ visibleCount t k.countKey := by
  cases hr : t.linktable.lookup k with
  | none => exact Nat.zero_le _
  | some r =>
    unfold contribution
    split
    · rename_i hv
      exact visibleCount_pos hr (by simpa using hv)
    · exact Nat.zero_le _

theorem expungesHidden_delete_iff {k : LinkKey} {expunge : Bool} {r : LinkRow}
    (hr : t.linktable.lookup k = some r) :
    ExpungesHidden (.delete k expunge) t ↔
      expunge = true ∧ r.visibility = visibilityHidden ∧ visibleCount t k.countKey ≠ 0 := by
  constructor
  · rintro ⟨k', r', hd, hr', hv, hne⟩
    cases hd
    rw [hr] at hr'
    cases hr'
    exact ⟨rfl, hv, hne⟩
  · rintro ⟨rfl, hv, hne⟩
    exact ⟨k, r, rfl, hr, hv, hne⟩

/-- The counts of the request's own `(id1, link_type)`, from counts that were exact. -/
theorem own_count_exact_iff (now : Int)
    (hexact : countOf t q.key.countKey = visibleCount t q.key.countKey)
    (hrows : ValidRows t) (hq : ValidRequest q) :
    countOf (q.effect now t) q.key.countKey = visibleCount (q.effect now t) q.key.countKey ↔
      ¬ ExpungesHidden q t := by
  have hvis := visibleCount_effect now q t q.key.countKey
  have hle : contribution (q.row t) ≤ visibleCount t q.key.countKey := contribution_le t q.key
  rw [if_pos rfl, if_pos rfl] at hvis
  rw [countOf_effect]
  cases q with
  | add l =>
    have hok : ¬ ExpungesHidden (.add l) t := by rintro ⟨k, r, hd, -⟩; cases hd
    have hkey : (Request.add l).key.countKey = l.countKey := rfl
    have hafter : (Request.add l).rowAfter ((Request.add l).row t) = some l.row := rfl
    rw [hkey] at hvis hexact hle ⊢
    rw [hafter] at hvis
    have hcount := countOf_add now (t := t) (hq l rfl) (hrows l.key) (by rw [hexact]; exact_mod_cast hle)
    have hrow : t.linktable.lookup l.key = (Request.add l).row t := rfl
    rw [hrow] at hcount
    refine iff_of_true ?_ hok
    omega
  | delete k expunge =>
    have hkey : (Request.delete k expunge).key.countKey = k.countKey := rfl
    rw [hkey] at hvis hexact hle ⊢
    cases hr : (Request.delete k expunge).row t with
    | none =>
      have hok : ¬ ExpungesHidden (.delete k expunge) t := by
        rintro ⟨k', r, hd, hl, -⟩
        cases hd
        have hnone : t.linktable.lookup k = none := hr
        rw [hnone] at hl
        cases hl
      have hafter : (Request.delete k expunge).rowAfter none = none := by cases expunge <;> rfl
      rw [hr, hafter] at hvis
      refine iff_of_true ?_ hok
      simp only [countWrite, Option.getD_none]
      rw [id, hexact]
      omega
    | some r =>
      have hr' : t.linktable.lookup k = some r := hr
      have hafter : contribution ((Request.delete k expunge).rowAfter (some r)) = 0 := by
        cases expunge with
        | true => rfl
        | false => exact contribution_hidden rfl
      rw [hr, hafter] at hvis
      rw [countOf_delete, hexact, expungesHidden_delete_iff hr']
      rcases hrows _ _ hr' with hv | hv
      · -- an expunged hidden link lowers the count although no visible link went away
        rw [contribution_hidden hv] at hvis
        cases expunge with
        | false => simp [hv]; omega
        | true =>
          simp only [hv, Bool.true_eq_false, and_false, if_false, true_and, not_not]
          split <;> omega
      · have hne : r.visibility ≠ visibilityHidden := by rw [hv]; decide
        rw [hr, contribution_some hv] at hle
        rw [contribution_some hv] at hvis
        simp only [hne, false_and, and_false, if_false, not_false_iff, iff_true]
        rw [if_neg (by omega)]
        omega

/-- **One call keeps the counts exact** unless it is the bad one. -/
theorem counts_exact_effect_iff (now : Int) (hexact : CountsExact (Conn.idle t)) (hrows : ValidRows t)
    (hq : ValidRequest q) :
    CountsExact (Conn.idle (q.effect now t)) ↔ ¬ ExpungesHidden q t := by
  rw [← own_count_exact_iff now (hexact _) hrows hq]
  constructor
  · intro h
    exact h _
  · intro hown k
    by_cases hk : k = q.key.countKey
    · rw [hk]
      exact hown
    · have hcount : countOf (q.effect now t) k = countOf t k := countOf_effect_ne hk
      have hvis := visibleCount_effect now q t k
      rw [if_neg (Ne.symm hk), if_neg (Ne.symm hk)] at hvis
      have hold : countOf t k = visibleCount t k := hexact k
      have hnew : visibleCount (q.effect now t) k = visibleCount t k := hvis
      exact hcount.trans (hold.trans (by rw [← hnew]; rfl))

theorem validRows_effect (now : Int) (hrows : ValidRows t) (hq : ValidRequest q) :
    ValidRows (q.effect now t) := by
  intro k r hr
  by_cases hk : k = q.key
  · subst hk
    have hafter : q.rowAfter (q.row t) = some r := row_effect.symm.trans hr
    cases q with
    | add l =>
      cases hafter
      exact hq l rfl
    | delete k expunge =>
      cases expunge with
      | true => cases hafter
      | false =>
        obtain ⟨r₀, -, rfl⟩ := Option.map_eq_some_iff.mp hafter
        exact Or.inl rfl
  · rw [lookup_effect_ne hk] at hr
    exact hrows k r hr

end Request

/-! ## Runs -/

/-- One call that meets no error, at the time given with it. -/
def callStep : Int × LinkOp → Db → Option Db := fun x db =>
  match call x.1 x.2 [] db with
  | .returned _ db' => some db'
  | .thrown _ _ => none

theorem callStep_eq (x : Int × LinkOp) (db : Db) :
    callStep x db = some (x.2.request.finish x.1 db) := by
  obtain ⟨v, hv⟩ := call_returns x.1 x.2 [] db
  unfold callStep
  rw [hv]
  rfl

/-- Exact counts in both versions of the tables, and rows a link can have. -/
structure CountsOk (db : Db) : Prop where
  committed : CountsExact db
  working : CountsExact (Conn.idle db.working)
  rows : ValidRows db.working

theorem countsOk_empty : CountsOk (Conn.idle Tables.empty) :=
  ⟨fun _ => rfl, fun _ => rfl, fun _ _ h => by cases h⟩

theorem CountsOk.finish {now : Int} {q : Request} {db : Db} (h : CountsOk db)
    (hq : ValidRequest q) (hok : ¬ ExpungesHidden q db.working) : CountsOk (q.finish now db) := by
  have hnew := (Request.counts_exact_effect_iff now h.working h.rows hq).mpr hok
  have hrows := Request.validRows_effect now h.rows hq
  unfold Request.finish
  split
  · exact ⟨hnew, hnew, hrows⟩
  · exact ⟨h.committed, hnew, hrows⟩

/-- The bad call commits its wrong count at once. -/
theorem not_countsExact_finish {now : Int} {q : Request} {db : Db} (h : CountsOk db)
    (hq : ValidRequest q) (hbad : ExpungesHidden q db.working) :
    ¬ CountsExact (q.finish now db) := by
  have hnew := Request.counts_exact_effect_iff now h.working h.rows hq
  obtain ⟨k, r, rfl, -⟩ := id hbad
  have hfinish : (Request.delete k true).finish now db =
      Conn.idle ((Request.delete k true).effect now db.working) := if_pos rfl
  rw [hfinish]
  exact fun he => hnew.mp he hbad

/-- **The counts are exact all along a run of error-free calls exactly when none of them
expunges a hidden link of an `(id1, link_type)` that still has visible ones.** -/
theorem counts_exact_iff {calls : List (Int × LinkOp)}
    (hcalls : ∀ x ∈ calls, ValidRequest x.2.request) :
    (∀ pre db, pre <+: calls → run callStep pre (Conn.idle Tables.empty) = some db →
        ∀ k, countLinks db k = visibleCount db.committed k) ↔
      AllSteps callStep (fun x db => ¬ ExpungesHidden x.2.request db.working) calls
        (Conn.idle Tables.empty) := by
  refine prefixes_iff (J := CountsOk) (P := CountsExact)
    (W := fun x => ValidRequest x.2.request) (fun h => h.committed) ?_ ?_ countsOk_empty hcalls
  · intro x db db' h hx hok hstep
    rw [callStep_eq] at hstep
    cases hstep
    exact h.finish hx hok
  · intro x db h hx hbad
    exact ⟨_, callStep_eq x db, not_countsExact_finish h hx (not_not.mp hbad)⟩

theorem counts_exact_addLink :
    (∀ pre db, pre <+: [(5, LinkOp.addLink (oneLink visibilityDefault))] →
        run callStep pre (Conn.idle Tables.empty) = some db →
        ∀ k, countLinks db k = visibleCount db.committed k) ↔
      AllSteps callStep (fun x db => ¬ ExpungesHidden x.2.request db.working)
        [(5, LinkOp.addLink (oneLink visibilityDefault))] (Conn.idle Tables.empty) :=
  counts_exact_iff fun x hx => by
    rw [List.mem_singleton.mp hx]
    rintro l hl
    cases hl
    exact Or.inr rfl

/-- Two visible links; the first is hidden, then expunged. The count of the second is gone. -/
theorem expunge_after_hide_miscounts :
    (run callStep
        [(5, .addLink ⟨1, 2, 3, visibilityDefault, [], 0, 0⟩),
          (6, .addLink ⟨1, 2, 4, visibilityDefault, [], 0, 0⟩),
          (7, .deleteLink ⟨1, 2, 3⟩ false), (8, .deleteLink ⟨1, 2, 3⟩ true)]
        (Conn.idle Tables.empty)).map
      (fun db => (countLinks db ⟨1, 2⟩, visibleCount db.committed ⟨1, 2⟩)) = some (0, 1) := by
  decide

end TokuQa.LinkBench.Mysql
