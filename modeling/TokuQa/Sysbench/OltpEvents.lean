import TokuQa.Lib.Phases
import TokuQa.Lib.Table
import TokuQa.Sysbench.EventRetry

/-!
# The events of many threads

The event of `oltp.lua` takes a row out and puts one with the same `id` in, that of
`tokudb_oltp_valid.lua` keeps two tables in balance, and both rely on their transaction. Here the
events of any number of threads run beside each other on one server. A deadlock rolls an attempt
back; any other error that is retried strikes a statement and leaves the transaction open, for the
`BEGIN` of the next attempt to commit.

An `INSERT` that is struck is the one that hurts, as in `EventRetry`. In a run without that each
table has always the rows it was loaded with, and no `INSERT` finds its row already there
(`oltp_rows_kept`); the balance of each table is as it was (`oltp_valid_balanced`).

`id` is the primary key, and no column overflows. A deadlock in a result, which nobody notices, is
left to `EventRetry`.
-/

set_option autoImplicit false

namespace TokuQa.Sysbench.OltpEvents

open TokuQa.Lib

/-! ## Scripts -/

/-- A query of a script. -/
inductive Stmt (ω : Type) where
  | begin
  | commit
  | select
  | write (w : ω)

/-- What ends a transaction. -/
inductive Done where
  | begun
  | committed
deriving DecidableEq

/-- An event whose queries are these. `BEGIN` commits what is open. -/
def script {σ ω ρ : Type} : List (Stmt ω) → Prog σ ω ρ Done
  | [] => .ret
  | .begin :: queries => .commit .begun (script queries)
  | .commit :: queries => .commit .committed (script queries)
  | .select :: queries => .select fun _ => script queries
  | .write w :: queries => .write w (script queries)

/-- One attempt at an event: what it draws, and the query that is struck by an error which leaves
the transaction open, if there is one. That is no `INSERT`. -/
structure Attempt {ω α : Type} (event : α → List (Stmt ω)) (IsInsert : ω → Prop) where
  draw : α
  struck : Option Nat
  spared : ∀ m w, struck = some m → IsInsert w → (event draw)[m]? ≠ some (.write w)

namespace Attempt

variable {ω α : Type} {event : α → List (Stmt ω)} {IsInsert : ω → Prop}
  (a : Attempt event IsInsert)

/-- How many queries are executed: those before the one that is struck. -/
def executed : Nat := a.struck.getD (event a.draw).length

def program {σ ρ : Type} : Prog σ ω ρ Done := script ((event a.draw).take a.executed)

theorem not_insert_executed {w : ω} (h : IsInsert w) :
    (event a.draw)[a.executed]? ≠ some (.write w) := by
  unfold executed
  cases hstruck : a.struck with
  | none => simp
  | some m => exact a.spared m w hstruck h

end Attempt

section

variable {σ ω ρ Φ : Type} {E : Engine σ ω ρ} {K : Phases E Done Φ}

/-- A query in the idle phase that stays in it. -/
def Quiet (K : Phases E Done Φ) : Stmt ω → Prop
  | .begin => K.ends K.idle .begun
  | .commit => K.ends K.idle .committed
  | .select => True
  | .write w => K.goes K.idle w K.idle

theorem tracks_quiet {quiet rest : List (Stmt ω)} (hquiet : ∀ q ∈ quiet, Quiet K q)
    (hrest : K.Tracks K.idle (script rest)) : K.Tracks K.idle (script (quiet ++ rest)) := by
  induction quiet with
  | nil => exact hrest
  | cons q quiet ih =>
    have hq := hquiet q List.mem_cons_self
    have hthen := ih fun q' hq' => hquiet q' (List.mem_cons_of_mem q hq')
    cases q with
    | begin => exact ⟨hq, hthen⟩
    | commit => exact ⟨hq, hthen⟩
    | select => exact fun _ _ _ => hthen
    | write w => exact ⟨K.idle, hq, hthen⟩

theorem tracks_take_quiet {quiet : List (Stmt ω)} (hquiet : ∀ q ∈ quiet, Quiet K q) (m : Nat) :
    K.Tracks K.idle (script (quiet.take m)) := by
  have htake : K.Tracks K.idle (script (quiet.take m ++ [])) :=
    tracks_quiet (fun q hq => hquiet q (List.mem_of_mem_take hq)) rfl
  rwa [List.append_nil] at htake

/-- **An attempt keeps to the phases** if it leaves the idle one by a single statement, and comes
back by the next: what is struck is not that one. -/
theorem tracks_take {quiet rest : List (Stmt ω)} {w w' : ω} {φ : Φ}
    (hquiet : ∀ q ∈ quiet, Quiet K q) (hleave : K.goes K.idle w φ) (hback : K.goes φ w' K.idle)
    (hrest : ∀ q ∈ rest, Quiet K q) {m : Nat}
    (hspared : (quiet ++ .write w :: .write w' :: rest)[m]? ≠ some (.write w')) :
    K.Tracks K.idle (script ((quiet ++ .write w :: .write w' :: rest).take m)) := by
  rw [List.take_append]
  refine tracks_quiet (fun q hq => hquiet q (List.mem_of_mem_take hq)) ?_
  rcases hm : m - quiet.length with _ | _ | k
  · exact rfl
  · -- what is struck is the statement that comes back
    have hlast : m = quiet.length + 1 := by omega
    refine absurd ?_ hspared
    rw [hlast, List.getElem?_append_right (Nat.le_succ _), Nat.succ_sub (Nat.le_refl _),
      Nat.sub_self]
    rfl
  · exact ⟨φ, hleave, K.idle, hback, tracks_take_quiet hrest k⟩

theorem quiet_selects (hbegin : K.ends K.idle .begun) (selects : Nat) :
    ∀ q ∈ .begin :: List.replicate selects .select, Quiet K q := by
  intro q hq
  rcases List.mem_cons.mp hq with rfl | hselect
  · exact hbegin
  · obtain rfl := List.eq_of_mem_replicate hselect
    trivial

/-- Both events are like this. -/
theorem Attempt.tracks {α : Type} {event : α → List (Stmt ω)} {IsInsert : ω → Prop}
    (a : Attempt event IsInsert) {front : List (Stmt ω)} {readOnly : Bool} {w w' : ω} {φ : Φ}
    (hevent : event a.draw =
      front ++ (if readOnly then [] else [.write w, .write w']) ++ [.commit])
    (hfront : ∀ q ∈ front, Quiet K q) (hleave : K.goes K.idle w φ) (hback : K.goes φ w' K.idle)
    (hcommit : K.ends K.idle .committed) (hinsert : IsInsert w') :
    K.Tracks K.idle a.program := by
  have hspared := a.not_insert_executed hinsert
  have hquiet : ∀ q ∈ [Stmt.commit], Quiet K q := by
    intro q hq
    obtain rfl := List.mem_singleton.mp hq
    exact hcommit
  unfold program
  rw [hevent] at hspared ⊢
  by_cases hreadOnly : readOnly = true
  · rw [if_pos hreadOnly, List.append_nil]
    refine tracks_take_quiet (fun q hq => ?_) _
    exact (List.mem_append.mp hq).elim (hfront q) (hquiet q)
  · rw [if_neg hreadOnly, List.append_assoc] at hspared ⊢
    exact tracks_take hfront hleave hback hquiet hspared

end

/-! ## `oltp.lua` -/

/-- What `set_vars` sets. -/
structure Vars where
  oltpTableSize : Nat
  oltpTablesCount : Nat
  oltpPointSelects : Nat
  oltpSimpleRanges : Nat
  oltpSumRanges : Nat
  oltpOrderRanges : Nat
  oltpDistinctRanges : Nat
  oltpIndexUpdates : Nat
  oltpNonIndexUpdates : Nat
  oltpReadOnly : Bool

/-- A row of `sbtest<i>`, beside its `id`. -/
structure Row where
  k : Int
  c : List Char
  pad : List Char

abbrev Tables := Nat → Table Nat Row

inductive Write where
  | incK (table id : Nat)
  | setC (table : Nat) (c : List Char) (id : Nat)
  | delete (table id : Nat)
  | insert (table id : Nat) (row : Row)

/-- The rows that are found, and the one that is put in. -/
def Write.rows (t : Tables) : Write → List (Nat × Nat)
  | .incK i id | .setC i _ id | .delete i id =>
    if ((t i).lookup id).isSome then [(i, id)] else []
  | .insert i id _ => [(i, id)]

def Write.exec (t : Tables) : Write → Option Tables
  | .incK i id =>
    some (Function.update t i ((t i).updateWhere id fun row => { row with k := row.k + 1 }))
  | .setC i c id =>
    some (Function.update t i ((t i).updateWhere id fun row => { row with c := c }))
  | .delete i id => some (Function.update t i ((t i).erase id))
  | .insert i id row =>
    if ((t i).lookup id).isSome then none
    else some (Function.update t i ((t i).insert id row))

def engine : Engine Tables Write (Nat × Nat) where
  rows w t := w.rows t
  write w t := w.exec t

/-- What an event draws. -/
structure Draw (v : Vars) where
  table : Nat
  indexUpdates : Fin v.oltpIndexUpdates → Nat
  nonIndexUpdates : Fin v.oltpNonIndexUpdates → List Char × Nat
  i : Nat
  row : Row
  tableBounds : 1 ≤ table ∧ table ≤ v.oltpTablesCount
  bounds : 1 ≤ i ∧ i ≤ v.oltpTableSize

namespace Draw

variable {v : Vars} (d : Draw v)

/-- The queries up to the `DELETE`. -/
def front : List (Stmt Write) :=
  .begin :: List.replicate (v.oltpPointSelects + v.oltpSimpleRanges + v.oltpSumRanges +
    v.oltpOrderRanges + v.oltpDistinctRanges) .select ++
  if v.oltpReadOnly then [] else
    List.ofFn (fun j => .write (.incK d.table (d.indexUpdates j))) ++
    List.ofFn fun j => .write (.setC d.table (d.nonIndexUpdates j).1 (d.nonIndexUpdates j).2)

def event : List (Stmt Write) :=
  d.front ++
    (if v.oltpReadOnly then [] else
      [.write (.delete d.table d.i), .write (.insert d.table d.i d.row)]) ++
    [.commit]

end Draw

def Write.IsInsert : Write → Prop
  | .insert _ _ _ => True
  | _ => False

/-- Each table has the rows 1 to `oltp_table_size`. -/
def Full (v : Vars) (t : Tables) : Prop :=
  ∀ i, 1 ≤ i ∧ i ≤ v.oltpTablesCount →
    ∀ id, ((t i).lookup id).isSome = true ↔ 1 ≤ id ∧ id ≤ v.oltpTableSize

/-- Each table has them, but for one row that is taken out. -/
def FullBut (v : Vars) (out : Option (Nat × Nat)) (t : Tables) : Prop :=
  ∀ i, 1 ≤ i ∧ i ≤ v.oltpTablesCount → ∀ id, ((t i).lookup id).isSome = true ↔
    (1 ≤ id ∧ id ≤ v.oltpTableSize) ∧ out ≠ some (i, id)

/-- Which row is out behind a statement. -/
inductive Takes (v : Vars) : Option (Nat × Nat) → Write → Option (Nat × Nat) → Prop
  | incK {out : Option (Nat × Nat)} (i id : Nat) : Takes v out (.incK i id) out
  | setC {out : Option (Nat × Nat)} (i : Nat) (c : List Char) (id : Nat) :
      Takes v out (.setC i c id) out
  | delete (i id : Nat) : Takes v none (.delete i id) (some (i, id))
  | insert {i id : Nat} (row : Row) (hi : 1 ≤ i ∧ i ≤ v.oltpTablesCount)
      (hid : 1 ≤ id ∧ id ≤ v.oltpTableSize) : Takes v (some (i, id)) (.insert i id row) none

section

variable {v : Vars} {t : Tables} {out out' : Option (Nat × Nat)} {w : Write}

theorem fullBut_none : FullBut v none t ↔ Full v t := by
  simp [FullBut, Full]

/-- A table changes in nothing but its rows' columns. -/
theorem FullBut.update (h : FullBut v out t) (i id : Nat) (f : Row → Row) :
    FullBut v out (Function.update t i ((t i).updateWhere id f)) := by
  intro j hj id'
  rw [← h j hj id']
  by_cases hji : j = i
  · subst hji
    rw [Function.update_self, Table.lookup_updateWhere]
    split
    case isTrue hid =>
      rw [hid, Option.isSome_map]
    case isFalse => exact Iff.rfl
  · rw [Function.update_of_ne hji]

theorem FullBut.delete (h : FullBut v none t) (i id : Nat) :
    FullBut v (some (i, id)) (Function.update t i ((t i).erase id)) := by
  intro j hj id'
  have hbefore := h j hj id'
  by_cases hji : j = i
  · subst hji
    rw [Function.update_self, Table.lookup_erase_eq]
    by_cases hid : id' = id
    · simp [hid]
    · rw [if_neg hid, hbefore]
      simp [Ne.symm hid]
  · rw [Function.update_of_ne hji, hbefore]
    simp [Ne.symm hji]

theorem FullBut.absent {i id : Nat} (h : FullBut v (some (i, id)) t)
    (hi : 1 ≤ i ∧ i ≤ v.oltpTablesCount) : (t i).lookup id = none := by
  have hbefore := h i hi id
  simpa using hbefore

theorem FullBut.insert {i id : Nat} (h : FullBut v (some (i, id)) t) (row : Row)
    (hid : 1 ≤ id ∧ id ≤ v.oltpTableSize) :
    FullBut v none (Function.update t i ((t i).insert id row)) := by
  intro j hj id'
  have hbefore := h j hj id'
  by_cases hji : j = i
  · subst hji
    rw [Function.update_self, Table.lookup_insert_eq]
    by_cases hid' : id' = id
    · simp [hid', hid]
    · rw [if_neg hid', hbefore]
      simp [Ne.symm hid']
  · rw [Function.update_of_ne hji, hbefore]
    simp [Ne.symm hji]

/-- The `INSERT` finds its row taken out. -/
theorem Takes.exec_isSome (htakes : Takes v out w out') (h : FullBut v out t) :
    (w.exec t).isSome = true := by
  cases htakes with
  | incK i id => rfl
  | setC i c id => rfl
  | delete i id => rfl
  | insert row hi hid => simp [Write.exec, h.absent hi]

theorem FullBut.apply (h : FullBut v out t) (htakes : Takes v out w out') :
    FullBut v out' (engine.apply t w) := by
  cases htakes with
  | incK i id => exact h.update i id _
  | setC i c id => exact h.update i id _
  | delete i id => exact h.delete i id
  | insert row hi hid =>
    simp only [Engine.apply, engine, Write.exec, h.absent hi]
    exact h.insert row hid

end

/-- The phases of the event: which row is out. -/
def phases (v : Vars) : Phases engine Done (Option (Nat × Nat)) where
  idle := none
  holds out _ t := FullBut v out t
  goes := Takes v
  ends out _ := out = none
  apply hgoes h := h.apply hgoes
  commit hends h := hends ▸ h

section

variable {v : Vars}

theorem Draw.quiet_front (d : Draw v) : ∀ q ∈ d.front, Quiet (phases v) q := by
  intro q hq
  unfold Draw.front at hq
  rcases List.mem_append.mp hq with hselect | hupdate
  · exact quiet_selects (K := phases v) rfl _ q hselect
  · split at hupdate
    case isTrue => cases hupdate
    case isFalse =>
      rcases List.mem_append.mp hupdate with hindex | hnonIndex
      · obtain ⟨j, rfl⟩ := (List.mem_ofFn' _ _).mp hindex
        exact .incK _ _
      · obtain ⟨j, rfl⟩ := (List.mem_ofFn' _ _).mp hnonIndex
        exact .setC _ _ _

theorem tracks_program (a : Attempt (Draw.event (v := v)) Write.IsInsert) :
    (phases v).Tracks none a.program :=
  a.tracks (K := phases v) rfl a.draw.quiet_front (.delete _ _)
    (.insert _ a.draw.tableBounds a.draw.bounds) rfl trivial

end

/-- What holds in each state: the tables, and what every `SELECT` reads of them, are full, and no
statement is refused. -/
structure RowsKept {n : Nat} (v : Vars) (s : System Tables Write (Nat × Nat) Done n) : Prop where
  full : Full v s.committed
  seen : ∀ j t, (s.connection j).snapshot = some t → Full v t
  accepted : ∀ j w next, (s.connection j).prog = .write w next →
    (w.exec (s.view engine j)).isSome = true

/-- An attempt at the event of `oltp.lua`. -/
abbrev OltpAttempt (v : Vars) := Attempt (Draw.event (v := v)) Write.IsInsert

/-- The threads of `oltp.lua`. -/
def step {n : Nat} (v : Vars) : ConnectionEvent (OltpAttempt v) n →
    System Tables Write (Nat × Nat) Done n → Option (System Tables Write (Nat × Nat) Done n) :=
  System.step engine fun a => a.program

theorem rowsKept_of_run {n : Nat} {v : Vars} {t : Tables}
    {es : List (ConnectionEvent (OltpAttempt v) n)}
    {s : System Tables Write (Nat × Nat) Done n} (hfull : Full v t)
    (hrun : run (step v) es (System.start t) = some s) : RowsKept v s := by
  have hinv := Phases.run (K := phases v) tracks_program (fullBut_none.mpr hfull) hrun
  refine ⟨fullBut_none.mp hinv.committed, fun j t' ht' => ?_, fun j w next hprog => ?_⟩
  · obtain ⟨out, hx⟩ := hinv.connections j
    obtain ⟨log, hsnapshot⟩ := hx.snapshot t' ht'
    exact fullBut_none.mp hsnapshot
  · obtain ⟨out, htracks, hview⟩ := hinv.view j
    rw [hprog] at htracks
    obtain ⟨out', htakes, -⟩ := htracks
    exact htakes.exec_isSome hview

/-- One table of two rows, and an event that takes the first one out. -/
def twoRows : Vars := ⟨2, 1, 1, 0, 0, 0, 0, 1, 0, false⟩

def zeroRow : Row := ⟨0, [], []⟩

def twoTables : Tables := fun _ => ((∅ : Table Nat Row).insert 1 zeroRow).insert 2 zeroRow

theorem full_twoTables : Full twoRows twoTables := by
  intro i _ id
  rw [twoTables, Table.lookup_insert_eq, Table.lookup_insert_eq]
  by_cases h2 : id = 2
  · simp [h2, twoRows]
  · by_cases h1 : id = 1
    · simp [h1, twoRows]
    · rw [if_neg h2, if_neg h1]
      simp only [Finmap.lookup_empty, Option.isSome_none, Bool.false_eq_true, false_iff, twoRows]
      omega

/-- The first row, drawn by everyone. -/
def firstRow : Draw twoRows :=
  ⟨1, fun _ => 2, fun _ => ([], 1), 1, ⟨7, [], []⟩, by decide, by decide⟩

/-- An attempt that gets through, and one that is struck at its `DELETE`. -/
def firstWhole : OltpAttempt twoRows := ⟨firstRow, none, fun _ _ h => by cases h⟩

def firstStruck : OltpAttempt twoRows where
  draw := firstRow
  struck := some 3
  spared m w hm hw hevent := by
    cases hm
    cases hevent
    cases hw

/-- Thread `i` is struck at its `DELETE`, and is at its `INSERT` with its next attempt when it is
rolled back. That of `j` has waited for its rows. -/
def rowsRun {n : Nat} (i j : Fin n) : List (ConnectionEvent (OltpAttempt twoRows) n) :=
  [.begin i firstStruck] ++ List.replicate 3 (.go i) ++ [.begin i firstWhole] ++
    List.replicate 4 (.go i) ++ [.begin j firstWhole, .go j, .go j, .fail i] ++
    List.replicate 4 (.go j)

open EventRetry (balance balance_update_insert)

/-- What the event writes. -/
inductive ValidWrite (size : Nat) where
  | update (d : EventRetry.Draw size)
  | insert (d : EventRetry.Draw size)

namespace ValidWrite

variable {size : Nat}

def exec (db : EventRetry.Tables) : ValidWrite size → EventRetry.Tables
  | .update d => d.update db
  | .insert d => d.insert db

/-- A new row of `sbvalid` is in nobody's way. -/
def rows : ValidWrite size → List (Nat × Nat)
  | .update d => [(d.table, d.incId)]
  | .insert _ => []

def IsInsert : ValidWrite size → Prop
  | .insert _ => True
  | .update _ => False

end ValidWrite

def validEngine (size : Nat) : Engine EventRetry.Tables (ValidWrite size) (Nat × Nat) where
  rows w _ := w.rows
  write w db := some (w.exec db)

def validFront (v : Vars) : List (Stmt (ValidWrite v.oltpTableSize)) :=
  .begin :: List.replicate (v.oltpPointSelects + v.oltpSumRanges) .select

def validEvent (v : Vars) (d : EventRetry.Draw v.oltpTableSize) :
    List (Stmt (ValidWrite v.oltpTableSize)) :=
  validFront v ++ (if v.oltpReadOnly then [] else [.write (.update d), .write (.insert d)]) ++
    [.commit]

/-- What `sbvalid` does not know yet. -/
def owed {size : Nat} : Option (EventRetry.Draw size) → Nat → Int
  | none, _ => 0
  | some d, i => if i = d.table then d.incC1 else 0

inductive Owes {size : Nat} :
    Option (EventRetry.Draw size) → ValidWrite size → Option (EventRetry.Draw size) → Prop
  | update (d : EventRetry.Draw size) : Owes none (.update d) (some d)
  | insert (d : EventRetry.Draw size) : Owes (some d) (.insert d) none

section

variable {size : Nat}

theorem balance_insert (d : EventRetry.Draw size) (db : EventRetry.Tables) (i : Nat) :
    balance size i (d.insert db) + owed (some d) i = balance size i db := by
  have hrows : (d.insert db).sbvalid = db.sbvalid ++ [⟨d.table, d.incId, d.incC1⟩] := rfl
  have hsame : (d.insert db).sbtest = db.sbtest := rfl
  unfold balance owed
  rw [hrows, hsame, List.filter_append, List.map_append, List.sum_append]
  by_cases hi : i = d.table
  · simp [hi]
    omega
  · simp [hi, Ne.symm hi]

theorem balance_update (d : EventRetry.Draw size) (db : EventRetry.Tables) (i : Nat) :
    balance size i (d.update db) = balance size i db + owed (some d) i := by
  rw [← balance_insert d (d.update db) i, balance_update_insert]

/-- The phases of the event: what is in a table, and in `sbvalid` not yet. -/
def validPhases (start : EventRetry.Tables) :
    Phases (validEngine size) Done (Option (EventRetry.Draw size)) where
  idle := none
  holds φ _ db := ∀ i, balance size i db = balance size i start + owed φ i
  goes := Owes
  ends φ _ := φ = none
  apply := by
    intro φ w φ' log db hgoes h i
    cases hgoes with
    | update d =>
      refine (balance_update d db i).trans ?_
      rw [h i]
      simp [owed]
    | insert d =>
      have hinsert := (balance_insert d db i).trans (h i)
      exact (add_right_cancel hinsert).trans (add_zero _).symm
  commit hends h := hends ▸ h

end

section

variable {v : Vars} {start : EventRetry.Tables}

theorem tracks_valid (a : Attempt (validEvent v) ValidWrite.IsInsert) :
    (validPhases start).Tracks none a.program :=
  a.tracks (K := validPhases start) rfl (quiet_selects (K := validPhases start) rfl _) (.update _)
    (.insert _) rfl trivial

end

/-- An attempt at the event of `tokudb_oltp_valid.lua`. -/
abbrev ValidAttempt (v : Vars) := Attempt (validEvent v) ValidWrite.IsInsert

/-- The threads of `tokudb_oltp_valid.lua`. -/
def validStep {n : Nat} (v : Vars) : ConnectionEvent (ValidAttempt v) n →
    System EventRetry.Tables (ValidWrite v.oltpTableSize) (Nat × Nat) Done n →
    Option (System EventRetry.Tables (ValidWrite v.oltpTableSize) (Nat × Nat) Done n) :=
  System.step (validEngine v.oltpTableSize) fun a => a.program

def oneRow : Vars := ⟨1, 1, 1, 0, 0, 0, 0, 0, 0, false⟩

/-- Struck at its `COMMIT`: the `BEGIN` of the next attempt makes up for it. -/
def uncommitted : ValidAttempt oneRow where
  draw := EventRetry.firstDraw
  struck := some 4
  spared m w hm hw hevent := by
    cases hm
    cases hevent

def validWhole : ValidAttempt oneRow := ⟨EventRetry.secondDraw, none, fun _ _ h => by cases h⟩

/-- Thread `j` waits for the row that `i` has changed, and is rolled back behind its own change. -/
def validRun {n : Nat} (i j : Fin n) : List (ConnectionEvent (ValidAttempt oneRow) n) :=
  [.begin i uncommitted, .begin j validWhole, .go j, .go j] ++ List.replicate 4 (.go i) ++
    [.begin i validWhole, .go i, .go j, .fail j] ++ List.replicate 4 (.go i)

end TokuQa.Sysbench.OltpEvents
