import TokuQa.LinkBench.MemoryNodes
import TokuQa.LinkBench.Mysql

/-!
# `LinkStoreMysql.java`, the node half

The nodes are the rows of `nodetable`, whose ids the server gives out; an `INSERT` that fails may
have taken some of them. Each method is a single statement with its commit, in a loop that tries
again after a transient error.

For whoever calls it the store is the one of `MemoryLinkStore` (`nodes_agree`), with the ids left
out that the failed attempts have taken, and two things besides. The connections are opened with
`useAffectedRows`, so that an update that changes nothing is taken for one that has found nothing;
and an `INSERT` without a row is an error of syntax.

The values fit their columns, and the ids are not used up.
-/

set_option autoImplicit false

namespace TokuQa.LinkBench.MysqlNodes

open TokuQa.Lib MemoryNodes

/-! ## The store -/

/-- `nodetable`, and the id it gives out next. -/
structure NodeTable where
  autoIncrement : Int
  rows : Table Int Node

inductive Answer where
  | done
  | newId (id : Int)
  | newIds (ids : List Int)
  /-- `none` is `null`. -/
  | node (n : Option Node)
  | flag (b : Bool)
  | throws (e : Mysql.Exn)
deriving DecidableEq

/-- `INSERT INTO nodetable (type, version, time, data) VALUES ..`, with the generated keys. -/
def insertNodes : List Node → NodeTable → List Int × NodeTable
  | [], t => ([], t)
  | n :: nodes, t =>
    let id := t.autoIncrement
    let (ids, t) := insertNodes nodes ⟨id + 1, t.rows.insert id { n with id := id }⟩
    (id :: ids, t)

/-- `UPDATE nodetable SET .. WHERE id= .. AND type= ..`, with the number of rows it changes. -/
def updateRow (n : Node) (t : NodeTable) : Nat × NodeTable :=
  match t.rows.lookup n.id with
  | none => (0, t)
  | some old =>
    let new := { old with version := n.version, time := n.time, data := n.data }
    if old.type = n.type ∧ new ≠ old then (1, { t with rows := t.rows.insert n.id new }) else (0, t)

/-- `DELETE FROM nodetable WHERE id= .. and type = ..`. -/
def deleteRow (type id : Int) (t : NodeTable) : Nat × NodeTable :=
  match t.rows.lookup id with
  | none => (0, t)
  | some old => if old.type = type then (1, { t with rows := t.rows.erase id }) else (0, t)

def resetNodeStore (startID : Int) (_ : NodeTable) : NodeTable := ⟨startID, ∅⟩

def wrongKeys (expected actual : Nat) : String :=
  "Wrong number of generated keys on insert:  expected " ++ toString expected ++ " actual " ++
    toString actual

def bulkAddNodesImpl (nodes : List Node) (t : NodeTable) : Answer × NodeTable :=
  if nodes = [] then (.throws (.sql "42000"), t)
  else
    let (newIds, t) := insertNodes nodes t
    if newIds.length ≠ nodes.length then
      (.throws (.exception (wrongKeys nodes.length newIds.length)), t)
    else (.newIds newIds, t)

def addNodeImpl (n : Node) (t : NodeTable) : Answer × NodeTable :=
  match bulkAddNodesImpl [n] t with
  | (.newIds ids, t) => (.newId (ids.headD 0), t)
  | r => r

def getNodeImpl (type id : Int) (t : NodeTable) : Answer :=
  match t.rows.lookup id with
  | none => .node none
  | some res => if res.type ≠ type then .node none else .node (some res)

def notExpected (rows : Nat) : String :=
  "Did not expect " ++ toString rows ++
    "affected rows: only expected update to affect at most one row"

def updateNodeImpl (n : Node) (t : NodeTable) : Answer × NodeTable :=
  let (rows, t) := updateRow n t
  if rows = 1 then (.flag true, t)
  else if rows = 0 then (.flag false, t)
  else (.throws (.exception (notExpected rows)), t)

def rowsModified (rows : Nat) : String :=
  toString rows ++ " rows modified on delete: should delete at most one"

def deleteNodeImpl (type id : Int) (t : NodeTable) : Answer × NodeTable :=
  let (rows, t) := deleteRow type id t
  if rows = 0 then (.flag false, t)
  else if rows = 1 then (.flag true, t)
  else (.throws (.exception (rowsModified rows)), t)

/-- The methods with the loop. -/
inductive Op where
  | addNode (n : Node)
  | bulkAddNodes (nodes : List Node)
  | getNode (type id : Int)
  | updateNode (n : Node)
  | deleteNode (type id : Int)

def Op.impl (op : Op) (t : NodeTable) : Answer × NodeTable :=
  match op with
  | .addNode n => addNodeImpl n t
  | .bulkAddNodes nodes => bulkAddNodesImpl nodes t
  | .getNode type id => (getNodeImpl type id t, t)
  | .updateNode n => updateNodeImpl n t
  | .deleteNode type id => deleteNodeImpl type id t

/-- An attempt that fails: its error, and how many ids the table has lost by it. -/
structure Failure where
  sqlState : String
  lost : Nat

/-- The `while (true)` around a method, with what a failed attempt loses. -/
def retrying {σ : Type} (lose : Nat → σ → σ) (body : σ → Answer × σ) :
    List Failure → σ → Answer × σ
  | [], s => body s
  | f :: failures, s =>
    if Mysql.processSQLException (.sql f.sqlState) then retrying lose body failures (lose f.lost s)
    else (.throws (.sql f.sqlState), lose f.lost s)

/-- The calls of the interface, with the attempts that fail. -/
inductive Call where
  | resetNodeStore (startID : Int)
  | retried (op : Op) (failures : List Failure)

def lose (lost : Nat) (t : NodeTable) : NodeTable :=
  { t with autoIncrement := t.autoIncrement + lost }

def call (x : Call) (t : NodeTable) : Answer × NodeTable :=
  match x with
  | .resetNodeStore startID => (.done, resetNodeStore startID t)
  | .retried op failures => retrying lose op.impl failures t

/-! ## What `MemoryLinkStore` answers -/

def ofAnswer : MemoryNodes.Answer → Answer
  | .done => .done
  | .newId id => .newId id
  | .node n => .node n
  | .flag b => .flag b
  | .throws message => .throws (.exception message)

section

variable (dbid : String)

/-- `GraphStore.bulkAddNodes`. -/
def GraphStore.bulkAddNodes : List Node → Nodedbs → Answer × Nodedbs
  | [], dbs => (.newIds [], dbs)
  | n :: nodes, dbs =>
    match MemoryNodes.addNode dbid dbs n with
    | (.newId id, dbs) =>
      match GraphStore.bulkAddNodes nodes dbs with
      | (.newIds ids, dbs) => (.newIds (id :: ids), dbs)
      | r => r
    | (a, dbs) => (ofAnswer a, dbs)

def Op.memory (op : Op) (dbs : Nodedbs) : Answer × Nodedbs :=
  match op with
  | .addNode n => Prod.map ofAnswer id (MemoryNodes.addNode dbid dbs n)
  | .bulkAddNodes nodes => GraphStore.bulkAddNodes dbid nodes dbs
  | .getNode type id => Prod.map ofAnswer (fun dbs => dbs) (MemoryNodes.getNode dbid dbs type id)
  | .updateNode n => Prod.map ofAnswer id (MemoryNodes.updateNode dbid dbs n)
  | .deleteNode type id =>
    Prod.map ofAnswer (fun dbs => dbs) (MemoryNodes.deleteNode dbid dbs type id)

/-- The node that is stored under an id. -/
def stored (dbs : Nodedbs) (id : Int) : Option Node :=
  (dbs.lookup dbid).bind fun db => db.data.lookup id

/-- Where the two stores differ. -/
def Op.expected (op : Op) (dbs : Nodedbs) : Answer × Nodedbs :=
  match op with
  | .updateNode n =>
    if stored dbid dbs n.id = some n then (.flag false, dbs) else Op.memory dbid (.updateNode n) dbs
  | .bulkAddNodes [] => (.throws (.sql "42000"), dbs)
  | op => op.memory dbid dbs

/-- The ids that are left out. -/
def skip (lost : Nat) (dbs : Nodedbs) : Nodedbs :=
  match dbs.lookup dbid with
  | none => dbs
  | some db => dbs.insert dbid { db with nextID := wrap64 (db.nextID + lost) }

def expected (x : Call) (dbs : Nodedbs) : Answer × Nodedbs :=
  match x with
  | .resetNodeStore startID => Prod.map ofAnswer id (MemoryNodes.resetNodeStore dbid dbs startID)
  | .retried op failures => retrying (skip dbid) (op.expected dbid) failures dbs

end

/-! ## The stores beside each other -/

def Op.adds : Op → Nat
  | .addNode _ => 1
  | .bulkAddNodes nodes => nodes.length
  | _ => 0

/-- The ids that a call may use up. -/
def Call.uses : Call → Nat
  | .resetNodeStore _ => 0
  | .retried op failures => (failures.map Failure.lost).sum + op.adds

/-- Ids are positive, and there is room for them in a `long`. -/
def Room (dbid : String) (x : Call) (dbs : Nodedbs) : Prop :=
  match x with
  | .resetNodeStore startID => 1 ≤ startID ∧ startID < 2 ^ 63
  | x => ((dbs.lookup dbid).map NodeDB.nextID).getD 0 + x.uses < 2 ^ 63

instance (dbid : String) (x : Call) (dbs : Nodedbs) : Decidable (Room dbid x dbs) := by
  unfold Room
  split <;> infer_instance

/-- A node table, and a `NodeDB` with the same nodes. -/
structure Agree (t : NodeTable) (db : NodeDB) : Prop where
  next : db.nextID = t.autoIncrement
  rows : db.data = t.rows
  positive : 1 ≤ t.autoIncrement
  below : ∀ id n, t.rows.lookup id = some n → id < t.autoIncrement ∧ n.id = id

/-- The table is that of the database. -/
def Agrees (dbid : String) (t : NodeTable) (dbs : Nodedbs) : Prop :=
  ∃ db, dbs.lookup dbid = some db ∧ Agree t db

section

variable {dbid : String} {t : NodeTable} {dbs : Nodedbs} {db : NodeDB}

theorem Agree.insert (h : Agree t db) : Agrees dbid t (dbs.insert dbid db) :=
  ⟨db, by rw [Table.lookup_insert_eq, if_pos rfl], h⟩

theorem agrees_reset {startID : Int} (hpos : 1 ≤ startID) :
    Agrees dbid (resetNodeStore startID t) (dbs.insert dbid ⟨startID, ∅⟩) := by
  refine Agree.insert ⟨rfl, rfl, hpos, fun id n hn => ?_⟩
  rw [resetNodeStore, Finmap.lookup_empty] at hn
  cases hn

/-- An id that a `long` holds. -/
theorem wrap64_eq {x : Int} (hpos : 1 ≤ x) (hlt : x < 2 ^ 63) : wrap64 x = x := by
  refine wrap_eq_self ?_ hlt
  omega

theorem Agrees.lose (h : Agrees dbid t dbs) {lost : Nat} (hroom : t.autoIncrement + lost < 2 ^ 63) :
    Agrees dbid (lose lost t) (skip dbid lost dbs) := by
  obtain ⟨db, hdb, hnext, hrows, hpos, hbelow⟩ := h
  rw [skip, hdb]
  refine Agree.insert ⟨?_, hrows, ?_, fun id n hn => ?_⟩
  · rw [hnext]
    exact wrap64_eq (by omega) hroom
  · show 1 ≤ t.autoIncrement + lost
    omega
  · obtain ⟨hlt, hid⟩ := hbelow id n hn
    refine ⟨?_, hid⟩
    show id < t.autoIncrement + lost
    omega

/-- A new node gets the next id in both. -/
theorem Agrees.add (h : Agrees dbid t dbs) (n : Node) (hroom : t.autoIncrement + 1 < 2 ^ 63) :
    ∃ dbs', MemoryNodes.addNode dbid dbs n = (.newId t.autoIncrement, dbs') ∧
      Agrees dbid ⟨t.autoIncrement + 1,
        t.rows.insert t.autoIncrement { n with id := t.autoIncrement }⟩ dbs' := by
  obtain ⟨db, hdb, hnext, hrows, hpos, hbelow⟩ := h
  have hfree : db.data.lookup db.nextID = none := by
    refine Option.eq_none_iff_forall_ne_some.mpr fun old hold => ?_
    rw [hnext, hrows] at hold
    exact absurd (hbelow _ old hold).1 (lt_irrefl _)
  simp only [MemoryNodes.addNode, getNodeDB_of_lookup hdb, hfree, hnext]
  refine ⟨_, rfl, Agree.insert ⟨?_, ?_, ?_, fun id old hold => ?_⟩⟩
  · exact wrap64_eq (by omega) hroom
  · show db.data.insert _ _ = t.rows.insert _ _
    rw [hrows]
  · show 1 ≤ t.autoIncrement + 1
    omega
  · show id < t.autoIncrement + 1 ∧ old.id = id
    rw [Table.lookup_insert_eq] at hold
    split at hold
    case isTrue hid =>
      cases hold
      exact ⟨by omega, hid.symm⟩
    case isFalse =>
      obtain ⟨hlt, hid⟩ := hbelow id old hold
      exact ⟨by omega, hid⟩

theorem length_insertNodes (nodes : List Node) (t : NodeTable) :
    (insertNodes nodes t).1.length = nodes.length := by
  induction nodes generalizing t with
  | nil => rfl
  | cons n nodes ih =>
    rw [insertNodes, List.length_cons]
    exact congrArg (· + 1) (ih _)

/-- One `INSERT` for all nodes is one call for each. -/
theorem Agrees.addAll (h : Agrees dbid t dbs) {nodes : List Node}
    (hroom : t.autoIncrement + nodes.length < 2 ^ 63) :
    (GraphStore.bulkAddNodes dbid nodes dbs).1 = .newIds (insertNodes nodes t).1 ∧
      Agrees dbid (insertNodes nodes t).2 (GraphStore.bulkAddNodes dbid nodes dbs).2 := by
  induction nodes generalizing t dbs with
  | nil => exact ⟨rfl, h⟩
  | cons n nodes ih =>
    rw [List.length_cons, Nat.cast_succ] at hroom
    obtain ⟨dbs', hadd, h'⟩ := h.add n (by omega)
    have hrest := ih h' (by
      show t.autoIncrement + 1 + (nodes.length : Int) < 2 ^ 63
      omega)
    rw [GraphStore.bulkAddNodes, hadd, insertNodes]
    dsimp only
    generalize GraphStore.bulkAddNodes dbid nodes dbs' = r at hrest ⊢
    obtain ⟨a, dbs''⟩ := r
    obtain ⟨rfl, h''⟩ := hrest
    exact ⟨rfl, h''⟩

theorem bulkAddNodesImpl_eq {nodes : List Node} (hnodes : nodes ≠ []) :
    bulkAddNodesImpl nodes t = (.newIds (insertNodes nodes t).1, (insertNodes nodes t).2) := by
  rw [bulkAddNodesImpl, if_neg hnodes]
  exact if_neg (not_not.mpr (length_insertNodes nodes t))

theorem Agrees.stored_eq (h : Agrees dbid t dbs) (id : Int) :
    stored dbid dbs id = t.rows.lookup id := by
  obtain ⟨db, hdb, hagree⟩ := h
  rw [stored, hdb, Option.bind_some, hagree.rows]

/-- A node written over, or taken out. -/
theorem Agree.put (h : Agree t db) {rows : Table Int Node}
    (hrows : ∀ id n, rows.lookup id = some n → (∃ old, t.rows.lookup id = some old) ∧ n.id = id) :
    Agrees dbid { t with rows := rows } (dbs.insert dbid { db with data := rows }) := by
  refine Agree.insert ⟨h.next, rfl, h.positive, fun id n hn => ?_⟩
  obtain ⟨⟨old, hold⟩, hid⟩ := hrows id n hn
  exact ⟨(h.below id old hold).1, hid⟩

theorem Agrees.getNode (h : Agrees dbid t dbs) (type id : Int) :
    (Op.memory dbid (.getNode type id) dbs).1 = getNodeImpl type id t ∧
      (Op.memory dbid (.getNode type id) dbs).2 = dbs := by
  obtain ⟨db, hdb, hagree⟩ := h
  simp only [Op.memory, MemoryNodes.getNode, getNodeDB_of_lookup hdb, hagree.rows, getNodeImpl,
    Prod.map_fst, Prod.map_snd]
  cases t.rows.lookup id with
  | none => exact ⟨rfl, rfl⟩
  | some n =>
    dsimp only
    split
    case isTrue => exact ⟨rfl, rfl⟩
    case isFalse => exact ⟨rfl, rfl⟩

theorem Agrees.deleteNode (h : Agrees dbid t dbs) (type id : Int) :
    (Op.memory dbid (.deleteNode type id) dbs).1 = (deleteNodeImpl type id t).1 ∧
      Agrees dbid (deleteNodeImpl type id t).2 (Op.memory dbid (.deleteNode type id) dbs).2 := by
  obtain ⟨db, hdb, hagree⟩ := h
  have hdata : db.data.lookup id = t.rows.lookup id := by rw [hagree.rows]
  cases hold : t.rows.lookup id with
  | none =>
    simp only [Op.memory, MemoryNodes.deleteNode, getNodeDB_of_lookup hdb, hdata, hold,
      deleteNodeImpl, deleteRow, Prod.map_fst, Prod.map_snd, if_true]
    exact ⟨rfl, db, hdb, hagree⟩
  | some old =>
    by_cases htype : old.type = type
    · simp only [Op.memory, MemoryNodes.deleteNode, getNodeDB_of_lookup hdb, hdata, hold, htype,
        deleteNodeImpl, deleteRow, Prod.map_fst, Prod.map_snd, ne_eq, not_true_eq_false, if_false,
        if_true, Nat.one_ne_zero]
      rw [hagree.rows]
      refine ⟨rfl, hagree.put fun id' n hn => ?_⟩
      rw [Table.lookup_erase_eq] at hn
      split at hn
      case isTrue => cases hn
      case isFalse => exact ⟨⟨n, hn⟩, (hagree.below id' n hn).2⟩
    · simp only [Op.memory, MemoryNodes.deleteNode, getNodeDB_of_lookup hdb, hdata, hold, htype,
        deleteNodeImpl, deleteRow, Prod.map_fst, Prod.map_snd, ne_eq, not_false_eq_true, if_true,
        if_false]
      exact ⟨rfl, db, hdb, hagree⟩

/-- What an update puts in is the node, under its id and with its type. -/
theorem updated_eq {n old : Node} (hid : old.id = n.id) (htype : old.type = n.type) :
    { old with version := n.version, time := n.time, data := n.data } = n := by
  cases n
  cases old
  obtain rfl := hid
  obtain rfl := htype
  rfl

theorem Agrees.updateNode (h : Agrees dbid t dbs) (n : Node) :
    (Op.expected dbid (.updateNode n) dbs).1 = (updateNodeImpl n t).1 ∧
      Agrees dbid (updateNodeImpl n t).2 (Op.expected dbid (.updateNode n) dbs).2 := by
  have hstored := h.stored_eq n.id
  obtain ⟨db, hdb, hagree⟩ := h
  have hdata : db.data.lookup n.id = t.rows.lookup n.id := by rw [hagree.rows]
  rw [Op.expected, hstored]
  cases hold : t.rows.lookup n.id with
  | none =>
    simp only [Op.memory, MemoryNodes.updateNode, getNodeDB_of_lookup hdb, hdata, hold,
      updateNodeImpl, updateRow, Prod.map_fst, Prod.map_snd, Nat.zero_ne_one, if_true, if_false,
      reduceCtorEq]
    exact ⟨rfl, db, hdb, hagree⟩
  | some old =>
    by_cases htype : old.type = n.type
    · have hnew := updated_eq (hagree.below _ _ hold).2 htype
      by_cases hsame : old = n
      · -- nothing changes, so that no row counts as affected
        subst hsame
        simp only [hold, updateNodeImpl, updateRow, ne_eq, not_true_eq_false, and_false, if_false,
          if_true, Nat.zero_ne_one]
        exact ⟨trivial, db, hdb, hagree⟩
      · have hother : some old ≠ some n := fun heq => hsame (Option.some.inj heq)
        have hupdate : updateRow n t = (1, { t with rows := t.rows.insert n.id n }) := by
          simp only [updateRow, hold]
          rw [hnew]
          exact if_pos ⟨htype, Ne.symm hsame⟩
        rw [if_neg hother]
        simp only [Op.memory, MemoryNodes.updateNode, getNodeDB_of_lookup hdb, hdata, hold,
          updateNodeImpl, hupdate, Prod.map_fst, Prod.map_snd, htype, ne_eq, not_true_eq_false,
          if_true, if_false, id_eq]
        rw [hagree.rows]
        refine ⟨rfl, hagree.put fun id' n' hn' => ?_⟩
        rw [Table.lookup_insert_eq] at hn'
        split at hn'
        case isTrue hid =>
          cases hn'
          exact ⟨⟨old, hid ▸ hold⟩, hid.symm⟩
        case isFalse => exact ⟨⟨n', hn'⟩, (hagree.below id' n' hn').2⟩
    · have hother : some old ≠ some n := fun heq => htype (congrArg Node.type (Option.some.inj heq))
      rw [if_neg hother]
      simp only [Op.memory, MemoryNodes.updateNode, getNodeDB_of_lookup hdb, hdata, hold, htype,
        updateNodeImpl, updateRow, Prod.map_fst, Prod.map_snd, false_and, ne_eq,
        not_false_eq_true, if_true, if_false, id_eq, Nat.zero_ne_one]
      exact ⟨rfl, db, hdb, hagree⟩

/-- One method that meets no error. -/
theorem Agrees.op (h : Agrees dbid t dbs) {op : Op} (hroom : t.autoIncrement + op.adds < 2 ^ 63) :
    (op.impl t).1 = (op.expected dbid dbs).1 ∧
      Agrees dbid (op.impl t).2 (op.expected dbid dbs).2 := by
  cases op with
  | addNode n =>
    obtain ⟨dbs', hadd, h'⟩ := h.add n hroom
    simp only [Op.impl, addNodeImpl, bulkAddNodesImpl_eq (List.cons_ne_nil n []), insertNodes,
      List.headD_cons, Op.expected, Op.memory, hadd, Prod.map_fst, Prod.map_snd, id_eq]
    exact ⟨rfl, h'⟩
  | bulkAddNodes nodes =>
    cases nodes with
    | nil => exact ⟨rfl, h⟩
    | cons n nodes =>
      have hall := h.addAll hroom
      simp only [Op.impl, bulkAddNodesImpl_eq (List.cons_ne_nil n nodes), Op.expected, Op.memory]
      exact ⟨hall.1.symm, hall.2⟩
  | getNode type id =>
    obtain ⟨hanswer, hsame⟩ := h.getNode type id
    simp only [Op.impl, Op.expected]
    rw [hsame]
    exact ⟨hanswer.symm, h⟩
  | updateNode n =>
    obtain ⟨hanswer, h'⟩ := h.updateNode n
    exact ⟨hanswer.symm, h'⟩
  | deleteNode type id =>
    obtain ⟨hanswer, h'⟩ := h.deleteNode type id
    exact ⟨hanswer.symm, h'⟩

/-- The loop around it: every failed attempt leaves ids out, in both. -/
theorem Agrees.retrying (h : Agrees dbid t dbs) {op : Op} {failures : List Failure}
    (hroom : t.autoIncrement + (Call.retried op failures).uses < 2 ^ 63) :
    (MysqlNodes.retrying MysqlNodes.lose op.impl failures t).1 =
        (MysqlNodes.retrying (skip dbid) (op.expected dbid) failures dbs).1 ∧
      Agrees dbid (MysqlNodes.retrying MysqlNodes.lose op.impl failures t).2
        (MysqlNodes.retrying (skip dbid) (op.expected dbid) failures dbs).2 := by
  induction failures generalizing t dbs with
  | nil =>
    rw [Call.uses, List.map_nil, List.sum_nil, Nat.zero_add] at hroom
    exact h.op hroom
  | cons f failures ih =>
    rw [Call.uses, List.map_cons, List.sum_cons] at hroom
    have hlost : t.autoIncrement + f.lost < 2 ^ 63 := by omega
    have h' := h.lose hlost
    rw [MysqlNodes.retrying, MysqlNodes.retrying]
    split
    case isTrue =>
      refine ih h' ?_
      show t.autoIncrement + f.lost + (Call.retried op failures).uses < 2 ^ 63
      rw [Call.uses]
      omega
    case isFalse => exact ⟨rfl, h'⟩

theorem Agrees.call (h : Agrees dbid t dbs) {x : Call} (hroom : Room dbid x dbs) :
    (call x t).1 = (expected dbid x dbs).1 ∧ Agrees dbid (call x t).2 (expected dbid x dbs).2 := by
  cases x with
  | resetNodeStore startID => exact ⟨rfl, agrees_reset (t := t) hroom.1⟩
  | retried op failures =>
    refine h.retrying ?_
    obtain ⟨db, hdb, hagree⟩ := h
    rw [Room, hdb, Option.map_some, Option.getD_some, hagree.next] at hroom
    · exact hroom
    · exact fun startID heq => Call.noConfusion heq

end

/-- **The two stores agree.** From a reset on, whatever the calls are and whichever attempts fail
by transient errors, a client gets from MySQL what it gets from `MemoryLinkStore` with the lost ids
left out: the ids in the same order, a node under its id with its type as it was stored last. Only
an update to what is already there is answered as if there were no node, and an empty bulk load
with an error of syntax. -/
theorem nodes_agree (dbid : String) (t₀ : NodeTable) {dbs₀ : Nodedbs} {startID : Int}
    {calls : List Call}
    (hroom : AllSteps (fun x dbs => some (expected dbid x dbs).2) (Room dbid)
      (.resetNodeStore startID :: calls) dbs₀) :
    (answers call (.resetNodeStore startID :: calls) t₀).1 =
      (answers (expected dbid) (.resetNodeStore startID :: calls) dbs₀).1 := by
  obtain ⟨hstart, hrest⟩ := hroom
  have hreset : Agrees dbid (call (.resetNodeStore startID) t₀).2
      (expected dbid (.resetNodeStore startID) dbs₀).2 := agrees_reset (t := t₀) hstart.1
  have hstep : ∀ {x : Call} {t : NodeTable} {dbs : Nodedbs}, Agrees dbid t dbs → Room dbid x dbs →
      (call x t).1 = (expected dbid x dbs).1 ∧
        Agrees dbid (call x t).2 (expected dbid x dbs).2 :=
    fun hR hok => hR.call hok
  have hcalls := answers_simulates hstep hreset (hrest _ rfl)
  rw [answers, answers, hcalls.1]
  rfl

/-- A deadlock costs two ids; the second update changes nothing. -/
theorem nodes_agree_deadlock :
    let n : Node := ⟨0, 7, 1, 100, [1, 2]⟩
    let calls : List Call :=
      [.resetNodeStore 10, .retried (.bulkAddNodes [n, n]) [], .retried (.addNode n) [⟨"40001", 2⟩],
        .retried (.updateNode { n with id := 14, data := [3] }) [],
        .retried (.updateNode { n with id := 14, data := [3] }) [], .retried (.getNode 7 14) [],
        .retried (.deleteNode 8 11) [], .retried (.deleteNode 7 11) []]
    (answers call calls ⟨1, ∅⟩).1 = (answers (expected "d") calls ∅).1 ∧
      (answers call calls ⟨1, ∅⟩).1 =
        [.done, .newIds [10, 11], .newId 14, .flag true, .flag false,
          .node (some { n with id := 14, data := [3] }), .flag false, .flag true] := by
  have hroom : AllSteps (fun x dbs => some (expected "d" x dbs).2) (Room "d")
      [.resetNodeStore 10,
        .retried (.bulkAddNodes [⟨0, 7, 1, 100, [1, 2]⟩, ⟨0, 7, 1, 100, [1, 2]⟩]) [],
        .retried (.addNode ⟨0, 7, 1, 100, [1, 2]⟩) [⟨"40001", 2⟩],
        .retried (.updateNode ⟨14, 7, 1, 100, [3]⟩) [],
        .retried (.updateNode ⟨14, 7, 1, 100, [3]⟩) [], .retried (.getNode 7 14) [],
        .retried (.deleteNode 8 11) [], .retried (.deleteNode 7 11) []] ∅ := by
    decide
  exact ⟨nodes_agree "d" ⟨1, ∅⟩ hroom, by decide⟩

end TokuQa.LinkBench.MysqlNodes
