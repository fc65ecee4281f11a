import TokuQa.Lib.JavaInt
import TokuQa.Lib.Run
import TokuQa.Lib.Table
import TokuQa.LinkBench.NodeStore

/-!
# `MemoryLinkStore.java`, the node half

One `NodeDB` for each database that was ever reset: the next id, and a map from ids to nodes.
The contract beside it is the one `NodeStore.java` documents: a database hands out the ids
`startID`, `startID + 1`, ... and finds a node under its id and its type.

The store follows the contract call by call (`nodes_follow_contract`). Two things in it are by
design. A database that was never reset has no start for its ids, so every other call on it
throws. Ids are `long`s, so they wrap around, and come again after `2 ^ 64` of them.

The store holds copies of nodes and returns copies; the mutex is held from end to end.
-/

set_option autoImplicit false

namespace TokuQa.LinkBench.MemoryNodes

open TokuQa.Lib

/-! ## The store -/

structure NodeDB where
  nextID : Int
  data : Table Int Node

/-- `nodedbs`. -/
abbrev Nodedbs := Table String NodeDB

/-- `Arrays.toString` of a `byte[]`: bytes are signed. -/
def bytesToString (data : List UInt8) : String :=
  "[" ++ ", ".intercalate (data.map fun b => toString (wrap 7 (b.toNat : Int))) ++ "]"

/-- `Node.toString`. -/
def nodeToString (n : Node) : String :=
  "Node(id=" ++ toString n.id ++ ",type=" ++ toString n.type ++ ",version=" ++
    toString n.version ++ ",timestamp=" ++ toString n.time ++ ",data=" ++ bytesToString n.data ++
    ")"

def notInitialized (dbid : String) : String := "dbid " ++ dbid ++ " was not initialized"

def alreadyExisting (dbid : String) (prev : Node) : String :=
  "Internal error: node " ++ nodeToString prev ++ " already existing in dbid " ++ dbid

/-- The calls of the interface. -/
inductive NodeOp where
  | resetNodeStore (startID : Int)
  | addNode (node : Node)
  | getNode (type id : Int)
  | updateNode (node : Node)
  | deleteNode (type id : Int)
deriving DecidableEq

inductive Answer where
  | done
  | newId (id : Int)
  /-- `none` is `null`. -/
  | node (n : Option Node)
  | flag (b : Bool)
  | throws (message : String)
deriving DecidableEq

section

variable (dbid : String) (dbs : Nodedbs)

/-- `getNodeDB`, with the databases after it. -/
def getNodeDB (autocreate : Bool) : Except String (NodeDB × Nodedbs) :=
  match dbs.lookup dbid with
  | some db => .ok (db, dbs)
  | none =>
    if autocreate then .ok (⟨1, ∅⟩, dbs.insert dbid ⟨1, ∅⟩)
    else .error (notInitialized dbid)

/-- A new `NodeDB(startID)`, or the old one after `reset(startID)`: there is no difference. -/
def resetNodeStore (startID : Int) : Answer × Nodedbs := (.done, dbs.insert dbid ⟨startID, ∅⟩)

def addNode (node : Node) : Answer × Nodedbs :=
  match getNodeDB dbid dbs false with
  | .error message => (.throws message, dbs)
  | .ok (db, dbs) =>
    let newId := db.nextID
    let inserted := { node with id := newId }
    -- the id is used up and the copy stored before `prev` is looked at
    let dbs := dbs.insert dbid ⟨wrap64 (newId + 1), db.data.insert newId inserted⟩
    match db.data.lookup newId with
    | some prev => (.throws (alreadyExisting dbid prev), dbs)
    | none => (.newId newId, dbs)

def getNode (type id : Int) : Answer × Nodedbs :=
  match getNodeDB dbid dbs false with
  | .error message => (.throws message, dbs)
  | .ok (db, dbs) =>
    match db.data.lookup id with
    | none => (.node none, dbs)
    | some n => if n.type ≠ type then (.node none, dbs) else (.node (some n), dbs)

def updateNode (node : Node) : Answer × Nodedbs :=
  match getNodeDB dbid dbs false with
  | .error message => (.throws message, dbs)
  | .ok (db, dbs) =>
    match db.data.lookup node.id with
    | none => (.flag false, dbs)
    | some n =>
      if n.type ≠ node.type then (.flag false, dbs)
      else (.flag true, dbs.insert dbid { db with data := db.data.insert node.id node })

def deleteNode (type id : Int) : Answer × Nodedbs :=
  match getNodeDB dbid dbs false with
  | .error message => (.throws message, dbs)
  | .ok (db, dbs) =>
    match db.data.lookup id with
    | none => (.flag false, dbs)
    | some n =>
      if n.type ≠ type then (.flag false, dbs)
      else (.flag true, dbs.insert dbid { db with data := db.data.erase id })

end

/-- A call on one of the databases. -/
def call (x : String × NodeOp) (dbs : Nodedbs) : Answer × Nodedbs :=
  match x.2 with
  | .resetNodeStore startID => resetNodeStore x.1 dbs startID
  | .addNode node => addNode x.1 dbs node
  | .getNode type id => getNode x.1 dbs type id
  | .updateNode node => updateNode x.1 dbs node
  | .deleteNode type id => deleteNode x.1 dbs type id

/-! ## The contract -/

/-- A database since its last reset: the ids it handed out, in order, and what is stored. -/
structure Shard where
  startID : Int
  ids : List Int
  nodes : Int → Option Node

namespace Shard

def reset (startID : Int) : Shard := ⟨startID, [], fun _ => none⟩

/-- The next id in the sequence, as a `long`. -/
def nextId (sh : Shard) : Int := wrap64 (sh.startID + sh.ids.length)

/-- The node under an id, if it has the type. -/
def find (sh : Shard) (type id : Int) : Option Node := (sh.nodes id).filter fun n => n.type = type

def put (sh : Shard) (id : Int) (n : Option Node) : Shard :=
  { sh with nodes := Function.update sh.nodes id n }

def add (sh : Shard) (n : Node) : Shard :=
  { sh.put sh.nextId (some { n with id := sh.nextId }) with ids := sh.ids ++ [sh.nextId] }

/-- What the calls on a database that was reset answer. -/
def call (op : NodeOp) (sh : Shard) : Answer × Shard :=
  match op with
  | .resetNodeStore startID => (.done, reset startID)
  | .addNode n => (.newId sh.nextId, sh.add n)
  | .getNode type id => (.node (sh.find type id), sh)
  | .updateNode n =>
    if (sh.find n.type n.id).isSome then (.flag true, sh.put n.id (some n)) else (.flag false, sh)
  | .deleteNode type id =>
    if (sh.find type id).isSome then (.flag true, sh.put id none) else (.flag false, sh)

end Shard

/-- No node under the id, one of another type, or the node. -/
theorem Shard.find_cases (sh : Shard) (type id : Int) :
    (sh.nodes id = none ∧ sh.find type id = none) ∨
      (∃ old, sh.nodes id = some old ∧ old.type ≠ type ∧ sh.find type id = none) ∨
      ∃ old, sh.nodes id = some old ∧ old.type = type ∧ sh.find type id = some old := by
  unfold find
  cases sh.nodes id with
  | none => exact Or.inl ⟨rfl, rfl⟩
  | some old =>
    by_cases htype : old.type = type
    · exact Or.inr (Or.inr ⟨old, rfl, htype, by simp [htype]⟩)
    · exact Or.inr (Or.inl ⟨old, rfl, htype, by simp [htype]⟩)

/-- The databases; `none` is one that was never reset. -/
abbrev Shards := String → Option Shard

/-- **The contract**: a call is about its own database, and the first one resets it. -/
def Shards.call (x : String × NodeOp) (S : Shards) : Answer × Shards :=
  match S x.1, x.2 with
  | some sh, op => ((sh.call op).1, Function.update S x.1 (some (sh.call op).2))
  | none, .resetNodeStore startID => (.done, Function.update S x.1 (some (Shard.reset startID)))
  | none, _ => (.throws (notInitialized x.1), S)

/-- What the contract asks of a call: a start is a `long`, and a database does not hand out
more ids than there are. -/
def Legal (x : String × NodeOp) (S : Shards) : Prop :=
  match x.2 with
  | .resetNodeStore startID => wrap64 startID = startID
  | .addNode _ => ∀ sh, S x.1 = some sh → sh.ids.length < 2 ^ 64
  | _ => True

/-! ## The store follows it -/

/-- A database and its shard. -/
structure Refines (db : NodeDB) (sh : Shard) : Prop where
  next : db.nextID = sh.nextId
  nodes : ∀ id, db.data.lookup id = sh.nodes id
  sequence : sh.ids = (List.range sh.ids.length).map fun k : Nat => wrap64 (sh.startID + k)
  few : sh.ids.length ≤ 2 ^ 64
  handedOut : ∀ id, sh.nodes id ≠ none → id ∈ sh.ids

/-- The same of all databases. -/
def AllRefine (dbs : Nodedbs) (S : Shards) : Prop :=
  ∀ dbid, Option.Rel Refines (dbs.lookup dbid) (S dbid)

theorem allRefine_empty : AllRefine ∅ fun _ => none := fun _ => Option.Rel.none

section

variable {dbs : Nodedbs} {S : Shards} {dbid : String} {db : NodeDB} {sh : Shard}

theorem AllRefine.exists_db (h : AllRefine dbs S) (hsh : S dbid = some sh) :
    ∃ db, dbs.lookup dbid = some db ∧ Refines db sh := by
  have hdbid := h dbid
  rw [hsh] at hdbid
  cases hdb : dbs.lookup dbid with
  | none =>
    rw [hdb] at hdbid
    cases hdbid
  | some db =>
    rw [hdb] at hdbid
    cases hdbid with
    | some hr => exact ⟨db, rfl, hr⟩

theorem AllRefine.insert (h : AllRefine dbs S) (hr : Refines db sh) :
    AllRefine (dbs.insert dbid db) (Function.update S dbid (some sh)) := by
  intro dbid'
  rw [Table.lookup_insert_eq]
  by_cases hd : dbid' = dbid
  · rw [if_pos hd, hd, Function.update_self]
    exact Option.Rel.some hr
  · rw [if_neg hd, Function.update_of_ne hd]
    exact h dbid'

theorem refines_reset {startID : Int} (hlong : wrap64 startID = startID) :
    Refines ⟨startID, ∅⟩ (Shard.reset startID) := by
  refine ⟨?_, fun _ => rfl, rfl, Nat.zero_le _, fun _ h => absurd rfl h⟩
  show startID = wrap64 (startID + ((0 : Nat) : Int))
  rw [Nat.cast_zero, add_zero, hlong]

/-- The ids of a sequence that is not too long are different. -/
theorem nodup_sequence (startID : Int) {m : Nat} (hm : m ≤ 2 ^ 64) :
    ((List.range m).map fun k : Nat => wrap64 (startID + k)).Nodup := by
  refine (List.nodup_map_iff_inj_on List.nodup_range).mpr fun i hi j hj he => ?_
  rw [List.mem_range] at hi hj
  have hclose : (startID + i - (startID + j)).natAbs < 2 ^ (63 + 1) := by omega
  have heq := wrap_injective he hclose
  omega

/-- The next id is not one of those handed out. -/
theorem Refines.nextId_notMem (h : Refines db sh) (hfew : sh.ids.length < 2 ^ 64) :
    sh.nextId ∉ sh.ids := by
  have hnodup := nodup_sequence sh.startID (m := sh.ids.length + 1) hfew
  rw [List.range_succ, List.map_append, ← h.sequence, List.map_singleton] at hnodup
  intro hmem
  exact (List.nodup_append.mp hnodup).2.2 _ hmem _ (List.mem_singleton_self _) rfl

theorem Refines.add (h : Refines db sh) (hfew : sh.ids.length < 2 ^ 64) (n : Node) :
    Refines ⟨wrap64 (sh.nextId + 1), db.data.insert sh.nextId { n with id := sh.nextId }⟩
      (sh.add n) := by
  have hlength : (sh.ids ++ [sh.nextId]).length = sh.ids.length + 1 := by simp
  refine ⟨?_, ?_, ?_, ?_, ?_⟩
  · show wrap64 (sh.nextId + 1) =
      wrap64 (sh.startID + ((sh.ids ++ [sh.nextId]).length : Nat))
    have hwrap : wrap64 (sh.nextId + 1) = wrap64 (sh.startID + sh.ids.length + 1) :=
      wrap_add_wrap 1
    rw [hwrap, hlength, Nat.cast_succ, add_assoc]
  · intro id
    show (db.data.insert sh.nextId _).lookup id = Function.update sh.nodes sh.nextId _ id
    rw [Table.lookup_insert_eq, Function.update_apply, h.nodes]
  · show sh.ids ++ [sh.nextId] =
      (List.range (sh.ids ++ [sh.nextId]).length).map fun k : Nat => wrap64 (sh.startID + k)
    rw [hlength, List.range_succ, List.map_append, ← h.sequence]
    rfl
  · show (sh.ids ++ [sh.nextId]).length ≤ 2 ^ 64
    omega
  · intro id hid
    show id ∈ sh.ids ++ [sh.nextId]
    rw [List.mem_append, List.mem_singleton]
    by_cases hnew : id = sh.nextId
    · exact Or.inr hnew
    · refine Or.inl (h.handedOut id fun hnone => hid ?_)
      show Function.update sh.nodes sh.nextId _ id = none
      rw [Function.update_of_ne hnew, hnone]

/-- A stored node written over, or taken out. -/
theorem Refines.put (h : Refines db sh) {id : Int} {n : Option Node} {data : Table Int Node}
    (hstored : sh.nodes id ≠ none)
    (hdata : ∀ id', data.lookup id' = if id' = id then n else db.data.lookup id') :
    Refines { db with data } (sh.put id n) := by
  refine ⟨h.next, ?_, h.sequence, h.few, ?_⟩
  · intro id'
    show data.lookup id' = Function.update sh.nodes id n id'
    rw [hdata, Function.update_apply, h.nodes]
  · intro id' hid'
    by_cases he : id' = id
    · rw [he]
      exact h.handedOut id hstored
    · refine h.handedOut id' fun hnone => hid' ?_
      show Function.update sh.nodes id n id' = none
      rw [Function.update_of_ne he, hnone]

theorem getNodeDB_of_lookup (h : dbs.lookup dbid = some db) :
    getNodeDB dbid dbs false = .ok (db, dbs) := by
  rw [getNodeDB, h]

theorem getNodeDB_of_none (h : dbs.lookup dbid = none) :
    getNodeDB dbid dbs false = .error (notInitialized dbid) := by
  rw [getNodeDB, h]
  rfl

/-- A call on a database that was reset. -/
theorem call_refines_some (h : AllRefine dbs S) (hdb : dbs.lookup dbid = some db)
    (hsh : S dbid = some sh) (hr : Refines db sh) {op : NodeOp} (hlegal : Legal (dbid, op) S) :
    (call (dbid, op) dbs).1 = (sh.call op).1 ∧
      AllRefine (call (dbid, op) dbs).2 (Function.update S dbid (some (sh.call op).2)) := by
  have hself : Function.update S dbid (some sh) = S := by rw [← hsh, Function.update_eq_self]
  have hget := getNodeDB_of_lookup hdb
  cases op with
  | resetNodeStore startID => exact ⟨rfl, h.insert (refines_reset hlegal)⟩
  | addNode n =>
    have hfew := hlegal sh hsh
    have hfree : db.data.lookup db.nextID = none := by
      rw [hr.nodes, hr.next]
      by_contra hstored
      exact hr.nextId_notMem hfew (hr.handedOut _ hstored)
    simp only [call, addNode, hget, hfree, hr.next]
    exact ⟨rfl, h.insert (hr.add hfew n)⟩
  | getNode type id =>
    have hlookup := hr.nodes id
    rcases sh.find_cases type id with ⟨hn, hfind⟩ | ⟨old, hn, htype, hfind⟩ | ⟨old, hn, htype, hfind⟩
    · rw [hn] at hlookup
      simp only [call, getNode, hget, hlookup, Shard.call, hfind, hself]
      exact ⟨trivial, h⟩
    · rw [hn] at hlookup
      simp only [call, getNode, hget, hlookup, Shard.call, hfind, hself, if_pos htype]
      exact ⟨trivial, h⟩
    · rw [hn] at hlookup
      simp only [call, getNode, hget, hlookup, Shard.call, hfind, hself, if_neg (not_not.mpr htype)]
      exact ⟨trivial, h⟩
  | updateNode n =>
    have hlookup := hr.nodes n.id
    rcases sh.find_cases n.type n.id with ⟨hn, hfind⟩ | ⟨old, hn, htype, hfind⟩ |
      ⟨old, hn, htype, hfind⟩
    · rw [hn] at hlookup
      simp only [call, updateNode, hget, hlookup, Shard.call, hfind, Option.isSome_none,
        Bool.false_eq_true, if_false, hself]
      exact ⟨trivial, h⟩
    · rw [hn] at hlookup
      simp only [call, updateNode, hget, hlookup, Shard.call, hfind, Option.isSome_none,
        Bool.false_eq_true, if_false, hself, if_pos htype]
      exact ⟨trivial, h⟩
    · rw [hn] at hlookup
      have hstored : sh.nodes n.id ≠ none := by simp [hn]
      simp only [call, updateNode, hget, hlookup, Shard.call, hfind, Option.isSome_some, if_true,
        if_neg (not_not.mpr htype)]
      exact ⟨trivial, h.insert (hr.put hstored fun id => Table.lookup_insert_eq _ _ _ _)⟩
  | deleteNode type id =>
    have hlookup := hr.nodes id
    rcases sh.find_cases type id with ⟨hn, hfind⟩ | ⟨old, hn, htype, hfind⟩ | ⟨old, hn, htype, hfind⟩
    · rw [hn] at hlookup
      simp only [call, deleteNode, hget, hlookup, Shard.call, hfind, Option.isSome_none,
        Bool.false_eq_true, if_false, hself]
      exact ⟨trivial, h⟩
    · rw [hn] at hlookup
      simp only [call, deleteNode, hget, hlookup, Shard.call, hfind, Option.isSome_none,
        Bool.false_eq_true, if_false, hself, if_pos htype]
      exact ⟨trivial, h⟩
    · rw [hn] at hlookup
      have hstored : sh.nodes id ≠ none := by simp [hn]
      simp only [call, deleteNode, hget, hlookup, Shard.call, hfind, Option.isSome_some, if_true,
        if_neg (not_not.mpr htype)]
      exact ⟨trivial, h.insert (hr.put hstored fun id => Table.lookup_erase_eq _ _ _)⟩

/-- A call on a database that was not: it throws, unless it is the reset. -/
theorem call_refines_none (h : AllRefine dbs S) (hdb : dbs.lookup dbid = none)
    (hsh : S dbid = none) {op : NodeOp} (hlegal : Legal (dbid, op) S) :
    (call (dbid, op) dbs).1 = (Shards.call (dbid, op) S).1 ∧
      AllRefine (call (dbid, op) dbs).2 (Shards.call (dbid, op) S).2 := by
  have hget := getNodeDB_of_none hdb
  cases op with
  | resetNodeStore startID =>
    simp only [Shards.call, hsh]
    exact ⟨rfl, h.insert (refines_reset hlegal)⟩
  | addNode n =>
    simp only [call, addNode, hget, Shards.call, hsh]
    exact ⟨trivial, h⟩
  | getNode type id =>
    simp only [call, getNode, hget, Shards.call, hsh]
    exact ⟨trivial, h⟩
  | updateNode n =>
    simp only [call, updateNode, hget, Shards.call, hsh]
    exact ⟨trivial, h⟩
  | deleteNode type id =>
    simp only [call, deleteNode, hget, Shards.call, hsh]
    exact ⟨trivial, h⟩

/-- **One call.** -/
theorem call_refines (h : AllRefine dbs S) {x : String × NodeOp} (hlegal : Legal x S) :
    (call x dbs).1 = (Shards.call x S).1 ∧ AllRefine (call x dbs).2 (Shards.call x S).2 := by
  obtain ⟨dbid, op⟩ := x
  cases hsh : S dbid with
  | none =>
    have hdbid := h dbid
    rw [hsh] at hdbid
    cases hdb : dbs.lookup dbid with
    | none => exact call_refines_none h hdb hsh hlegal
    | some db =>
      rw [hdb] at hdbid
      cases hdbid
  | some sh =>
    obtain ⟨db, hdb, hr⟩ := h.exists_db hsh
    simp only [Shards.call, hsh]
    exact call_refines_some h hdb hsh hr hlegal

/-- A call writes its own database, or nothing. -/
theorem call_writes (x : String × NodeOp) (dbs : Nodedbs) :
    (call x dbs).2 = dbs ∨ ∃ db, (call x dbs).2 = dbs.insert x.1 db := by
  obtain ⟨dbid, op⟩ := x
  cases hdb : dbs.lookup dbid with
  | none =>
    have hget := getNodeDB_of_none hdb
    cases op with
    | resetNodeStore startID => exact Or.inr ⟨_, rfl⟩
    | addNode n => exact Or.inl (by simp only [call, addNode, hget])
    | getNode type id => exact Or.inl (by simp only [call, getNode, hget])
    | updateNode n => exact Or.inl (by simp only [call, updateNode, hget])
    | deleteNode type id => exact Or.inl (by simp only [call, deleteNode, hget])
  | some db =>
    have hget := getNodeDB_of_lookup hdb
    cases op with
    | resetNodeStore startID => exact Or.inr ⟨_, rfl⟩
    | addNode n =>
      right
      simp only [call, addNode, hget]
      split <;> exact ⟨_, rfl⟩
    | getNode type id =>
      left
      simp only [call, getNode, hget]
      split
      · rfl
      · split <;> rfl
    | updateNode n =>
      simp only [call, updateNode, hget]
      split
      · exact Or.inl rfl
      · split
        · exact Or.inl rfl
        · exact Or.inr ⟨_, rfl⟩
    | deleteNode type id =>
      simp only [call, deleteNode, hget]
      split
      · exact Or.inl rfl
      · split
        · exact Or.inl rfl
        · exact Or.inr ⟨_, rfl⟩

/-- A call leaves the other databases alone. -/
theorem lookup_call (dbs : Nodedbs) {x : String × NodeOp} {dbid' : String} (hd : dbid' ≠ x.1) :
    (call x dbs).2.lookup dbid' = dbs.lookup dbid' := by
  rcases call_writes x dbs with he | ⟨db, he⟩
  · rw [he]
  · rw [he, Table.lookup_insert_eq, if_neg hd]

end

/-! ## Runs -/

/-- What the contract answers to the calls, and the databases after them. -/
def contract (calls : List (String × NodeOp)) : List Answer × Shards :=
  answers Shards.call calls fun _ => none

/-- **The node store follows its contract**, over any calls on any databases: it answers as the
contract does, so no node is ever found where a new one goes; the ids a database hands out
since its last reset count up from its start, and none comes twice; and a call leaves the
other databases alone. -/
theorem nodes_follow_contract {calls : List (String × NodeOp)}
    (hlegal : AllSteps (fun x S => some (Shards.call x S).2) Legal calls fun _ => none) :
    (answers call calls ∅).1 = (contract calls).1 ∧
      (∀ dbid sh, (contract calls).2 dbid = some sh →
        sh.ids = (List.range sh.ids.length).map (fun k : Nat => wrap64 (sh.startID + k)) ∧
          sh.ids.Nodup) ∧
      ∀ x dbs dbid', dbid' ≠ x.1 → (call x dbs).2.lookup dbid' = dbs.lookup dbid' := by
  have hstep : ∀ {x dbs S}, AllRefine dbs S → Legal x S →
      (call x dbs).1 = (Shards.call x S).1 ∧ AllRefine (call x dbs).2 (Shards.call x S).2 :=
    fun hr hok => call_refines hr hok
  obtain ⟨hanswers, hrefine⟩ : (answers call calls ∅).1 = (contract calls).1 ∧
      AllRefine (answers call calls ∅).2 (contract calls).2 :=
    answers_simulates hstep allRefine_empty hlegal
  refine ⟨hanswers, ?_, fun x dbs dbid' hd => lookup_call dbs hd⟩
  intro dbid sh hsh
  obtain ⟨db, -, hr⟩ := AllRefine.exists_db hrefine hsh
  refine ⟨hr.sequence, ?_⟩
  rw [hr.sequence]
  exact nodup_sequence _ hr.few

/-- A reset, a node, and a look at it. -/
def oneNode : List (String × NodeOp) :=
  [("linkdb", .resetNodeStore 4), ("linkdb", .addNode ⟨-1, 2048, 1, 7, []⟩),
    ("linkdb", .getNode 2048 4)]

theorem nodes_follow_contract_oneNode :
    (answers call oneNode ∅).1 = (contract oneNode).1 ∧
      (∀ dbid sh, (contract oneNode).2 dbid = some sh →
        sh.ids = (List.range sh.ids.length).map (fun k : Nat => wrap64 (sh.startID + k)) ∧
          sh.ids.Nodup) ∧
      ∀ x dbs dbid', dbid' ≠ x.1 → (call x dbs).2.lookup dbid' = dbs.lookup dbid' := by
  refine nodes_follow_contract ⟨by show wrap64 4 = 4; decide, fun S hS => ?_⟩
  cases hS
  refine ⟨fun sh hsh => ?_, fun S hS => ?_⟩
  · cases hsh
    decide
  · cases hS
    exact ⟨trivial, fun _ _ => trivial⟩

/-- A database that was never reset throws where a missing node gives `null`; and behind the
last `long` the ids go on with the first. -/
theorem nodes_not_as_integers :
    (answers call [("linkdb", .getNode 2048 4)] ∅).1 =
        [.throws "dbid linkdb was not initialized"] ∧
      (answers call [("linkdb", .resetNodeStore (2 ^ 63 - 1)),
          ("linkdb", .addNode ⟨-1, 2048, 1, 7, []⟩), ("linkdb", .addNode ⟨-1, 2048, 1, 7, []⟩)] ∅).1 =
        [.done, .newId (2 ^ 63 - 1), .newId (-2 ^ 63)] := by
  decide

end TokuQa.LinkBench.MemoryNodes
