import Mathlib.Data.List.Basic
import Mathlib.Logic.Function.Basic

/-!
# The operations of `jmongosysbenchexecute.java`

A transaction works on one collection, in seven loops: reads, updates of one field, and pairs of a
remove and an insert of the same `_id`. Every number it draws is one of `rand.nextInt(n) + 1`. What
the reads find is not used.

A collection is a map from `_id` to the rest of the document. An insert of an `_id` that is there
throws, and nothing else does by itself.
-/

set_option autoImplicit false

namespace TokuQa.MongoSysbench

structure Config where
  numCollections : Nat
  numMaxInserts : Nat
  oltpRangeSize : Nat
  oltpPointSelects : Nat
  oltpSimpleRanges : Nat
  oltpSumRanges : Nat
  oltpOrderRanges : Nat
  oltpDistinctRanges : Nat
  oltpIndexUpdates : Nat
  oltpNonIndexUpdates : Nat
  oltpInserts : Nat

structure Document where
  k : Int
  c : String
  pad : String
deriving DecidableEq

abbrev Collection := Nat → Option Document

abbrev Db := Nat → Collection

inductive Op where
  | findOne (startId : Nat)
  | find (startId endId : Nat)
  | aggregate (startId endId : Nat)
  | findSorted (startId endId : Nat)
  | distinct (startId endId : Nat)
  | incK (startId : Nat)
  | setC (startId : Nat) (cVal : String)
  | remove (startId : Nat)
  | insert (startId : Nat) (doc : Document)
deriving DecidableEq

/-- What an operation makes of a collection; `none` when it throws. -/
def Op.apply : Op → Collection → Option Collection
  | .findOne _, coll => some coll
  | .find _ _, coll => some coll
  | .aggregate _ _, coll => some coll
  | .findSorted _ _, coll => some coll
  | .distinct _ _, coll => some coll
  | .incK id, coll =>
    some (Function.update coll id ((coll id).map fun doc => { doc with k := doc.k + 1 }))
  | .setC id cVal, coll =>
    some (Function.update coll id ((coll id).map fun doc => { doc with c := cVal }))
  | .remove id, coll => some (Function.update coll id none)
  | .insert id doc, coll =>
    -- duplicate key
    if (coll id).isSome then none else some (Function.update coll id (some doc))

/-- What a transaction draws, in each round of its loops. -/
structure Draws (c : Config) where
  collectionNumber : Fin c.numCollections
  pointSelect : Nat → Fin c.numMaxInserts
  simpleRange : Nat → Fin c.numMaxInserts
  sumRange : Nat → Fin c.numMaxInserts
  orderRange : Nat → Fin c.numMaxInserts
  distinctRange : Nat → Fin c.numMaxInserts
  indexUpdate : Nat → Fin c.numMaxInserts
  nonIndexUpdate : Nat → Fin c.numMaxInserts
  cVal : Nat → String
  insert : Nat → Fin c.numMaxInserts
  doc : Nat → Document

/-- `rand.nextInt(n) + 1`. -/
def drawn {n : Nat} (x : Fin n) : Nat := x.val + 1

def endId (c : Config) (startId : Nat) : Nat := startId + c.oltpRangeSize - 1

variable {c : Config}

/-- `sbtest` and this number. -/
def Draws.collection (d : Draws c) : Nat := drawn d.collectionNumber

/-- A loop over the `_id`s of its rounds. -/
def loop (rounds : Nat) (draw : Nat → Fin c.numMaxInserts) (op : Nat → Nat → Op) : List Op :=
  (List.range rounds).map fun i => op i (drawn (draw i))

/-- The loops that read and update. -/
def updates (c : Config) (d : Draws c) : List Op :=
  loop c.oltpPointSelects d.pointSelect (fun _ id => .findOne id) ++
  loop c.oltpSimpleRanges d.simpleRange (fun _ id => .find id (endId c id)) ++
  loop c.oltpSumRanges d.sumRange (fun _ id => .aggregate id (endId c id)) ++
  loop c.oltpOrderRanges d.orderRange (fun _ id => .findSorted id (endId c id)) ++
  loop c.oltpDistinctRanges d.distinctRange (fun _ id => .distinct id (endId c id)) ++
  loop c.oltpIndexUpdates d.indexUpdate (fun _ id => .incK id) ++
  loop c.oltpNonIndexUpdates d.nonIndexUpdate (fun i id => .setC id (d.cVal i))

/-- The loop that removes and inserts. -/
def inserts (c : Config) (d : Draws c) : List Op :=
  (List.range c.oltpInserts).flatMap fun i =>
    [.remove (drawn (d.insert i)), .insert (drawn (d.insert i)) (d.doc i)]

def operations (c : Config) (d : Draws c) : List Op := updates c d ++ inserts c d

/-! ## Pairs -/

/-- The operation takes documents in or out. -/
def Op.replaces : Op → Bool
  | .remove _ => true
  | .insert _ _ => true
  | _ => false

/-- Every insert follows a remove of its `_id`, one that a transaction draws. -/
inductive Paired (c : Config) : List Op → Prop
  | nil : Paired c []
  | other {op : Op} {ops : List Op} (h : op.replaces = false) (hops : Paired c ops) :
      Paired c (op :: ops)
  | pair {id : Nat} {doc : Document} {ops : List Op} (hid : 1 ≤ id ∧ id ≤ c.numMaxInserts)
      (hops : Paired c ops) : Paired c (.remove id :: .insert id doc :: ops)

theorem Paired.append {ops ops' : List Op} (h : Paired c ops) (h' : Paired c ops') :
    Paired c (ops ++ ops') := by
  induction h with
  | nil => exact h'
  | other hop _ ih => exact .other hop ih
  | pair hid _ ih => exact .pair hid ih

theorem replaces_updates (d : Draws c) : ∀ op ∈ updates c d, op.replaces = false := by
  intro op hop
  simp only [updates, loop, List.mem_append, List.mem_map] at hop
  rcases hop with ((((((⟨_, -, rfl⟩ | ⟨_, -, rfl⟩) | ⟨_, -, rfl⟩) | ⟨_, -, rfl⟩) | ⟨_, -, rfl⟩) |
    ⟨_, -, rfl⟩) | ⟨_, -, rfl⟩) <;> rfl

theorem paired_of_forall {ops : List Op} (h : ∀ op ∈ ops, op.replaces = false) : Paired c ops := by
  induction ops with
  | nil => exact .nil
  | cons op ops ih =>
    rw [List.forall_mem_cons] at h
    exact .other h.1 (ih h.2)

theorem drawn_mem {n : Nat} (x : Fin n) : 1 ≤ drawn x ∧ drawn x ≤ n := by
  have hlt := x.isLt
  unfold drawn
  omega

theorem paired_inserts (d : Draws c) (is : List Nat) : Paired c (is.flatMap fun i =>
    [.remove (drawn (d.insert i)), .insert (drawn (d.insert i)) (d.doc i)]) := by
  induction is with
  | nil => exact .nil
  | cons i is ih => exact .pair (drawn_mem (d.insert i)) ih

theorem paired_operations (d : Draws c) : Paired c (operations c d) :=
  (paired_of_forall (replaces_updates d)).append (paired_inserts d _)

end TokuQa.MongoSysbench
