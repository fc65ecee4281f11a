import Mathlib.Init

/-!
# Nodes, and what a node store is for

`Node.java`, and the contract `NodeStore.java` documents for adding nodes: "node IDs are
allocated in sequence, i.e. startID, startID + 1, ...". A store that has been reset and only
ever added to is therefore the list of what was added, `startID` being the id of the first.
The rest of a store's interface (get, update, delete by id) is not part of the contract the
loader relies on.
-/

set_option autoImplicit false

namespace TokuQa.LinkBench

/-- `LinkStore.DEFAULT_NODE_TYPE`. -/
def defaultNodeType : Int := 2048

/-- `Node.java`. -/
structure Node where
  id : Int
  type : Int
  version : Int
  time : Int
  data : List UInt8
deriving DecidableEq

/-- A node store since its last reset: the nodes in the order they were added. -/
structure NodeStore where
  startID : Int
  nodes : List Node
deriving DecidableEq

namespace NodeStore

/-- "Reset node storage to a clean state: deletes all stored nodes, resets id allocation,
with new IDs to be allocated starting from startID". -/
def resetNodeStore (startID : Int) : NodeStore := ⟨startID, []⟩

/-- The id the next node gets. -/
def nextId (s : NodeStore) : Int := s.startID + s.nodes.length

/-- "Add node should return the next ID in the sequence". The node's own id field is not
looked at. -/
def addNode (n : Node) (s : NodeStore) : Int × NodeStore :=
  (s.nextId, { s with nodes := s.nodes ++ [n] })

/-- "Calling this is equivalent to calling addNode multiple times". -/
def bulkAddNodes : List Node → NodeStore → List Int × NodeStore
  | [], s => ([], s)
  | n :: ns, s =>
    let r := bulkAddNodes ns (s.addNode n).2
    ((s.addNode n).1 :: r.1, r.2)

/-- What was added under an id. -/
def stored (s : NodeStore) (id : Int) : Option Node :=
  if s.startID ≤ id then s.nodes[(id - s.startID).toNat]? else none

@[simp] theorem bulkAddNodes_startID (ns : List Node) (s : NodeStore) :
    (s.bulkAddNodes ns).2.startID = s.startID := by
  induction ns generalizing s with
  | nil => rfl
  | cons n ns ih => exact ih _

@[simp] theorem bulkAddNodes_nodes (ns : List Node) (s : NodeStore) :
    (s.bulkAddNodes ns).2.nodes = s.nodes ++ ns := by
  induction ns generalizing s with
  | nil => exact (List.append_nil _).symm
  | cons n ns ih =>
    have hrest := ih (s.addNode n).2
    rw [bulkAddNodes, hrest, addNode, List.append_assoc]
    rfl

@[simp] theorem length_bulkAddNodes (ns : List Node) (s : NodeStore) :
    (s.bulkAddNodes ns).1.length = ns.length := by
  induction ns generalizing s with
  | nil => rfl
  | cons n ns ih => exact congrArg (· + 1) (ih _)

/-- Ids are counted up from `startID`. -/
theorem stored_add (s : NodeStore) (i : Nat) : s.stored (s.startID + i) = s.nodes[i]? := by
  have hindex : (s.startID + (i : Int) - s.startID).toNat = i := by omega
  unfold stored
  rw [if_pos (by omega), hindex]

end NodeStore

end TokuQa.LinkBench
