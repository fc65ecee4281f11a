import TokuQa.Lib.Batches
import TokuQa.Lib.JavaInt
import TokuQa.LinkBench.NodeStore

/-!
# `NodeLoader.java`

One loader generates the nodes in the order of their ids and adds them in batches, and the
store allocates ids in the order of arrival. So a node gets the id it was generated for as long
as nothing is lost on the way. A batch the store refuses is lost: `loadNodes` clears the buffer
and the loop goes on with the next id. `aligned_iff` says which failures do harm, and
`mismatches_iff` that the loader's own check of the ids sees them.

`fails n` is whether the `n`-th call of the store throws; the call leaves the store as it was.
The clock and the data generator are given by what they produce at the step of an id.
Statistics and progress messages are left out.
-/

set_option autoImplicit false

namespace TokuQa.LinkBench

open TokuQa.Lib

/-- What the step of an id draws on. -/
structure NodeSource where
  /-- `(int)(System.currentTimeMillis()/1000)`. -/
  time : Int → Int
  /-- `nodeDataGen.fill`. -/
  data : Int → List UInt8

/-- The node generated for an id. Its id field says so. -/
def NodeSource.gen (src : NodeSource) (id1 : Int) : Node where
  id := id1
  type := defaultNodeType
  version := 1
  time := src.time id1
  data := src.data id1

structure NodeLoader where
  nodeStore : NodeStore
  nodeLoadBuffer : List Node
  nodesLoaded : Int
  /-- The number of calls of the store, accepted or not. -/
  calls : Nat
  /-- What is logged: "Expected ID of node: .. != .. the actual ID". -/
  mismatches : List (Int × Int)

namespace NodeLoader

/-- The loader after `resetNodeStore`. -/
def start (startId : Int) : NodeLoader := ⟨.resetNodeStore startId, [], 0, 0, []⟩

/-- "Check that expected ids were allocated". -/
def checkIds (nodes : List Node) (actualIds : List Int) : List (Int × Int) :=
  ((nodes.map Node.id).zip actualIds).filter fun p => p.1 ≠ p.2

/-- `loadNodes`. The buffer is cleared either way. The assertion on the number of ids holds of
every store that allocates them (`length_bulkAddNodes`). -/
def loadNodes (fails : Nat → Bool) (s : NodeLoader) : NodeLoader :=
  if fails s.calls then { s with calls := s.calls + 1, nodeLoadBuffer := [] }
  else
    let (actualIds, nodeStore) := s.nodeStore.bulkAddNodes s.nodeLoadBuffer
    { nodeStore := nodeStore
      nodeLoadBuffer := []
      nodesLoaded := s.nodesLoaded + s.nodeLoadBuffer.length
      calls := s.calls + 1
      mismatches := s.mismatches ++ checkIds s.nodeLoadBuffer actualIds }

section

variable (src : NodeSource) (bulkLoadBatchSize : Int) (fails : Nat → Bool)

/-- "Create and insert the node into the DB". -/
def genNode (s : NodeLoader) (id1 : Int) : NodeLoader :=
  let s := { s with nodeLoadBuffer := s.nodeLoadBuffer ++ [src.gen id1] }
  if s.nodeLoadBuffer.length ≥ bulkLoadBatchSize then
    { loadNodes fails s with nodeLoadBuffer := [] }
  else s

/-- The ids of the loop. -/
def ids (startId maxId : Int) : List Int :=
  (List.range (maxId - startId).toNat).map fun i : Nat => startId + i

/-- `run`, of a store that could be initialised and reset: the exception it ends with, if any,
and the loader at its end. -/
def run (startId maxId : Int) : Option String × NodeLoader :=
  if bulkLoadBatchSize < 0 then
    -- `new ArrayList<Node>(bulkLoadBatchSize)` throws
    (some ("Illegal Capacity: " ++ toString bulkLoadBatchSize), start startId)
  else
    (none, loadNodes fails
      ((ids startId maxId).foldl (genNode src bulkLoadBatchSize fails) (start startId)))

end

/-! ## What is in the store -/

/-- Everything stored is stored under the id it was generated for. -/
def Aligned (src : NodeSource) (s : NodeStore) : Prop :=
  ∀ id1 n, s.stored id1 = some n → n = src.gen id1

/-- The loader between two ids: the batches handed on so far, and those generated since. -/
structure Loading (fails : Nat → Bool) (size : Nat) (startId : Int) (gens : List Node)
    (batches : List (List Node)) (s : NodeLoader) : Prop where
  full : ∀ b ∈ batches, b.length = size
  buffer_lt : s.nodeLoadBuffer.length < size
  flatten : batches.flatten ++ s.nodeLoadBuffer = gens
  calls : s.calls = batches.length
  startID : s.nodeStore.startID = startId
  nodes : s.nodeStore.nodes = kept fails 0 batches

section

variable {bulkLoadBatchSize : Int} {fails : Nat → Bool} {size : Nat}
  {startId : Int} {gens : List Node} {batches : List (List Node)} {s : NodeLoader}

theorem loadNodes_calls (fails : Nat → Bool) (s : NodeLoader) :
    (loadNodes fails s).calls = s.calls + 1 := by
  unfold loadNodes
  split <;> rfl

theorem loadNodes_startID (fails : Nat → Bool) (s : NodeLoader) :
    (loadNodes fails s).nodeStore.startID = s.nodeStore.startID := by
  unfold loadNodes
  split
  · rfl
  · exact NodeStore.bulkAddNodes_startID _ _

/-- The call adds the buffer, or nothing. -/
theorem loadNodes_nodes (fails : Nat → Bool) (s : NodeLoader) :
    (loadNodes fails s).nodeStore.nodes =
      s.nodeStore.nodes ++ if fails s.calls then [] else s.nodeLoadBuffer := by
  unfold loadNodes
  split
  · exact (List.append_nil _).symm
  · exact NodeStore.bulkAddNodes_nodes _ _

theorem loading_start (hsize : 0 < size) :
    Loading fails size startId [] [] (start startId) :=
  ⟨nofun, hsize, rfl, rfl, rfl, rfl⟩

/-- Handing on the buffer, from a state with the same batches. -/
theorem Loading.nodes_loadNodes (h : Loading fails size startId gens batches s) (b : List Node) :
    (loadNodes fails { s with nodeLoadBuffer := b }).nodeStore.nodes =
      kept fails 0 (batches ++ [b]) := by
  rw [loadNodes_nodes, kept_append_singleton, h.nodes, h.calls, Nat.zero_add]

/-- **One id**: its node joins the buffer, and a full buffer becomes a batch. -/
theorem loading_genNode (src : NodeSource)
    (h : Loading fails (max 1 bulkLoadBatchSize).toNat startId gens batches s) (id1 : Int) :
    ∃ batches', Loading fails (max 1 bulkLoadBatchSize).toNat startId (gens ++ [src.gen id1])
      batches' (genNode src bulkLoadBatchSize fails s id1) := by
  have hlt := h.buffer_lt
  have hlen : (s.nodeLoadBuffer ++ [src.gen id1]).length = s.nodeLoadBuffer.length + 1 :=
    List.length_append
  have hflatten : batches.flatten ++ (s.nodeLoadBuffer ++ [src.gen id1]) =
      gens ++ [src.gen id1] := by
    rw [← List.append_assoc, h.flatten]
  unfold genNode
  dsimp only
  split
  · refine ⟨batches ++ [s.nodeLoadBuffer ++ [src.gen id1]], ?_, ?_, ?_, ?_, ?_, ?_⟩
    · intro b hb
      rcases List.mem_append.mp hb with hold | hnew
      · exact h.full b hold
      · rw [List.mem_singleton.mp hnew]
        omega
    · exact Nat.zero_lt_of_lt hlt
    · simpa using hflatten
    · rw [loadNodes_calls, h.calls, List.length_append]
      rfl
    · exact (loadNodes_startID _ _).trans h.startID
    · exact h.nodes_loadNodes _
  · exact ⟨batches, h.full, by dsimp only; omega, hflatten, h.calls, h.startID, h.nodes⟩

/-- **The loop**. -/
theorem loading_foldl (src : NodeSource)
    (h : Loading fails (max 1 bulkLoadBatchSize).toNat startId gens batches s) (ids : List Int) :
    ∃ batches', Loading fails (max 1 bulkLoadBatchSize).toNat startId (gens ++ ids.map src.gen)
      batches' (ids.foldl (genNode src bulkLoadBatchSize fails) s) := by
  induction ids generalizing gens batches s with
  | nil => exact ⟨batches, by simpa using h⟩
  | cons id1 ids ih =>
    obtain ⟨batches', hstep⟩ := loading_genNode src h id1
    obtain ⟨batches'', hrest⟩ := ih hstep
    refine ⟨batches'', ?_⟩
    rw [List.append_assoc] at hrest
    exact hrest

/-- **A whole run**: the nodes in order, in batches of which all but the last are full, and
the store holds the batches that were not refused. -/
theorem run_nodes (src : NodeSource) (fails : Nat → Bool) (hbulk : ¬ bulkLoadBatchSize < 0)
    (startId maxId : Int) :
    ∃ batches last, (∀ b ∈ batches, b.length = (max 1 bulkLoadBatchSize).toNat) ∧
      last.length < (max 1 bulkLoadBatchSize).toNat ∧
      (batches ++ [last]).flatten = (ids startId maxId).map src.gen ∧
      (run src bulkLoadBatchSize fails startId maxId).2.nodeStore =
        ⟨startId, kept fails 0 (batches ++ [last])⟩ := by
  have hstart : Loading fails (max 1 bulkLoadBatchSize).toNat startId [] [] (start startId) :=
    loading_start (by omega)
  obtain ⟨batches, h⟩ := loading_foldl src hstart (ids startId maxId)
  have hrun : (run src bulkLoadBatchSize fails startId maxId).2 = loadNodes fails
      ((ids startId maxId).foldl (genNode src bulkLoadBatchSize fails) (start startId)) := by
    unfold run
    rw [if_neg hbulk]
  rw [hrun]
  generalize (ids startId maxId).foldl (genNode src bulkLoadBatchSize fails) (start startId) = s
    at h
  refine ⟨batches, s.nodeLoadBuffer, h.full, h.buffer_lt, ?_, ?_⟩
  · simpa using h.flatten
  · exact congrArg₂ NodeStore.mk ((loadNodes_startID fails s).trans h.startID)
      (h.nodes_loadNodes s.nodeLoadBuffer)

end

/-! ## Alignment -/

theorem gen_injective (src : NodeSource) : Function.Injective src.gen :=
  fun _ _ h => congrArg Node.id h

/-- A store of nodes generated in order is aligned when none is missing in front of another. -/
theorem aligned_iff_prefix {src : NodeSource} {startId maxId : Int} {nodes : List Node}
    (hlen : nodes.length ≤ (maxId - startId).toNat) :
    Aligned src ⟨startId, nodes⟩ ↔ nodes <+: (ids startId maxId).map src.gen := by
  have hgen : ∀ i (hi : i < nodes.length),
      ((ids startId maxId).map src.gen)[i]? = some (src.gen (startId + i)) := by
    intro i hi
    unfold ids
    rw [List.map_map, List.getElem?_map, List.getElem?_range (by omega)]
    rfl
  rw [List.prefix_iff_getElem?]
  constructor
  · intro h i hi
    have hstored : NodeStore.stored ⟨startId, nodes⟩ (startId + i) = some nodes[i] :=
      (NodeStore.stored_add ⟨startId, nodes⟩ i).trans (List.getElem?_eq_getElem hi)
    rw [hgen i hi, h _ _ hstored]
  · intro h id1 n hn
    unfold NodeStore.stored at hn
    split at hn
    · next hlow =>
      obtain ⟨hi, hni⟩ := List.getElem?_eq_some_iff.mp hn
      have hid : startId + ((id1 - startId).toNat : Int) = id1 := by
        have hlow' : startId ≤ id1 := hlow
        omega
      have hplace := h _ hi
      rw [hgen _ hi, hid] at hplace
      rw [← hni]
      exact (Option.some.inj hplace).symm
    · cases hn

/-- **Ids keep to their content** in exactly these runs: once a batch was refused, every later
batch that has a node in it is refused too. -/
theorem aligned_iff (src : NodeSource) (bulkLoadBatchSize : Int) (fails : Nat → Bool)
    (startId maxId : Int) :
    Aligned src (run src bulkLoadBatchSize fails startId maxId).2.nodeStore ↔
      bulkLoadBatchSize < 0 ∨
        ∀ i j : Nat, i < j → j * max 1 bulkLoadBatchSize < maxId - startId → fails i = true →
          fails j = true := by
  by_cases hbulk : bulkLoadBatchSize < 0
  · refine iff_of_true (fun id1 n hn => ?_) (Or.inl hbulk)
    unfold run at hn
    rw [if_pos hbulk] at hn
    simp [start, NodeStore.resetNodeStore, NodeStore.stored] at hn
  · obtain ⟨batches, last, hfull, hlast, hflatten, hstore⟩ :=
      run_nodes src fails hbulk startId maxId
    have hlen : ((ids startId maxId).map src.gen).length = (maxId - startId).toNat := by
      simp [ids]
    have hnodup : (batches ++ [last]).flatten.Nodup := by
      rw [hflatten]
      exact (nodup_range_add startId _).map (gen_injective src)
    have hkept : (kept fails 0 (batches ++ [last])).length ≤
        (batches ++ [last]).flatten.length := kept_sublist.length_le
    rw [hflatten, hlen] at hkept
    have hfilled : ∀ j : Nat, (batches ++ [last]).getD j [] ≠ [] ↔
        (j : Int) * max 1 bulkLoadBatchSize < maxId - startId := by
      intro j
      rw [getD_ne_nil_iff hfull hlast, hflatten, hlen]
      have hsize : ((j * (max 1 bulkLoadBatchSize).toNat : Nat) : Int) =
          j * max 1 bulkLoadBatchSize := by
        rw [Int.natCast_mul, Int.toNat_of_nonneg (by omega)]
      omega
    rw [hstore, aligned_iff_prefix hkept, ← hflatten, kept_prefix_iff hnodup]
    simp only [Nat.zero_add, hfilled]
    constructor
    · intro h
      refine Or.inr fun i j hij hj hfi => h i j hij ?_ hj hfi
      -- the batch before a batch with a node in it is full
      have hmono : (i : Int) * max 1 bulkLoadBatchSize ≤ j * max 1 bulkLoadBatchSize :=
        Int.mul_le_mul_of_nonneg_right (by omega) (by omega)
      omega
    · intro h i j hij _ hj hfi
      exact h.resolve_left hbulk i j hij hj hfi

/-- Three ids, one at a time, and the first call fails: id 1 is given to the node of id 2. -/
theorem first_failure_shifts_ids :
    ¬ Aligned ⟨fun id1 => id1, fun _ => []⟩
      (run ⟨fun id1 => id1, fun _ => []⟩ 1 (fun n => n = 0) 1 4).2.nodeStore := by
  intro h
  have hfirst := h 1 ⟨2, defaultNodeType, 1, 2, []⟩ (by decide)
  revert hfirst
  decide

/-! ## The loader's own check -/

/-- The id fields count up from `k`. -/
def InSequence : Int → List Node → Prop
  | _, [] => True
  | k, n :: ns => n.id = k ∧ InSequence (k + 1) ns

theorem inSequence_append {k : Int} {ns ms : List Node} :
    InSequence k (ns ++ ms) ↔ InSequence k ns ∧ InSequence (k + ns.length) ms := by
  induction ns generalizing k with
  | nil => simp [InSequence]
  | cons n ns ih =>
    have hnext : k + 1 + (ns.length : Int) = k + (n :: ns).length := by
      rw [List.length_cons]
      omega
    rw [List.cons_append, InSequence, InSequence, ih, hnext, and_assoc]

theorem inSequence_iff {k : Int} {ns : List Node} :
    InSequence k ns ↔ ∀ i : Nat, ∀ n, ns[i]? = some n → n.id = k + i := by
  induction ns generalizing k with
  | nil => simp [InSequence]
  | cons n ns ih =>
    rw [InSequence, ih]
    constructor
    · rintro ⟨hid, hrest⟩ i m hm
      cases i with
      | zero =>
        cases hm
        simpa using hid
      | succ i =>
        have hplace := hrest i m hm
        omega
    · intro h
      refine ⟨by simpa using h 0 n rfl, fun i m hm => ?_⟩
      have hplace := h (i + 1) m hm
      omega

/-- The check of one call finds nothing when the id fields are the ids that were allocated. -/
theorem checkIds_eq_nil_iff (ns : List Node) (s : NodeStore) :
    checkIds ns (s.bulkAddNodes ns).1 = [] ↔ InSequence s.nextId ns := by
  induction ns generalizing s with
  | nil => exact iff_of_true rfl trivial
  | cons n ns ih =>
    have hnext : (s.addNode n).2.nextId = s.nextId + 1 := by
      have hlen : (s.nodes ++ [n]).length = s.nodes.length + 1 := List.length_append
      unfold NodeStore.addNode NodeStore.nextId
      dsimp only
      omega
    have hrest := ih (s.addNode n).2
    rw [hnext] at hrest
    have hfirst : (s.addNode n).1 = s.nextId := rfl
    rw [InSequence, ← hrest, NodeStore.bulkAddNodes]
    unfold checkIds
    rw [List.map_cons, List.zip_cons_cons, List.filter_cons, hfirst]
    by_cases hid : n.id = s.nextId
    · simp [hid]
    · simp [hid]

/-- Nothing was logged so far just when the store is in sequence. -/
def Checked (s : NodeLoader) : Prop :=
  s.mismatches = [] ↔ InSequence s.nodeStore.startID s.nodeStore.nodes

theorem Checked.loadNodes {s : NodeLoader} (h : Checked s) (fails : Nat → Bool) :
    Checked (s.loadNodes fails) := by
  unfold NodeLoader.loadNodes
  split
  · exact h
  · unfold Checked
    have hcheck := checkIds_eq_nil_iff s.nodeLoadBuffer s.nodeStore
    rw [NodeStore.bulkAddNodes_startID, NodeStore.bulkAddNodes_nodes, inSequence_append,
      List.append_eq_nil_iff]
    exact and_congr h hcheck

theorem Checked.genNode {s : NodeLoader} (h : Checked s) (src : NodeSource)
    (bulkLoadBatchSize : Int) (fails : Nat → Bool) (id1 : Int) :
    Checked (genNode src bulkLoadBatchSize fails s id1) := by
  unfold NodeLoader.genNode
  have hbuffer : Checked { s with nodeLoadBuffer := s.nodeLoadBuffer ++ [src.gen id1] } := h
  dsimp only
  split
  · exact hbuffer.loadNodes fails
  · exact hbuffer

theorem checked_run (src : NodeSource) (bulkLoadBatchSize : Int) (fails : Nat → Bool)
    (startId maxId : Int) : Checked (run src bulkLoadBatchSize fails startId maxId).2 := by
  have hstart : Checked (start startId) := iff_of_true rfl trivial
  unfold run
  split
  · exact hstart
  · refine Checked.loadNodes ?_ fails
    generalize start startId = s at hstart
    induction ids startId maxId generalizing s with
    | nil => exact hstart
    | cons id1 ids ih => exact ih _ (hstart.genNode src bulkLoadBatchSize fails id1)

/-- Only generated nodes are stored. -/
theorem run_generated (src : NodeSource) (bulkLoadBatchSize : Int) (fails : Nat → Bool)
    (startId maxId : Int) :
    ∀ n ∈ (run src bulkLoadBatchSize fails startId maxId).2.nodeStore.nodes, src.gen n.id = n := by
  intro n hn
  by_cases hbulk : bulkLoadBatchSize < 0
  · unfold run at hn
    rw [if_pos hbulk] at hn
    cases hn
  · obtain ⟨batches, last, -, -, hflatten, hstore⟩ := run_nodes src fails hbulk startId maxId
    rw [hstore] at hn
    have hgen := kept_sublist.subset hn
    rw [hflatten] at hgen
    obtain ⟨id1, -, rfl⟩ := List.mem_map.mp hgen
    rfl

/-- **Misplaced nodes do not go unnoticed**: a run that logs no mismatch has left every node
where it belongs. -/
theorem mismatches_iff (src : NodeSource) (bulkLoadBatchSize : Int) (fails : Nat → Bool)
    (startId maxId : Int) :
    (run src bulkLoadBatchSize fails startId maxId).2.mismatches = [] ↔
      Aligned src (run src bulkLoadBatchSize fails startId maxId).2.nodeStore := by
  have hchecked := checked_run src bulkLoadBatchSize fails startId maxId
  have hgen := run_generated src bulkLoadBatchSize fails startId maxId
  unfold Checked at hchecked
  generalize (run src bulkLoadBatchSize fails startId maxId).2 = s at hchecked hgen ⊢
  rw [hchecked, inSequence_iff]
  constructor
  · intro h id1 n hn
    unfold NodeStore.stored at hn
    split at hn
    · next hlow =>
      have hid := h _ n hn
      have hid1 : s.nodeStore.startID + ((id1 - s.nodeStore.startID).toNat : Int) = id1 := by omega
      rw [hid1] at hid
      rw [← hid, hgen n (List.mem_of_getElem? hn)]
    · cases hn
  · intro h i n hn
    rw [h _ n ((s.nodeStore.stored_add i).trans hn)]
    rfl

end NodeLoader

end TokuQa.LinkBench
