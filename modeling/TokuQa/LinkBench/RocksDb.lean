import TokuQa.Lib.ByteBuffer
import TokuQa.Lib.Table
import TokuQa.LinkBench.NodeStore

/-!
# Nodes in `LinkStoreRocksDb.java`

A node is stored under its id as three eight-byte fields followed by its data. The writer
packs `type` and `time` into the first half of their fields and `version` into the whole of
its own; the reader takes four bytes of each, and calls `array()` for the data. `getNode_written`
says what comes back: the high half of the version, and the whole value, header included, in
place of the data. No node is ever read back as it was written.
-/

set_option autoImplicit false

namespace TokuQa.LinkBench.RocksDb

open TokuQa.Lib

/-- The `nodes` database, as `Put` and `Get` of the client see it. -/
abbrev Db := Table (List UInt8) (List UInt8)

/-! ## Writing -/

/-- `ByteBuffer.allocate(8).putInt(x).array()`. -/
def intField (x : Int) : Option (List UInt8) :=
  ((ByteBuffer.allocate 8).putInt x).map ByteBuffer.array

/-- `ByteBuffer.allocate(8).putLong(x).array()`. -/
def longField (x : Int) : Option (List UInt8) :=
  ((ByteBuffer.allocate 8).putLong x).map ByteBuffer.array

/-- What `outputStream` holds for a node. -/
def nodeValue (n : Node) : Option (List UInt8) := do
  let type ← intField n.type
  let version ← longField n.version
  let time ← intField n.time
  return type ++ version ++ time ++ n.data

/-- The loop of `bulkAddNodesImpl` from its `i`-th node on. `ok i` is whether the `i`-th `Put`
answers `K_OK`; if it does not, the method throws, and what was put before stays. -/
def bulkAddNodesFrom (ok : Nat → Bool) : Nat → List Node → Db → Option (List Int) × Db
  | _, [], db => (some [], db)
  | i, n :: ns, db =>
    match nodeValue n, longField n.id with
    | some value, some idAsByte =>
      if ok i then
        let r := bulkAddNodesFrom ok (i + 1) ns (db.insert idAsByte value)
        (r.1.map fun newIds => n.id :: newIds, r.2)
      else (none, db)
    | _, _ => (none, db)

def bulkAddNodesImpl (ok : Nat → Bool) (nodes : List Node) (db : Db) : Option (List Int) × Db :=
  bulkAddNodesFrom ok 0 nodes db

/-! ## Reading -/

/-- `getNodeImpl`, on a reply of the client: `none` is `K_NOT_FOUND`, and `ioError` any other
code that is not `K_OK`. The answer `none` is `null`; `type` is not read. -/
def getNodeImpl (ioError : Bool) (_type id : Int) (db : Db) : Option Node := do
  let idAsByte ← longField id
  let rgrValue ← db.lookup idAsByte
  if ioError then none
  else if rgrValue.length < 24 then none
  else do
    let ntype ← (ByteBuffer.wrap rgrValue 0 8).bind ByteBuffer.getInt
    let nversion ← (ByteBuffer.wrap rgrValue 8 8).bind ByteBuffer.getInt
    let ntime ← (ByteBuffer.wrap rgrValue 16 8).bind ByteBuffer.getInt
    let ndata ← (ByteBuffer.wrap rgrValue 24 (rgrValue.length - 24)).map ByteBuffer.array
    return ⟨id, ntype, nversion, ntime, ndata⟩

/-! ## What is written -/

/-- The 24 bytes in front of the data. -/
def header (n : Node) : List UInt8 :=
  bigEndian 4 n.type ++ List.replicate 4 0 ++ bigEndian 8 n.version ++ bigEndian 4 n.time ++
    List.replicate 4 0

@[simp] theorem length_header (n : Node) : (header n).length = 24 := by
  simp [header]

theorem intField_eq (x : Int) : intField x = some (bigEndian 4 x ++ List.replicate 4 0) :=
  ByteBuffer.put_allocate (by decide) x

theorem longField_eq (x : Int) : longField x = some (bigEndian 8 x) := by
  have h := ByteBuffer.put_allocate (le_refl 8) x
  rwa [Nat.sub_self, List.replicate_zero, List.append_nil] at h

theorem nodeValue_eq (n : Node) : nodeValue n = some (header n ++ n.data) := by
  simp [nodeValue, intField_eq, longField_eq, header]

/-- The last put under a key stays when later nodes have other ids. -/
theorem lookup_bulkAddNodesFrom {ok : Nat → Bool} {key : List UInt8} {i : Nat} {ns : List Node}
    {db : Db} (h : ∀ m ∈ ns, bigEndian 8 m.id ≠ key) :
    (bulkAddNodesFrom ok i ns db).2.lookup key = db.lookup key := by
  induction ns generalizing i db with
  | nil => rfl
  | cons m ns ih =>
    have hm := h m (by simp)
    rw [bulkAddNodesFrom, nodeValue_eq, longField_eq]
    dsimp only
    split
    · have hrest : (bulkAddNodesFrom ok (i + 1) ns
          (db.insert (bigEndian 8 m.id) (header m ++ m.data))).2.lookup key =
            (db.insert (bigEndian 8 m.id) (header m ++ m.data)).lookup key :=
        ih fun m' hm' => h m' (by simp [hm'])
      dsimp only
      rw [hrest, Table.lookup_insert_eq, if_neg (Ne.symm hm)]
    · rfl

/-! ## What is read back -/

theorem wrap32_unsigned (x : Int) : wrap32 (unsigned (bigEndian 4 x)) = wrap32 x := by
  have hpow : (256 : Int) ^ 4 = 2 ^ (31 + 1) := by norm_num
  rw [unsigned_bigEndian, hpow]
  exact wrap_emod 31 x

/-- The first half of a `long` field is the high half of the number. -/
theorem longField_halves (x : Int) :
    bigEndian 8 x = bigEndian 4 (x / 2 ^ 32) ++ bigEndian 4 x := by
  have hpow : (2 : Int) ^ 32 = 256 ^ 4 := by norm_num
  rw [hpow]
  exact bigEndian_add 4 4 x

/-- **What `getNodeImpl` makes of a node's value.** Type and time come back, the version loses
its low half, and the data has the header in front. -/
theorem getNode_written {db : Db} {n : Node} (type : Int)
    (h : db.lookup (bigEndian 8 n.id) = some (header n ++ n.data)) :
    getNodeImpl false type n.id db =
      some ⟨n.id, wrap32 n.type, wrap32 (n.version / 2 ^ 32), wrap32 n.time,
        header n ++ n.data⟩ := by
  have hlength : (header n ++ n.data).length = 24 + n.data.length := by simp
  have htype : (ByteBuffer.wrap (header n ++ n.data) 0 8).bind ByteBuffer.getInt =
      some (wrap32 n.type) := by
    rw [← wrap32_unsigned]
    exact ByteBuffer.getInt_wrap [] (bigEndian 4 n.type)
      (List.replicate 4 0 ++ bigEndian 8 n.version ++ bigEndian 4 n.time ++
        List.replicate 4 0 ++ n.data)
      (by simp [header]) rfl (by simp) (by decide) (by omega)
  have hversion : (ByteBuffer.wrap (header n ++ n.data) 8 8).bind ByteBuffer.getInt =
      some (wrap32 (n.version / 2 ^ 32)) := by
    rw [← wrap32_unsigned]
    exact ByteBuffer.getInt_wrap (bigEndian 4 n.type ++ List.replicate 4 0)
      (bigEndian 4 (n.version / 2 ^ 32))
      (bigEndian 4 n.version ++ bigEndian 4 n.time ++ List.replicate 4 0 ++ n.data)
      (by simp [header, longField_halves]) (by simp) (by simp) (by decide) (by omega)
  have htime : (ByteBuffer.wrap (header n ++ n.data) 16 8).bind ByteBuffer.getInt =
      some (wrap32 n.time) := by
    rw [← wrap32_unsigned]
    exact ByteBuffer.getInt_wrap
      (bigEndian 4 n.type ++ List.replicate 4 0 ++ bigEndian 8 n.version)
      (bigEndian 4 n.time) (List.replicate 4 0 ++ n.data)
      (by simp [header]) (by simp) (by simp) (by decide) (by omega)
  -- the window starts behind the header, but `array()` is the array it looks onto
  have hdata : (ByteBuffer.wrap (header n ++ n.data) 24 ((header n ++ n.data).length - 24)).map
      ByteBuffer.array = some (header n ++ n.data) := by
    unfold ByteBuffer.wrap
    rw [if_pos (by omega)]
    rfl
  unfold getNodeImpl
  simp only [Option.bind_eq_bind]
  rw [longField_eq, Option.bind_some, h, Option.bind_some, if_neg (by decide), if_neg (by omega),
    htype, Option.bind_some, hversion, Option.bind_some, htime, Option.bind_some, hdata,
    Option.bind_some, Option.pure_def]

/-- A node that was written, after whatever was put before and behind it under other keys. -/
theorem lookup_written (ns ms : List Node) (n : Node) (db : Db)
    (hms : ∀ m ∈ ms, bigEndian 8 m.id ≠ bigEndian 8 n.id) :
    (bulkAddNodesImpl (fun _ => true) (ns ++ n :: ms) db).2.lookup (bigEndian 8 n.id) =
      some (header n ++ n.data) := by
  unfold bulkAddNodesImpl
  generalize 0 = i
  induction ns generalizing i db with
  | nil =>
    rw [List.nil_append, bulkAddNodesFrom, nodeValue_eq, longField_eq]
    dsimp only
    rw [if_pos rfl, lookup_bulkAddNodesFrom hms, Table.lookup_insert_eq, if_pos rfl]
  | cons m ns ih =>
    rw [List.cons_append, bulkAddNodesFrom, nodeValue_eq, longField_eq]
    dsimp only
    rw [if_pos rfl]
    exact ih _ _

/-- **No node round-trips.** Whatever the node and the store it is put into, the node that
`getNode` answers is not the one that was written: its data is longer by the header. -/
theorem getNode_never_written (ns ms : List Node) (n : Node) (db : Db) (ioError : Bool) (type : Int)
    (hms : ∀ m ∈ ms, bigEndian 8 m.id ≠ bigEndian 8 n.id) :
    getNodeImpl ioError type n.id (bulkAddNodesImpl (fun _ => true) (ns ++ n :: ms) db).2 ≠
      some n := by
  have hlookup := lookup_written ns ms n db hms
  intro h
  cases ioError with
  | true =>
    unfold getNodeImpl at h
    simp [longField_eq] at h
  | false =>
    rw [getNode_written type hlookup, Option.some.injEq] at h
    have hdata : header n ++ n.data = n.data := congrArg Node.data h
    have hlength := congrArg List.length hdata
    rw [List.length_append, length_header] at hlength
    omega

/-- Two nodes in one call; the first one is asked for. -/
theorem getNode_never_written_first :
    getNodeImpl false defaultNodeType 1
      (bulkAddNodesImpl (fun _ => true) ([] ++ ⟨1, defaultNodeType, 1, 1700000000, [7]⟩ ::
        [⟨2, defaultNodeType, 1, 1700000000, [8]⟩]) ∅).2 ≠
      some ⟨1, defaultNodeType, 1, 1700000000, [7]⟩ :=
  getNode_never_written [] [⟨2, defaultNodeType, 1, 1700000000, [8]⟩]
    ⟨1, defaultNodeType, 1, 1700000000, [7]⟩ ∅ false defaultNodeType (by decide)

/-- A node without data comes back with version 0 instead of 1, and with 24 bytes of data. -/
theorem node_without_data_comes_back_longer :
    ¬ ∀ n : Node, getNodeImpl false n.type n.id (bulkAddNodesImpl (fun _ => true) [n] ∅).2 =
      some n := by
  intro h
  have hread := h ⟨1, defaultNodeType, 1, 1700000000, []⟩
  have hlookup := lookup_written [] [] ⟨1, defaultNodeType, 1, 1700000000, []⟩ ∅ (by simp)
  have hback := getNode_written defaultNodeType hlookup
  have hversion := congrArg (Option.map Node.version) (hread.symm.trans hback)
  revert hversion
  decide

/-- The version alone comes back right only where its two halves are both 0 or both all ones. -/
theorem version_kept_iff {v : Int} (h : -2 ^ 63 ≤ v) (h' : v < 2 ^ 63) :
    wrap32 (v / 2 ^ 32) = v ↔ v = 0 ∨ v = -1 := by
  have hhigh : wrap32 (v / 2 ^ 32) = v / 2 ^ 32 := wrap_eq_self (by omega) (by omega)
  rw [hhigh]
  omega

end TokuQa.LinkBench.RocksDb
