import Mathlib.Algebra.BigOperators.Group.List.Basic
import Mathlib.Data.List.Range
import TokuQa.Lib.JavaInt
import TokuQa.Lib.Run
import TokuQa.Lib.Thrown

/-!
# The checksums of the backup test

A transaction of `jmongosysbenchexecute.java` adds an increment to `c1` of one document and inserts
the same increment into `sbvalid`. `validator.java` compares, for each collection, the sum of `c1`
over the documents with the sum over its rows of `sbvalid`. An aggregation over nothing has no
result, and the validator takes that for damage and exits.

The server orders the transactions by their commits, so the states of the database are those after
so many whole transactions. What a transaction has done when something throws is committed by its
`finally`, and its thread is dead. Of a document only `_id` and `c1` are here: no one reads the
rest. The load does not set `c1`; the name of a collection is its number.
-/

set_option autoImplicit false

namespace TokuQa.MongoSysbench.Backup

open TokuQa.Lib

structure Config where
  numCollections : Nat
  numMaxInserts : Nat
  documentsPerInsert : Nat
  bIsTokuMX : Bool
  oltpPointSelects : Nat
  oltpSumRanges : Nat
  readOnly : Bool

structure Document where
  id : Nat
  c1 : Option Int
deriving DecidableEq

/-- A row of `sbvalid`. -/
structure Row where
  collectionNumber : Nat
  collectionId : Nat
  c1 : Int
deriving DecidableEq

structure Db where
  collections : Nat → List Document
  sbvalid : List Row

/-! ## The load -/

def Config.numRounds (c : Config) : Nat := c.numMaxInserts / c.documentsPerInsert

/-- The documents with the `_id`s behind `id`. -/
def aDocs (c : Config) (id : Nat) : List Document :=
  (List.range' (id + 1) c.documentsPerInsert).map fun id => ⟨id, none⟩

def insertRounds (c : Config) : Nat → Nat → List Document → List Document
  | 0, _, documents => documents
  | rounds + 1, id, documents =>
    insertRounds c rounds (id + c.documentsPerInsert) (documents ++ aDocs c id)

def load (c : Config) : Db where
  collections k := if 1 ≤ k ∧ k ≤ c.numCollections then insertRounds c c.numRounds 0 [] else []
  sbvalid := []

/-! ## The transactions -/

/-- What a transaction draws. -/
structure Draws where
  collectionNumber : Nat
  thisId : Nat
  thisIncrement : Int
deriving DecidableEq

/-- `$inc` of `c1`. -/
def Document.inc (d : Document) (thisIncrement : Int) : Document :=
  { d with c1 := some (d.c1.getD 0 + thisIncrement) }

def update (t : Draws) (db : Db) : Db :=
  { db with
    collections := Function.update db.collections t.collectionNumber
      ((db.collections t.collectionNumber).map fun d =>
        if d.id = t.thisId then d.inc t.thisIncrement else d) }

def insert (t : Draws) (db : Db) : Db :=
  { db with sbvalid := db.sbvalid ++ [⟨t.collectionNumber, t.thisId, t.thisIncrement⟩] }

/-- The calls that only read; `requestEnsureConnection` is one. -/
def reads (c : Config) : List (Db → Option Db) :=
  (if c.bIsTokuMX then [some] else []) ++ List.replicate c.oltpPointSelects some ++
    List.replicate c.oltpSumRanges some

/-- The calls to the server inside the `try`. -/
def operations (c : Config) (t : Draws) : List (Db → Option Db) :=
  reads c ++
    if c.readOnly then [] else [fun db => some (update t db), fun db => some (insert t db)]

/-- `finally` commits whatever was done. -/
def transaction (c : Config) (t : Draws) (thrown : Option Nat) (db : Db) : Bool × Db :=
  perform (operations c t) thrown db

structure State (n : Nat) where
  db : Db
  alive : Fin n → Bool

/-- The transaction of a writer, and where it throws. -/
structure Event (n : Nat) where
  writer : Fin n
  draws : Draws
  thrown : Option Nat

variable {n : Nat}

def start (c : Config) (n : Nat) : State n := ⟨load c, fun _ => true⟩

/-- A transaction commits. -/
def step (c : Config) (e : Event n) (s : State n) : Option (State n) :=
  if s.alive e.writer then
    let outcome := transaction c e.draws e.thrown s.db
    some ⟨outcome.2, Function.update s.alive e.writer outcome.1⟩
  else none

/-! ## The validator -/

inductive Report where
  | passed
  | failed (check1 check2 : Int)
  /-- Something went horribly wrong. -/
  | wrong
deriving DecidableEq

/-- The sum of an aggregation; nothing if there was nothing to add. -/
def total : List Int → Option Int
  | [] => none
  | x :: xs => some (x :: xs).sum

def documentTotal (db : Db) (k : Nat) : Option Int :=
  total ((db.collections k).map fun d => d.c1.getD 0)

def rowTotal (db : Db) (k : Nat) : Option Int :=
  total ((db.sbvalid.filter fun row => row.collectionNumber = k).map Row.c1)

/-- `getInt` narrows the sums. -/
def report (db : Db) (k : Nat) : Report :=
  match documentTotal db k, rowTotal db k with
  | some total1, some total2 =>
    if wrap32 total1 = wrap32 total2 then .passed else .failed (wrap32 total1) (wrap32 total2)
  | _, _ => .wrong

/-- The loop over the collections, from number `k` on; it ends when something is wrong. -/
def validateFrom (db : Db) (k : Nat) : Nat → List Report
  | 0 => []
  | left + 1 =>
    match report db k with
    | .wrong => [.wrong]
    | r => r :: validateFrom db (k + 1) left

def validator (c : Config) (db : Db) : List Report := validateFrom db 1 c.numCollections

/-! ## What a transaction has done -/

/-- The update is reached. -/
def Event.Updates (c : Config) (k : Nat) (e : Event n) : Prop :=
  e.draws.collectionNumber = k ∧ c.readOnly = false ∧ Passes e.thrown (reads c).length

/-- The insert is reached. -/
def Event.Inserts (c : Config) (k : Nat) (e : Event n) : Prop :=
  e.draws.collectionNumber = k ∧ c.readOnly = false ∧ Passes e.thrown ((reads c).length + 1)

instance (c : Config) (k : Nat) (e : Event n) : Decidable (e.Updates c k) :=
  inferInstanceAs (Decidable (_ ∧ _ ∧ _))

instance (c : Config) (k : Nat) (e : Event n) : Decidable (e.Inserts c k) :=
  inferInstanceAs (Decidable (_ ∧ _ ∧ _))

/-- The `_id`s a loaded collection has. -/
def Config.loaded (c : Config) (k : Nat) : List Nat :=
  if 1 ≤ k ∧ k ≤ c.numCollections then List.range' 1 (c.numRounds * c.documentsPerInsert) else []

/-- What the transaction adds to the documents of a collection. -/
def Event.updated (c : Config) (k : Nat) (e : Event n) : Int :=
  if e.Updates c k ∧ e.draws.thisId ∈ c.loaded k then e.draws.thisIncrement else 0

/-- What it adds to the rows for the collection. -/
def Event.inserted (c : Config) (k : Nat) (e : Event n) : Int :=
  if e.Inserts c k then e.draws.thisIncrement else 0

section

variable {c : Config} {t : Draws} {thrown : Option Nat} {db : Db} {k : Nat}

theorem reads_some : ∀ op ∈ reads c, ∀ db, op db = some db := by
  intro op hop db
  simp only [reads, List.mem_append, List.mem_replicate] at hop
  rcases hop with (hop | ⟨-, rfl⟩) | ⟨-, rfl⟩
  · split at hop
    · rw [List.mem_singleton.mp hop]
    · cases hop
  · rfl
  · rfl

/-- **The outcome of a transaction**, wherever it throws. -/
theorem transaction_eq : (transaction c t thrown db).2 =
    if c.readOnly = false ∧ Passes thrown (reads c).length then
      if Passes thrown ((reads c).length + 1) then insert t (update t db) else update t db
    else db := by
  rw [transaction, operations, perform_reads reads_some]
  cases hreadOnly : c.readOnly with
  | true => rfl
  | false =>
    simp only [Bool.false_eq_true, if_false, true_and]
    have hupdate : Passes (thrown.map (· - (reads c).length)) 0 ↔ Passes thrown (reads c).length :=
      passes_sub_iff
    have hinsert : Passes ((thrown.map (· - (reads c).length)).map (· - 1)) 0 ↔
        Passes thrown ((reads c).length + 1) := passes_sub_iff.trans passes_sub_iff
    by_cases h₁ : Passes (thrown.map (· - (reads c).length)) 0
    · rw [perform_cons (fun db => some (update t db)) h₁ rfl, if_pos (hupdate.mp h₁)]
      by_cases h₂ : Passes ((thrown.map (· - (reads c).length)).map (· - 1)) 0
      · rw [perform_cons (fun db => some (insert t db)) h₂ rfl, if_pos (hinsert.mp h₂)]
        rfl
      · rw [perform_thrown h₂, if_neg (h₂ ∘ hinsert.mpr)]
    · rw [perform_thrown h₁, if_neg (h₁ ∘ hupdate.mpr)]

/-! ## The sums -/

/-- The `_id`s in a collection. -/
def ids (db : Db) (k : Nat) : List Nat := (db.collections k).map Document.id

def documentSum (db : Db) (k : Nat) : Int := ((db.collections k).map fun d => d.c1.getD 0).sum

/-- The rows for a collection. -/
def rowsOf (db : Db) (k : Nat) : List Row := db.sbvalid.filter fun row => row.collectionNumber = k

def rowSum (db : Db) (k : Nat) : Int := ((rowsOf db k).map Row.c1).sum

theorem ids_update : ids (update t db) k = ids db k := by
  unfold ids update
  by_cases hk : k = t.collectionNumber
  · subst hk
    simp only [Function.update_self, List.map_map]
    refine List.map_congr_left fun d _ => ?_
    simp only [Function.comp_apply]
    split <;> rfl
  · simp only [Function.update_of_ne hk]

/-- One document gets the increment. -/
theorem sum_inc {documents : List Document} (hnd : (documents.map Document.id).Nodup) (id : Nat)
    (x : Int) : ((documents.map fun d => if d.id = id then d.inc x else d).map
      fun d => d.c1.getD 0).sum = (documents.map fun d => d.c1.getD 0).sum +
        if id ∈ documents.map Document.id then x else 0 := by
  induction documents with
  | nil => simp
  | cons d documents ih =>
    rw [List.map_cons, List.nodup_cons] at hnd
    have hrest := ih hnd.2
    simp only [List.map_cons, List.sum_cons, hrest, List.mem_cons]
    by_cases hd : d.id = id
    · subst hd
      rw [if_pos rfl, if_neg hnd.1, if_pos (Or.inl rfl)]
      simp only [Document.inc, Option.getD_some]
      omega
    · simp only [if_neg hd, Ne.symm hd, false_or]
      omega

theorem documentSum_update (hnd : (ids db k).Nodup) : documentSum (update t db) k =
    documentSum db k + if t.collectionNumber = k ∧ t.thisId ∈ ids db k then t.thisIncrement else 0 := by
  unfold documentSum update
  by_cases hk : k = t.collectionNumber
  · subst hk
    simp only [Function.update_self, true_and]
    exact sum_inc hnd t.thisId t.thisIncrement
  · simp only [Function.update_of_ne hk, Ne.symm hk, false_and, if_false]
    omega

theorem rowsOf_insert (t : Draws) (db : Db) (k : Nat) : rowsOf (insert t db) k =
    rowsOf db k ++ if t.collectionNumber = k then
      [⟨t.collectionNumber, t.thisId, t.thisIncrement⟩] else [] := by
  unfold rowsOf insert
  rw [List.filter_append]
  split
  · simp [*]
  · simp [*]

theorem ids_transaction : ids (transaction c t thrown db).2 k = ids db k := by
  rw [transaction_eq]
  split
  · split
    · exact ids_update
    · exact ids_update
  · rfl

end

/-! ## Runs -/

section

variable {c : Config} {e : Event n} {s s' : State n} {es : List (Event n)}

theorem step_db (h : step c e s = some s') : s'.db = (transaction c e.draws e.thrown s.db).2 := by
  unfold step at h
  split at h <;> cases h
  rfl

/-- The collections have the `_id`s of the load. -/
def Loaded (c : Config) (s : State n) : Prop := ∀ k, ids s.db k = c.loaded k

theorem Loaded.nodup (h : Loaded c s) (k : Nat) : (ids s.db k).Nodup := by
  rw [h k, Config.loaded]
  split
  · exact List.nodup_range'
  · exact List.nodup_nil

theorem ids_insertRounds (c : Config) (rounds id : Nat) (documents : List Document) :
    (insertRounds c rounds id documents).map Document.id =
      documents.map Document.id ++ List.range' (id + 1) (rounds * c.documentsPerInsert) := by
  induction rounds generalizing id documents with
  | zero => simp [insertRounds]
  | succ rounds ih =>
    have hbatch : (aDocs c id).map Document.id = List.range' (id + 1) c.documentsPerInsert := by
      simp [aDocs, Function.comp_def]
    rw [insertRounds, ih, List.map_append, hbatch, List.append_assoc, Nat.add_right_comm,
      List.range'_append_1, Nat.succ_mul, Nat.add_comm c.documentsPerInsert]

theorem loaded_start (c : Config) : Loaded c (start c n) := by
  intro k
  simp only [start, load, ids, Config.loaded]
  split
  · rw [ids_insertRounds]
    rfl
  · rfl

theorem Loaded.step (h : Loaded c s) (hstep : step c e s = some s') : Loaded c s' := by
  intro k
  rw [step_db hstep, ids_transaction]
  exact h k

theorem documentSum_step (h : Loaded c s) (hstep : step c e s = some s') (k : Nat) :
    documentSum s'.db k = documentSum s.db k + e.updated c k := by
  have hupdate := documentSum_update (t := e.draws) (h.nodup k)
  rw [h k] at hupdate
  rw [step_db hstep, transaction_eq]
  by_cases hreached : c.readOnly = false ∧ Passes e.thrown (reads c).length
  · -- the rows of `sbvalid` are not documents
    have hboth : documentSum (if Passes e.thrown ((reads c).length + 1) then
        insert e.draws (update e.draws s.db) else update e.draws s.db) k =
          documentSum (update e.draws s.db) k := by
      split <;> rfl
    rw [if_pos hreached, hboth, hupdate]
    simp only [Event.updated, Event.Updates, hreached, and_true]
  · have hnone : e.updated c k = 0 := if_neg fun hall => hreached hall.1.2
    rw [if_neg hreached, hnone, Int.add_zero]

theorem rowsOf_step (hstep : step c e s = some s') (k : Nat) : rowsOf s'.db k = rowsOf s.db k ++
    if e.Inserts c k then
      [⟨e.draws.collectionNumber, e.draws.thisId, e.draws.thisIncrement⟩] else [] := by
  rw [step_db hstep, transaction_eq]
  by_cases hinserts : c.readOnly = false ∧ Passes e.thrown ((reads c).length + 1)
  · rw [if_pos ⟨hinserts.1, hinserts.2.of_succ⟩, if_pos hinserts.2, rowsOf_insert]
    simp only [Event.Inserts, hinserts, and_true]
    rfl
  · have hsame : rowsOf (if c.readOnly = false ∧ Passes e.thrown (reads c).length then
        if Passes e.thrown ((reads c).length + 1) then insert e.draws (update e.draws s.db)
        else update e.draws s.db else s.db) k = rowsOf s.db k := by
      split
      · split
        · exact absurd ⟨‹_ ∧ _›.1, ‹_›⟩ hinserts
        · rfl
      · rfl
    rw [hsame, if_neg fun hall => hinserts hall.2, List.append_nil]

theorem c1_insertRounds (c : Config) {rounds id : Nat} {documents : List Document}
    (h : ∀ d ∈ documents, d.c1 = none) : ∀ d ∈ insertRounds c rounds id documents, d.c1 = none := by
  induction rounds generalizing id documents with
  | zero => exact h
  | succ rounds ih =>
    refine ih fun d hd => ?_
    rcases List.mem_append.mp hd with hold | hnew
    · exact h d hold
    · obtain ⟨_, -, rfl⟩ := List.mem_map.mp hnew
      rfl

theorem documentSum_load (c : Config) (k : Nat) : documentSum (load c) k = 0 := by
  refine List.sum_eq_zero fun x hx => ?_
  obtain ⟨d, hd, rfl⟩ := List.mem_map.mp hx
  simp only [load] at hd
  split at hd
  · rw [c1_insertRounds c (by simp) d hd]
    rfl
  · cases hd

/-- **The documents of a collection** have the increments of the updates that found one. -/
theorem documentSum_run (hrun : run (step c) es (start c n) = some s) (k : Nat) :
    documentSum s.db k = (es.map (Event.updated c k)).sum := by
  have hkeep : ∀ {e : Event n} {s s' : State n}, Loaded c s → step c e s = some s' → Loaded c s' :=
    fun h => h.step
  have hadd : ∀ {e : Event n} {s s' : State n}, Loaded c s → step c e s = some s' →
      documentSum s'.db k = documentSum s.db k + e.updated c k :=
    fun h hstep => documentSum_step h hstep k
  have hadds : documentSum s.db k =
      documentSum (start c n).db k + (es.map (Event.updated c k)).sum :=
    run_adds (f := fun s => documentSum s.db k) hkeep hadd (loaded_start c) hrun
  rw [hadds, start, documentSum_load, Int.zero_add]

/-- **Its rows of `sbvalid`** have the increments of the inserts. -/
theorem rowSum_run (hrun : run (step c) es (start c n) = some s) (k : Nat) :
    rowSum s.db k = (es.map (Event.inserted c k)).sum := by
  have hadd : ∀ {e : Event n} {s s' : State n}, True → step c e s = some s' →
      rowSum s'.db k = rowSum s.db k + e.inserted c k := by
    intro e s s' _ hstep
    unfold rowSum Event.inserted
    rw [rowsOf_step hstep, List.map_append, List.sum_append]
    split <;> simp
  have hadds : rowSum s.db k = rowSum (start c n).db k + (es.map (Event.inserted c k)).sum :=
    run_adds (J := fun _ => True) (f := fun s => rowSum s.db k) (fun _ _ => trivial) hadd trivial hrun
  rw [hadds]
  exact Int.zero_add _

theorem rowsOf_run (hrun : run (step c) es (start c n) = some s) (k : Nat) :
    rowsOf s.db k ≠ [] ↔ ∃ e ∈ es, e.Inserts c k := by
  have hadd : ∀ {e : Event n} {s s' : State n}, True → step c e s = some s' →
      (rowsOf s'.db k).length = (rowsOf s.db k).length + if e.Inserts c k then 1 else 0 := by
    intro e s s' _ hstep
    rw [rowsOf_step hstep, List.length_append]
    split <;> rfl
  have hadds : (rowsOf s.db k).length =
      (rowsOf (start c n).db k).length + (es.map fun e => if e.Inserts c k then 1 else 0).sum :=
    run_adds (J := fun _ => True) (f := fun s => (rowsOf s.db k).length) (fun _ _ => trivial) hadd
      trivial hrun
  have hzero : (rowsOf (start c n).db k).length = 0 := rfl
  rw [hzero, Nat.zero_add] at hadds
  rw [← List.length_pos_iff, hadds, Nat.pos_iff_ne_zero, ne_eq, List.sum_eq_zero_iff_forall_eq_nat]
  simp

/-! ## The validator passes -/

theorem total_eq {xs : List Int} (h : xs ≠ []) : total xs = some xs.sum := by
  cases xs with
  | nil => exact absurd rfl h
  | cons => rfl

theorem report_eq_passed_iff {db : Db} {k : Nat} : report db k = .passed ↔
    db.collections k ≠ [] ∧ rowsOf db k ≠ [] ∧ wrap32 (documentSum db k) = wrap32 (rowSum db k) := by
  have hmap {α : Type} {l : List α} (f : α → Int) (h : l ≠ []) : l.map f ≠ [] :=
    fun hnil => h (List.map_eq_nil_iff.mp hnil)
  by_cases hdocuments : db.collections k = []
  · simp [report, documentTotal, hdocuments, total]
  · by_cases hrows : rowsOf db k = []
    · simp only [rowsOf] at hrows
      simp [report, rowTotal, rowsOf, hrows, total]
    · have htotal : rowTotal db k = some (rowSum db k) := total_eq (hmap Row.c1 hrows)
      simp only [report, documentTotal, total_eq (hmap _ hdocuments), htotal]
      split
      case isTrue heq => exact iff_of_true rfl ⟨hdocuments, hrows, heq⟩
      case isFalse hne => exact iff_of_false nofun fun h => hne h.2.2

theorem validateFrom_eq_replicate_iff {db : Db} {k left : Nat} :
    validateFrom db k left = List.replicate left .passed ↔
      ∀ j, k ≤ j → j < k + left → report db j = .passed := by
  induction left generalizing k with
  | zero => exact iff_of_true rfl fun j hj hlt => absurd hlt (by omega)
  | succ left ih =>
    have hsplit : (∀ j, k ≤ j → j < k + (left + 1) → report db j = .passed) ↔
        report db k = .passed ∧ ∀ j, k + 1 ≤ j → j < k + 1 + left → report db j = .passed := by
      constructor
      · intro h
        exact ⟨h k (le_refl k) (by omega), fun j hj hlt => h j (by omega) (by omega)⟩
      · rintro ⟨hfirst, hrest⟩ j hj hlt
        by_cases hjk : j = k
        · rw [hjk]
          exact hfirst
        · exact hrest j (by omega) (by omega)
    rw [hsplit, ← ih, validateFrom, List.replicate_succ]
    cases hreport : report db k with
    | passed => simp
    | failed => simp
    | wrong => simp

end

/-- Every collection passes. -/
def Passed (c : Config) (db : Db) : Prop :=
  validator c db = List.replicate c.numCollections .passed

/-- **The validator passes a state exactly when** every collection was loaded with documents, had a
row inserted for it, and the updates of it that found their document add up to the inserts, in 32
bits. -/
theorem passed_iff {c : Config} {es : List (Event n)} {s : State n}
    (hrun : run (step c) es (start c n) = some s) : Passed c s.db ↔
      ∀ k, 1 ≤ k → k ≤ c.numCollections →
        (1 ≤ c.documentsPerInsert ∧ c.documentsPerInsert ≤ c.numMaxInserts) ∧
        (∃ e ∈ es, e.Inserts c k) ∧
        (es.map (Event.updated c k)).sum % 2 ^ 32 = (es.map (Event.inserted c k)).sum % 2 ^ 32 := by
  have hloaded : Loaded c s := run_invariant Loaded.step (loaded_start c) hrun
  have hdocuments : ∀ k, 1 ≤ k → k ≤ c.numCollections → (s.db.collections k ≠ [] ↔
      1 ≤ c.documentsPerInsert ∧ c.documentsPerInsert ≤ c.numMaxInserts) := by
    intro k hk hle
    have hids := hloaded k
    rw [Config.loaded, if_pos ⟨hk, hle⟩] at hids
    have hlength := congrArg List.length hids
    rw [ids, List.length_map, List.length_range'] at hlength
    rw [← List.length_pos_iff, hlength]
    constructor
    · intro hpos
      exact Nat.div_pos_iff.mp (Nat.pos_of_mul_pos_right hpos)
    · intro h
      exact Nat.mul_pos (Nat.div_pos_iff.mpr h) h.1
  have hreport : ∀ k, 1 ≤ k → k ≤ c.numCollections → (report s.db k = .passed ↔
      (1 ≤ c.documentsPerInsert ∧ c.documentsPerInsert ≤ c.numMaxInserts) ∧
      (∃ e ∈ es, e.Inserts c k) ∧
      (es.map (Event.updated c k)).sum % 2 ^ 32 = (es.map (Event.inserted c k)).sum % 2 ^ 32) := by
    intro k hk hle
    rw [report_eq_passed_iff, hdocuments k hk hle, rowsOf_run hrun, documentSum_run hrun,
      rowSum_run hrun, wrap_eq_wrap_iff]
  unfold Passed validator
  rw [validateFrom_eq_replicate_iff]
  constructor
  · intro h k hk hle
    exact (hreport k hk hle).mp (h k hk (by omega))
  · intro h k hk hlt
    exact (hreport k hk (by omega)).mpr (h k hk (by omega))

/-- One transaction, which throws nowhere. -/
theorem passed_one : ∃ s, run (step ⟨1, 2, 1, true, 0, 0, false⟩) [⟨0, ⟨1, 2, 5⟩, none⟩]
    (start ⟨1, 2, 1, true, 0, 0, false⟩ 1) = some s ∧ Passed ⟨1, 2, 1, true, 0, 0, false⟩ s.db := by
  have hrun : run (step ⟨1, 2, 1, true, 0, 0, false⟩) [⟨0, ⟨1, 2, 5⟩, none⟩]
    (start ⟨1, 2, 1, true, 0, 0, false⟩ 1) = some _ := rfl
  refine ⟨_, hrun, (passed_iff hrun).mpr fun k hk hle => ?_⟩
  obtain rfl : k = 1 := Nat.le_antisymm hle hk
  exact ⟨by decide, ⟨_, List.mem_singleton_self _, by decide⟩, by decide⟩

/-- The second transaction throws at its insert, and what it added to the document is committed. The
load leaves the last `_id` out when the batches do not come out even, and the update does not find
it. A collection that was loaded with nothing has no sum. -/
theorem not_passed :
    ((run (step ⟨1, 2, 1, true, 0, 0, false⟩) [⟨0, ⟨1, 2, 5⟩, none⟩, ⟨0, ⟨1, 2, 3⟩, some 2⟩]
      (start ⟨1, 2, 1, true, 0, 0, false⟩ 1)).map fun s =>
        validator ⟨1, 2, 1, true, 0, 0, false⟩ s.db) = some [.failed 8 5] ∧
    ((run (step ⟨1, 3, 2, true, 0, 0, false⟩) [⟨0, ⟨1, 3, 5⟩, none⟩]
      (start ⟨1, 3, 2, true, 0, 0, false⟩ 1)).map fun s =>
        validator ⟨1, 3, 2, true, 0, 0, false⟩ s.db) = some [.failed 0 5] ∧
    ((run (step ⟨1, 1, 2, true, 0, 0, false⟩) [⟨0, ⟨1, 1, 5⟩, none⟩]
      (start ⟨1, 1, 2, true, 0, 0, false⟩ 1)).map fun s =>
        validator ⟨1, 1, 2, true, 0, 0, false⟩ s.db) = some [.wrong] := by
  decide

end TokuQa.MongoSysbench.Backup
