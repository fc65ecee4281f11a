import Mathlib.Algebra.BigOperators.Group.Finset.Basic
import TokuQa.Lib.JavaInt
import TokuQa.Lib.KeyedList
import TokuQa.Lib.Run
import TokuQa.Lib.Threads

/-!
# The threads of the partitioning `jmongoiibench.java`

The writers insert batches; a thread keeps the collection at its size, with removes over a range of
`_id`s or by dropping whole partitions. They share three counters: `globalIdValue` gives out the
`_id`s, `globalInserts` and `globalEstimatedRows` are counted up behind an insert, and the delete
thread counts `globalEstimatedRows` down. A writer waits while that is above its threshold.

A step is an access to a shared variable, or a command to the server. The statements between two of
them touch a thread's own variables only and go with the first. The waits for the clock change
nothing and are left out. `throws` says if the insert or the remove of the step throws; it has then
not changed the collection. The commands on partitions do not throw.

`documents` follows the inserts and the removes, not the partitions that are dropped: which `_id`s
are in a partition is the server's business.
-/

set_option autoImplicit false

namespace TokuQa.MongoIibench

open TokuQa.Lib

structure Config where
  numMaxInserts : Nat
  documentsPerInsert : Nat
  /-- `usePartitioning`, when it is not `n`. -/
  partitioning : Bool
  partitionRows : Int
  deleteAtRows : Int
  percentDelete : Int
  percentOverAllowed : Int

namespace Config

/-- The `numDeleteAt` of a writer. The sum is narrowed to an `int`. -/
def writerDeleteAt (c : Config) : Int :=
  wrap32 (c.deleteAtRows + (c.deleteAtRows * c.percentOverAllowed).tdiv 100)

def deleteRowsPerCall (c : Config) : Int := (c.partitionRows * c.percentDelete).tdiv 100

def numRounds (c : Config) : Nat := c.numMaxInserts / c.documentsPerInsert

end Config

/-- Where a writer is; `rounds` are those behind the present one. -/
inductive WriterPc where
  | waiting
  | readRows (rounds : Nat)
  /-- In the loop that waits for the delete thread. -/
  | pause (rounds : Nat)
  | takeId (rounds : Nat)
  | insert (rounds : Nat) (thisId : Int)
  | countInserts (rounds : Nat)
  | countRows (rounds : Nat)
  | check (rounds : Nat)
  | exit
  | last
  | stopped
deriving DecidableEq

/-- Where the delete thread is. -/
inductive DeletePc where
  | loop
  | readRows
  | remove
  | subtractRemoved
  | readInserts (thisEstimatedRows : Int)
  | addPartition (thisEstimatedRows thisGlobalInserts : Int)
  /-- At the head of the loop that drops. -/
  | dropLoop (thisEstimatedRows : Int)
  | subtractDropped (rowsInDroppingPartition : Int)
  | finished
  /-- Thrown out of its loop. -/
  | dead
deriving DecidableEq

/-- The delete thread with its variables. `removed` are the numbers of documents its removes have
deleted, `dropped` the partitions it has dropped. -/
structure Deleter where
  pc : DeletePc
  deleteFloor : Int
  numRowsNextPartition : Int
  numRowsLastPartition : Int
  dropPartitionNumber : Nat
  closedPartitionNumber : Nat
  mapPartitions : List (Nat × Int)
  removed : List Nat
  dropped : List (Nat × Int)

/-- `counted` is what the writers have added to `globalEstimatedRows`. -/
structure State (n : Nat) where
  documents : Finset Int
  globalIdValue : Int
  globalInserts : Int
  globalEstimatedRows : Int
  globalWriterThreads : Nat
  allDone : Bool
  writer : Fin n → WriterPc
  deleter : Deleter
  counted : Int

def Deleter.start (c : Config) : Deleter := ⟨.loop, 0, c.partitionRows, 0, 0, 0, [], [], []⟩

def start (c : Config) (n : Nat) : State n :=
  ⟨∅, 0, 0, 0, 0, false, fun _ => .waiting, Deleter.start c, 0⟩

/-- `main` starts a writer; a writer's step; the delete thread's; the reporter finds that the time is
up. -/
inductive Event (n : Nat) where
  | start (i : Fin n)
  | writer (i : Fin n) (throws : Bool)
  | delete (throws : Bool)
  | timeUp

variable {n : Nat}

/-- The head of the loop over the rounds. -/
def nextRound : Nat → WriterPc
  | 0 => .exit
  | rounds + 1 => .readRows rounds

/-- The head of the loop that waits. -/
def waitOn (c : Config) (thisEstimatedRows : Int) (rounds : Nat) : WriterPc :=
  if c.writerDeleteAt < thisEstimatedRows then .pause rounds else .takeId rounds

def State.at (s : State n) (i : Fin n) (pc : WriterPc) : State n :=
  { s with writer := Function.update s.writer i pc }

def State.delete (s : State n) (pc : DeletePc) : State n :=
  { s with deleter := { s.deleter with pc } }

@[simp]
theorem State.delete_pc (s : State n) (pc : DeletePc) : (s.delete pc).deleter.pc = pc := rfl

/-- The `_id`s of a batch. -/
def slice (c : Config) (thisId : Int) : Finset Int :=
  (Finset.range c.documentsPerInsert).image fun (i : Nat) => thisId + i

theorem mem_slice {c : Config} {thisId id : Int} :
    id ∈ slice c thisId ↔ thisId ≤ id ∧ id < thisId + c.documentsPerInsert := by
  simp only [slice, Finset.mem_image, Finset.mem_range]
  constructor
  · rintro ⟨i, hi, rfl⟩
    omega
  · intro ⟨hle, hlt⟩
    exact ⟨(id - thisId).toNat, by omega, by omega⟩

theorem card_slice (c : Config) (thisId : Int) :
    (slice c thisId).card = c.documentsPerInsert := by
  rw [slice, Finset.card_image_of_injective, Finset.card_range]
  intro i j hij
  simpa using hij

def stepWriter (c : Config) (i : Fin n) (throws : Bool) (s : State n) : Option (State n) :=
  match s.writer i with
  | .waiting => none
  | .readRows rounds => some (s.at i (waitOn c s.globalEstimatedRows rounds))
  | .pause rounds => some (s.at i (waitOn c s.globalEstimatedRows rounds))
  | .takeId rounds =>
    let thisId := s.globalIdValue + c.documentsPerInsert
    some ({ s with globalIdValue := thisId }.at i (.insert rounds thisId))
  | .insert rounds thisId =>
    if throws then some (s.at i (.check rounds))
    else some ({ s with documents := s.documents ∪ slice c thisId }.at i (.countInserts rounds))
  | .countInserts rounds =>
    some ({ s with globalInserts := s.globalInserts + c.documentsPerInsert }.at i (.countRows rounds))
  | .countRows rounds =>
    some ({ s with
      globalEstimatedRows := s.globalEstimatedRows + c.documentsPerInsert
      counted := s.counted + c.documentsPerInsert }.at i (.check rounds))
  | .check rounds => some (s.at i (if s.allDone then .exit else nextRound rounds))
  | .exit =>
    let numWriters := s.globalWriterThreads - 1
    some ({ s with globalWriterThreads := numWriters }.at i
      (if numWriters = 0 then .last else .stopped))
  | .last => some ({ s with allDone := true }.at i .stopped)
  | .stopped => none

/-- The documents a remove deletes. -/
def State.removing (c : Config) (s : State n) : Finset Int :=
  s.documents.filter fun id =>
    s.deleter.deleteFloor ≤ id ∧ id < s.deleter.deleteFloor + c.deleteRowsPerCall

/-- `mapPartitions.put`. -/
def put (k : Nat) (rows : Int) : List (Nat × Int) → List (Nat × Int) :=
  upsert Prod.fst k (fun p => (p.1, rows)) (k, rows)

def stepDelete (c : Config) (throws : Bool) (s : State n) : Option (State n) :=
  let d := s.deleter
  match d.pc with
  | .loop => some (s.delete (if s.allDone then .finished else .readRows))
  | .readRows =>
    if c.partitioning then some (s.delete (.readInserts s.globalEstimatedRows))
    else some (s.delete (if c.deleteAtRows < s.globalEstimatedRows then .remove else .loop))
  | .remove =>
    if throws then some (s.delete .readRows)
    else some { s with
      documents := s.documents \ s.removing c
      deleter := { d with pc := .subtractRemoved, removed := d.removed ++ [(s.removing c).card] } }
  | .subtractRemoved => some { s with
      globalEstimatedRows := s.globalEstimatedRows - c.deleteRowsPerCall
      deleter := { d with pc := .readRows, deleteFloor := d.deleteFloor + c.deleteRowsPerCall } }
  | .readInserts thisEstimatedRows => some (s.delete
      (if d.numRowsNextPartition ≤ s.globalInserts then
        .addPartition thisEstimatedRows s.globalInserts
      else .dropLoop thisEstimatedRows))
  | .addPartition thisEstimatedRows thisGlobalInserts => some { s with
      deleter := { d with
        pc := .dropLoop thisEstimatedRows
        mapPartitions :=
          put d.closedPartitionNumber (thisGlobalInserts - d.numRowsLastPartition) d.mapPartitions
        numRowsLastPartition := thisGlobalInserts
        numRowsNextPartition := d.numRowsNextPartition + c.partitionRows
        closedPartitionNumber := d.closedPartitionNumber + 1 } }
  | .dropLoop thisEstimatedRows =>
    if c.deleteAtRows < thisEstimatedRows then
      match findKey Prod.fst d.dropPartitionNumber d.mapPartitions with
      -- `NullPointerException`
      | none => some (s.delete .dead)
      | some (_, rows) => some { s with
          deleter := { d with
            pc := .subtractDropped rows
            mapPartitions := eraseKey Prod.fst d.dropPartitionNumber d.mapPartitions
            dropPartitionNumber := d.dropPartitionNumber + 1
            dropped := d.dropped ++ [(d.dropPartitionNumber, rows)] } }
    else some (s.delete .loop)
  | .subtractDropped rows =>
    let thisEstimatedRows := s.globalEstimatedRows - rows
    some ({ s with globalEstimatedRows := thisEstimatedRows }.delete (.dropLoop thisEstimatedRows))
  | .finished => none
  | .dead => none

def step (c : Config) (e : Event n) (s : State n) : Option (State n) :=
  match e with
  | .start i =>
    if s.writer i = .waiting then
      some ({ s with globalWriterThreads := s.globalWriterThreads + 1 }.at i (nextRound c.numRounds))
    else none
  | .writer i throws => stepWriter c i throws s
  | .delete throws => stepDelete c throws s
  | .timeUp => some { s with allDone := true }

/-- The writers do not touch the variables of the delete thread. -/
theorem stepWriter_deleter {c : Config} {i : Fin n} {throws : Bool} {s s' : State n}
    (h : stepWriter c i throws s = some s') : s'.deleter = s.deleter := by
  unfold stepWriter at h
  cases hpc : s.writer i with
  | waiting | stopped => simp [hpc] at h
  | readRows | pause | takeId | countInserts | countRows | check | exit | last =>
    simp only [hpc, Option.some.injEq] at h
    rw [← h]
    rfl
  | insert =>
    simp only [hpc] at h
    split at h <;> cases h <;> rfl

/-- In every state of the run, from the start of the program on. -/
def AllAlong (c : Config) (P : State n → Prop) (es : List (Event n)) : Prop :=
  ∀ pre s, pre <+: es → run (step c) pre (start c n) = some s → P s

end TokuQa.MongoIibench
