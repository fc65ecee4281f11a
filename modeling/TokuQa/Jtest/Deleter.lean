import Mathlib.Algebra.Order.BigOperators.Group.Finset
import Mathlib.Order.Interval.Finset.Nat
import TokuQa.Lib.JavaInt
import TokuQa.Lib.Run
import TokuQa.Lib.Threads

/-!
# The delete thread of `jtest`

Writers insert batches of 1000 rows and count what they have committed, in the number of rows and
in the last value of the auto-increment column `c1`. When there are enough rows the delete thread
takes a percentage of them away, from the smallest `c1` up. It reads the two counters one after the
other, and computes two numbers from them: how many rows there are to delete, which it subtracts
from the count, and up to which `c1` it deletes.

The two agree if the percentage is a whole number of rows and both counters count the same batches
(`Fine`); then the count is right whenever nobody is about to change it, and each delete removes
what was subtracted (`sound_run`). A batch between the two readings, or one row of a rounded
percentage, is deleted and stays in the count for good.

A step reads or writes one of the shared variables, or is a statement. There is one table, and no
statement fails; the delete waits while a row of an open transaction is in its range. Percentages
are exact. The deletes that were made are read by no step.
-/

set_option autoImplicit false

namespace TokuQa.Jtest

open TokuQa.Lib

/-- `maxTableSize` and `deletePercent`. -/
structure Config where
  maxTableSize : Int
  deletePercent : Nat
  percent_le : deletePercent ≤ 100

def insertsPerBatch : Nat := 1000

inductive WriterPc where
  /-- So many rows of the batch are inserted. -/
  | inserting (i : Nat)
  /-- At `globalCurrentRowCount`. -/
  | committed
  /-- At `globalCurrentC1`. -/
  | counted
deriving DecidableEq

/-- A writer, with the `c1` of the rows in its transaction. -/
structure Writer where
  pc : WriterPc
  rows : List Nat
deriving DecidableEq

inductive DeleterPc where
  | loop
  /-- At `globalCurrentC1`. -/
  | read (currentRowCount : Int)
  /-- At the subtraction. -/
  | computed (deleteWhere numDeletedRows : Int)
  /-- At the statement, and its commit. -/
  | statement (deleteWhere numDeletedRows : Int)
deriving DecidableEq

/-- The rows that a delete removed and those that it left, with the number that was subtracted. -/
structure Deletion where
  numDeletedRows : Int
  removed : List Nat
  left : List Nat

/-- `rows` are the `c1` of the table, `next` is the next value of the column. -/
structure State (n : Nat) where
  rows : List Nat
  next : Nat
  globalCurrentRowCount : Int
  globalCurrentC1 : Int
  writer : Fin n → Writer
  deleter : DeleterPc
  deletes : List Deletion

def start (n : Nat) : State n := ⟨[], 1, 0, 0, fun _ => ⟨.inserting 0, []⟩, .loop, []⟩

inductive Event (n : Nat) where
  | writer (i : Fin n)
  | deleter

variable {n : Nat}

def State.set (s : State n) (i : Fin n) (w : Writer) : State n :=
  { s with writer := Function.update s.writer i w }

def stepWriter (i : Fin n) (s : State n) : State n :=
  match (s.writer i).pc with
  | .inserting k =>
    if k < insertsPerBatch then
      { s with next := s.next + 1 }.set i ⟨.inserting (k + 1), (s.writer i).rows ++ [s.next]⟩
    else { s with rows := s.rows ++ (s.writer i).rows }.set i ⟨.committed, []⟩
  | .committed =>
    { s with globalCurrentRowCount := s.globalCurrentRowCount + insertsPerBatch }.set i
      ⟨.counted, (s.writer i).rows⟩
  | .counted =>
    { s with globalCurrentC1 := s.globalCurrentC1 + insertsPerBatch }.set i
      ⟨.inserting 0, (s.writer i).rows⟩

/-- The rows to be kept, and to be deleted: the quotients are truncated. -/
def Config.kept (c : Config) (currentRowCount : Int) : Int :=
  (currentRowCount * (100 - c.deletePercent)).tdiv 100

def Config.numDeletedRows (c : Config) (currentRowCount : Int) : Int :=
  (currentRowCount * c.deletePercent).tdiv 100

/-- The cast of a `double` that is whole to `int`. -/
def toInt (x : Int) : Int := max (-2 ^ 31) (min x (2 ^ 31 - 1))

/-- `(int) globalCurrentC1.get() - (int) (..)`. -/
def Config.deleteWhere (c : Config) (globalCurrentC1 currentRowCount : Int) : Int :=
  wrap32 (wrap32 globalCurrentC1 - toInt (c.kept currentRowCount))

/-- A row of an open transaction is in the range of the delete. -/
def State.Locked (s : State n) (deleteWhere : Int) : Prop :=
  ∃ i, ∃ c1 ∈ (s.writer i).rows, (c1 : Int) ≤ deleteWhere

instance (s : State n) (deleteWhere : Int) : Decidable (s.Locked deleteWhere) :=
  inferInstanceAs (Decidable (∃ i, ∃ c1 ∈ (s.writer i).rows, (c1 : Int) ≤ deleteWhere))

def stepDeleter (c : Config) (s : State n) : Option (State n) :=
  match s.deleter with
  | .loop =>
    let currentRowCount := s.globalCurrentRowCount
    some { s with
      deleter := if c.maxTableSize ≤ currentRowCount then .read currentRowCount else .loop }
  | .read currentRowCount =>
    some { s with
      deleter := .computed (c.deleteWhere s.globalCurrentC1 currentRowCount)
        (c.numDeletedRows currentRowCount) }
  | .computed deleteWhere numDeletedRows =>
    some { s with
      globalCurrentRowCount := s.globalCurrentRowCount - numDeletedRows
      deleter := .statement deleteWhere numDeletedRows }
  | .statement deleteWhere numDeletedRows =>
    if s.Locked deleteWhere then none
    else
      let removed := s.rows.filter fun c1 : Nat => (c1 : Int) ≤ deleteWhere
      let left := s.rows.filter fun c1 : Nat => ¬ (c1 : Int) ≤ deleteWhere
      some { s with
        rows := left
        deleter := .loop
        deletes := s.deletes ++ [⟨numDeletedRows, removed, left⟩] }

def step (c : Config) (e : Event n) (s : State n) : Option (State n) :=
  match e with
  | .writer i => some (stepWriter i s)
  | .deleter => stepDeleter c s

/-! ## What should hold -/

/-- No writer is between its commit and its counters, and no delete is in progress. -/
structure Quiet (s : State n) : Prop where
  writers : ∀ i, ∃ k, (s.writer i).pc = .inserting k
  deleter : ∀ deleteWhere numDeletedRows, s.deleter ≠ .statement deleteWhere numDeletedRows

/-- As many rows were removed as were subtracted, and these had the smallest `c1`. -/
structure Deletion.Exact (d : Deletion) : Prop where
  length_eq : (d.removed.length : Int) = d.numDeletedRows
  smallest : ∀ c1 ∈ d.removed, ∀ c1' ∈ d.left, c1 < c1'

structure Sound (s : State n) : Prop where
  count : Quiet s → s.globalCurrentRowCount = s.rows.length
  exact_ : ∀ d ∈ s.deletes, d.Exact

/-- The rows that were deleted so far. -/
def State.deleted (s : State n) : Nat := (s.deletes.map fun d => d.removed.length).sum

/-- The delete thread reads `globalCurrentC1`: the two counters and the deleted rows agree, and the
percentage is whole; or there is nothing to delete, and this counter is behind the other. Moreover
what is computed is an `int`. -/
def Agrees (c : Config) (s : State n) (currentRowCount : Int) : Prop :=
  (100 ∣ currentRowCount * c.deletePercent ∧ s.globalCurrentC1 = currentRowCount + s.deleted ∨
    currentRowCount * c.deletePercent < 100 ∧ s.globalCurrentC1 < currentRowCount + s.deleted) ∧
  c.kept currentRowCount < 2 ^ 31 ∧ s.globalCurrentC1 - c.kept currentRowCount < 2 ^ 31

/-- The steps that go well. -/
def Fine (c : Config) (e : Event n) (s : State n) : Prop :=
  match e with
  | .writer _ => True
  | .deleter => ∀ currentRowCount, s.deleter = .read currentRowCount → Agrees c s currentRowCount

/-! ## The invariant -/

/-- The rows that are committed and not counted in the number of rows. -/
def Writer.uncounted (w : Writer) : Int := if w.pc = .committed then insertsPerBatch else 0

/-- And those that are not counted in the last `c1`. -/
def Writer.behind (w : Writer) : Int :=
  if w.pc = .committed ∨ w.pc = .counted then insertsPerBatch else 0

/-- The rows of the transaction. -/
def Writer.Batch (w : Writer) : Prop :=
  match w.pc with
  | .inserting k => w.rows.length = k ∧ k ≤ insertsPerBatch
  | _ => w.rows = []

/-- The rows that are subtracted and not yet removed. -/
def DeleterPc.subtracted : DeleterPc → Int
  | .statement _ numDeletedRows => numDeletedRows
  | _ => 0

/-- The number of rows to delete is that of the rows up to `deleteWhere`. -/
structure Ready (deleted next : Nat) (deleteWhere numDeletedRows : Int) : Prop where
  upto : max (deleted : Int) deleteWhere = deleted + numDeletedRows
  inserted : deleteWhere < next

/-- What holds where the delete thread is. -/
def DeleterPc.Holds (deleted next : Nat) (globalCurrentRowCount : Int) : DeleterPc → Prop
  | .loop => True
  | .read currentRowCount => 0 ≤ currentRowCount ∧ currentRowCount ≤ globalCurrentRowCount
  | .computed deleteWhere numDeletedRows =>
    Ready deleted next deleteWhere numDeletedRows ∧ numDeletedRows ≤ globalCurrentRowCount
  | .statement deleteWhere numDeletedRows => Ready deleted next deleteWhere numDeletedRows

structure Inv (s : State n) : Prop where
  /-- Every `c1` that was given out and not deleted is in one place. -/
  once : ∀ c1, s.rows.count c1 + ∑ i, (s.writer i).rows.count c1 =
    if s.deleted < c1 ∧ c1 < s.next then 1 else 0
  deleted_lt : s.deleted < s.next
  batch : ∀ i, (s.writer i).Batch
  count : s.globalCurrentRowCount + ∑ i, (s.writer i).uncounted + s.deleter.subtracted =
    s.rows.length
  c1 : s.globalCurrentC1 + ∑ i, (s.writer i).behind = s.deleted + s.rows.length
  count_nonneg : 0 ≤ s.globalCurrentRowCount
  c1_nonneg : 0 ≤ s.globalCurrentC1
  deleter : s.deleter.Holds s.deleted s.next s.globalCurrentRowCount
  exact_ : ∀ d ∈ s.deletes, d.Exact

theorem inv_start (n : Nat) : Inv (start n) where
  once c1 := by
    have hnone : ¬ (State.deleted (start n) < c1 ∧ c1 < 1) := by omega
    change _ = if State.deleted (start n) < c1 ∧ c1 < 1 then 1 else 0
    rw [if_neg hnone]
    simp [start]
  deleted_lt := Nat.zero_lt_one
  batch i := ⟨rfl, Nat.zero_le _⟩
  count := by simp [start, Writer.uncounted, DeleterPc.subtracted]
  c1 := by simp [start, Writer.behind, State.deleted]
  count_nonneg := le_rfl
  c1_nonneg := le_rfl
  deleter := trivial
  exact_ d hd := absurd hd List.not_mem_nil

variable {c : Config} {s s' : State n} {i : Fin n} {w : Writer}

theorem Inv.sound (h : Inv s) : Sound s where
  count hquiet := by
    have hcount := h.count
    have hnone : ∑ i, (s.writer i).uncounted = 0 := by
      refine Finset.sum_eq_zero fun i _ => ?_
      obtain ⟨k, hk⟩ := hquiet.writers i
      rw [Writer.uncounted, hk]
      rfl
    have hsubtracted : s.deleter.subtracted = 0 := by
      cases hpc : s.deleter with
      | statement deleteWhere numDeletedRows =>
        exact absurd hpc (hquiet.deleter deleteWhere numDeletedRows)
      | _ => rfl
    omega
  exact_ := h.exact_

/-! ## The writers -/

theorem Ready.later {deleted next next' : Nat} {deleteWhere numDeletedRows : Int}
    (h : Ready deleted next deleteWhere numDeletedRows) (hnext : next ≤ next') :
    Ready deleted next' deleteWhere numDeletedRows :=
  ⟨h.upto, h.inserted.trans_le (Int.ofNat_le.mpr hnext)⟩

/-- Wherever the delete thread is, writers only add rows and count them. -/
theorem DeleterPc.Holds.later {deleted next next' : Nat} {rowCount rowCount' : Int}
    {pc : DeleterPc} (h : pc.Holds deleted next rowCount) (hnext : next ≤ next')
    (hcount : rowCount ≤ rowCount') : pc.Holds deleted next' rowCount' := by
  cases pc with
  | loop => trivial
  | read currentRowCount => exact ⟨h.1, h.2.trans hcount⟩
  | computed deleteWhere numDeletedRows => exact ⟨h.1.later hnext, h.2.trans hcount⟩
  | statement deleteWhere numDeletedRows => exact Ready.later h hnext

/-- A writer moves: what its move must keep in balance. -/
theorem Inv.move (h : Inv s) {rows : List Nat} {next : Nat} {rowCount c1 : Int}
    (honce : ∀ c, rows.count c + w.rows.count c + (if s.deleted < c ∧ c < s.next then 1 else 0) =
      s.rows.count c + (s.writer i).rows.count c + if s.deleted < c ∧ c < next then 1 else 0)
    (hbatch : w.Batch)
    (hcount : rowCount + w.uncounted + s.rows.length =
      s.globalCurrentRowCount + (s.writer i).uncounted + rows.length)
    (hc1 : c1 + w.behind + s.rows.length =
      s.globalCurrentC1 + (s.writer i).behind + rows.length)
    (hnext : s.next ≤ next) (hle : s.globalCurrentRowCount ≤ rowCount)
    (hle' : s.globalCurrentC1 ≤ c1) :
    Inv ({ s with rows, next, globalCurrentRowCount := rowCount, globalCurrentC1 := c1 }.set i w)
    where
  once c := by
    have hsum := sum_update (fun w : Writer => w.rows.count c) s.writer i w
    have honce' := h.once c
    have hmove := honce c
    simp only [State.set] at *
    change rows.count c + _ = if s.deleted < c ∧ c < next then 1 else 0
    omega
  deleted_lt := h.deleted_lt.trans_le hnext
  batch := forall_update (P := fun _ => Writer.Batch) h.batch hbatch
  count := by
    have hsum := sum_update Writer.uncounted s.writer i w
    have hcount' := h.count
    simp only [State.set]
    omega
  c1 := by
    have hsum := sum_update Writer.behind s.writer i w
    have hc1' := h.c1
    simp only [State.set]
    change c1 + _ = (s.deleted : Int) + rows.length
    omega
  count_nonneg := h.count_nonneg.trans hle
  c1_nonneg := h.c1_nonneg.trans hle'
  deleter := h.deleter.later hnext hle
  exact_ := h.exact_

theorem Inv.writer (h : Inv s) (i : Fin n) : Inv (stepWriter i s) := by
  have hbatch := h.batch i
  unfold stepWriter
  unfold Writer.Batch at hbatch
  cases hpc : (s.writer i).pc with
  | inserting k =>
    rw [hpc] at hbatch
    obtain ⟨hlength, hle⟩ := hbatch
    dsimp only
    split
    · next hlt =>
      have hdeleted := h.deleted_lt
      refine h.move (fun c => ?_) ⟨?_, hlt⟩ ?_ ?_ (Nat.le_succ _) le_rfl le_rfl
      · rw [List.count_append, List.count_singleton]
        simp only [beq_iff_eq]
        split_ifs <;> omega
      · rw [List.length_append, List.length_singleton, hlength]
      · simp [Writer.uncounted, hpc]
      · simp [Writer.behind, hpc]
    · next hge =>
      have hfull : (s.writer i).rows.length = insertsPerBatch := by omega
      refine h.move (fun c => ?_) rfl ?_ ?_ le_rfl le_rfl le_rfl
      · rw [List.count_append, List.count_nil]
        omega
      · simp only [Writer.uncounted, hpc, List.length_append, hfull, if_true, reduceCtorEq,
          if_false]
        push_cast
        omega
      · simp only [Writer.behind, hpc, List.length_append, hfull, true_or, if_true, reduceCtorEq,
          or_self, if_false]
        push_cast
        omega
  | committed =>
    rw [hpc] at hbatch
    refine h.move (fun c => rfl) hbatch ?_ ?_ le_rfl ?_ le_rfl
    · simp [Writer.uncounted, hpc]
    · simp [Writer.behind, hpc]
    · simp [insertsPerBatch]
  | counted =>
    rw [hpc] at hbatch
    refine h.move (fun c => rfl) ⟨?_, Nat.zero_le _⟩ ?_ ?_ le_rfl le_rfl ?_
    · rw [hbatch]
      rfl
    · simp [Writer.uncounted, hpc]
    · simp [Writer.behind, hpc]
    · simp [insertsPerBatch]

/-! ## The delete thread -/

theorem Inv.mem_rows (h : Inv s) {c1 : Nat} (hmem : c1 ∈ s.rows) :
    s.deleted < c1 ∧ c1 < s.next := by
  have hpos : 0 < s.rows.count c1 := List.count_pos_iff.mpr hmem
  have honce := h.once c1
  by_contra hout
  rw [if_neg hout] at honce
  omega

theorem Inv.nodup (h : Inv s) : s.rows.Nodup := by
  refine List.nodup_iff_count_le_one.mpr fun c1 => ?_
  have honce := h.once c1
  split at honce <;> omega

theorem Inv.length_rows (h : Inv s) : s.deleted + s.rows.length < s.next := by
  have hsub : s.rows.toFinset ⊆ Finset.Ioo s.deleted s.next := by
    intro c1 hc1
    exact Finset.mem_Ioo.mpr (h.mem_rows (List.mem_toFinset.mp hc1))
  have hcard := Finset.card_le_card hsub
  have hlt := h.deleted_lt
  rw [List.toFinset_card_of_nodup h.nodup, Nat.card_Ioo] at hcard
  omega

/-- The thread moves on, with nothing subtracted or removed. -/
theorem Inv.goto (h : Inv s) {pc : DeleterPc} (hsame : pc.subtracted = s.deleter.subtracted)
    (hpc : pc.Holds s.deleted s.next s.globalCurrentRowCount) : Inv { s with deleter := pc } where
  once := h.once
  deleted_lt := h.deleted_lt
  batch := h.batch
  count := hsame ▸ h.count
  c1 := h.c1
  count_nonneg := h.count_nonneg
  c1_nonneg := h.c1_nonneg
  deleter := hpc
  exact_ := h.exact_

/-- **The two numbers agree** where the two counters do. -/
theorem Inv.ready (h : Inv s) {currentRowCount : Int} (hnonneg : 0 ≤ currentRowCount)
    (hagrees : Agrees c s currentRowCount) :
    Ready s.deleted s.next (c.deleteWhere s.globalCurrentC1 currentRowCount)
      (c.numDeletedRows currentRowCount) ∧ c.numDeletedRows currentRowCount ≤ currentRowCount := by
  obtain ⟨hcounters, hint, hint'⟩ := hagrees
  have hpercent : 0 ≤ currentRowCount * c.deletePercent :=
    mul_nonneg hnonneg (Int.natCast_nonneg _)
  have hall : currentRowCount * c.deletePercent ≤ currentRowCount * 100 :=
    mul_le_mul_of_nonneg_left (by exact_mod_cast c.percent_le) hnonneg
  have hsplit : currentRowCount * (100 - c.deletePercent) =
      currentRowCount * 100 - currentRowCount * c.deletePercent := mul_sub _ _ _
  have hkept : c.kept currentRowCount =
      (currentRowCount * 100 - currentRowCount * c.deletePercent) / 100 := by
    rw [Config.kept, hsplit, Int.tdiv_eq_ediv_of_nonneg (by omega)]
  have hdeleted : c.numDeletedRows currentRowCount = currentRowCount * c.deletePercent / 100 :=
    Int.tdiv_eq_ediv_of_nonneg hpercent
  have hc1 := h.c1_nonneg
  have hkept_nonneg : 0 ≤ c.kept currentRowCount := by omega
  have htoInt : toInt (c.kept currentRowCount) = c.kept currentRowCount := by
    unfold toInt
    omega
  have hwhere : c.deleteWhere s.globalCurrentC1 currentRowCount =
      s.globalCurrentC1 - c.kept currentRowCount := by
    rw [Config.deleteWhere, htoInt, sub_eq_add_neg, wrap32, wrap_add_wrap, ← sub_eq_add_neg]
    exact wrap_eq_self (by omega) hint'
  have hbehind : 0 ≤ ∑ i, (s.writer i).behind := by
    refine Finset.sum_nonneg fun i _ => ?_
    unfold Writer.behind
    split <;> decide
  have hsum := h.c1
  have hlength := h.length_rows
  refine ⟨⟨?_, by omega⟩, by omega⟩
  rcases hcounters with ⟨⟨m, hm⟩, heq⟩ | ⟨hfew, hlt⟩
  · omega
  · omega

/-- No row in the range of the delete is in a transaction. -/
theorem sum_count_of_free {deleteWhere : Int} (c1 : Nat) (hfree : ¬ s.Locked deleteWhere)
    (hle : (c1 : Int) ≤ deleteWhere) : ∑ i, (s.writer i).rows.count c1 = 0 := by
  refine Finset.sum_eq_zero fun i _ => List.count_eq_zero.mpr fun hmem => ?_
  exact hfree ⟨i, c1, hmem, hle⟩

section

variable {deleteWhere numDeletedRows : Int}

/-- **What the delete removes**: as many rows as were subtracted. -/
theorem Inv.removed_length (h : Inv s)
    (hready : Ready s.deleted s.next deleteWhere numDeletedRows)
    (hfree : ¬ s.Locked deleteWhere) :
    ((s.rows.filter fun c1 : Nat => (c1 : Int) ≤ deleteWhere).length : Int) = numDeletedRows := by
  have hupto := hready.upto
  have hinserted := hready.inserted
  have hset : (s.rows.filter fun c1 : Nat => (c1 : Int) ≤ deleteWhere).toFinset =
      Finset.Ioc s.deleted (s.deleted + numDeletedRows).toNat := by
    ext c1
    rw [List.mem_toFinset, List.mem_filter, decide_eq_true_eq, Finset.mem_Ioc]
    constructor
    · rintro ⟨hmem, hle⟩
      have hrange := h.mem_rows hmem
      omega
    · rintro ⟨hgt, hle⟩
      have honce := h.once c1
      have hopen := sum_count_of_free c1 hfree (by omega)
      rw [hopen, if_pos (by omega)] at honce
      exact ⟨List.count_pos_iff.mp (by omega), by omega⟩
  have hcard := congrArg Finset.card hset
  rw [List.toFinset_card_of_nodup (h.nodup.filter _), Nat.card_Ioc] at hcard
  omega

/-- And what it leaves: every row behind these. -/
theorem Inv.once_left (h : Inv s) (hready : Ready s.deleted s.next deleteWhere numDeletedRows)
    (hfree : ¬ s.Locked deleteWhere) (c1 : Nat) :
    (s.rows.filter fun c1 : Nat => ¬ (c1 : Int) ≤ deleteWhere).count c1 +
        ∑ i, (s.writer i).rows.count c1 =
      if s.deleted + numDeletedRows < c1 ∧ c1 < s.next then 1 else 0 := by
  have hupto := hready.upto
  have honce := h.once c1
  by_cases hle : (c1 : Int) ≤ deleteWhere
  · have hnone : (s.rows.filter fun c1 : Nat => ¬ (c1 : Int) ≤ deleteWhere).count c1 = 0 := by
      rw [List.count_eq_zero, List.mem_filter]
      simp [hle]
    rw [sum_count_of_free c1 hfree hle, hnone, if_neg (by omega)]
  · rw [List.count_filter (by simpa using hle), honce]
    refine if_congr (and_congr_left fun _ => ?_) rfl rfl
    omega

theorem length_removed_add_left (s : State n) (deleteWhere : Int) :
    (s.rows.filter fun c1 : Nat => (c1 : Int) ≤ deleteWhere).length +
      (s.rows.filter fun c1 : Nat => ¬ (c1 : Int) ≤ deleteWhere).length = s.rows.length := by
  rw [List.length_eq_length_filter_add (l := s.rows)
    fun c1 : Nat => decide ((c1 : Int) ≤ deleteWhere)]
  congr 2
  exact List.filter_congr fun _ _ => decide_not

theorem Inv.statement (h : Inv s) (hpc : s.deleter = .statement deleteWhere numDeletedRows)
    (hstep : stepDeleter c s = some s') : Inv s' := by
  have hready : Ready s.deleted s.next deleteWhere numDeletedRows := by
    have hholds := h.deleter
    rwa [hpc] at hholds
  have hcount := h.count
  rw [hpc] at hcount
  unfold stepDeleter at hstep
  rw [hpc] at hstep
  dsimp only at hstep
  split at hstep
  · cases hstep
  · next hfree =>
    cases hstep
    have hremoved := h.removed_length hready hfree
    have hleft := h.once_left hready hfree
    have hparts := length_removed_add_left s deleteWhere
    have hupto := hready.upto
    have hinserted := hready.inserted
    have hlt := h.deleted_lt
    have hc1 := h.c1
    have hsmallest : ∀ c1 ∈ s.rows.filter fun c1 : Nat => (c1 : Int) ≤ deleteWhere,
        ∀ c1' ∈ s.rows.filter fun c1 : Nat => ¬ (c1 : Int) ≤ deleteWhere, c1 < c1' := by
      intro c1 hc1 c1' hc1'
      rw [List.mem_filter, decide_eq_true_eq] at hc1 hc1'
      omega
    generalize (s.rows.filter fun c1 : Nat => (c1 : Int) ≤ deleteWhere) = removed at *
    generalize (s.rows.filter fun c1 : Nat => ¬ (c1 : Int) ≤ deleteWhere) = left at *
    have hdeleted : State.deleted { s with
        rows := left, deleter := .loop,
        deletes := s.deletes ++ [⟨numDeletedRows, removed, left⟩] } =
        s.deleted + removed.length := by
      simp [State.deleted]
    exact {
      once := fun c1 => by
        rw [hdeleted]
        change left.count c1 + ∑ i, (s.writer i).rows.count c1 =
          if s.deleted + removed.length < c1 ∧ c1 < s.next then 1 else 0
        rw [hleft c1]
        refine if_congr (and_congr_left fun _ => ?_) rfl rfl
        omega
      deleted_lt := by
        rw [hdeleted]
        change s.deleted + removed.length < s.next
        omega
      batch := h.batch
      count := by
        change s.globalCurrentRowCount + ∑ i, (s.writer i).uncounted + 0 = (left.length : Int)
        simp only [DeleterPc.subtracted] at hcount
        omega
      c1 := by
        rw [hdeleted]
        change s.globalCurrentC1 + ∑ i, (s.writer i).behind = _ + (left.length : Int)
        push_cast
        omega
      count_nonneg := h.count_nonneg
      c1_nonneg := h.c1_nonneg
      deleter := trivial
      exact_ := by
        intro d hd
        rcases List.mem_append.mp hd with hd | hd
        · exact h.exact_ d hd
        · rw [List.mem_singleton.mp hd]
          exact ⟨hremoved, hsmallest⟩ }

end

theorem Inv.step (h : Inv s) {e : Event n} (hfine : Fine c e s) (hstep : step c e s = some s') :
    Inv s' := by
  cases e with
  | writer i =>
    cases hstep
    exact h.writer i
  | deleter =>
    have hholds := h.deleter
    cases hpc : s.deleter with
    | loop =>
      simp only [Jtest.step, stepDeleter, hpc, Option.some.injEq] at hstep
      subst hstep
      refine h.goto ?_ ?_
      · rw [hpc]
        split <;> rfl
      · split
        · exact ⟨h.count_nonneg, le_rfl⟩
        · trivial
    | read currentRowCount =>
      simp only [Jtest.step, stepDeleter, hpc, Option.some.injEq] at hstep
      subst hstep
      rw [hpc] at hholds
      obtain ⟨hready, hle⟩ := h.ready hholds.1 (hfine currentRowCount hpc)
      refine h.goto ?_ ⟨hready, hle.trans hholds.2⟩
      rw [hpc]
      rfl
    | computed deleteWhere numDeletedRows =>
      simp only [Jtest.step, stepDeleter, hpc, Option.some.injEq] at hstep
      subst hstep
      rw [hpc] at hholds
      have hcount := h.count
      rw [hpc] at hcount
      have hle := hholds.2
      exact {
        once := h.once
        deleted_lt := h.deleted_lt
        batch := h.batch
        count := by
          simp only [DeleterPc.subtracted] at hcount ⊢
          omega
        c1 := h.c1
        count_nonneg := by
          simp only
          omega
        c1_nonneg := h.c1_nonneg
        deleter := hholds.1
        exact_ := h.exact_ }
    | statement deleteWhere numDeletedRows => exact h.statement hpc hstep

/-- **The count is right**, and each delete removes what was subtracted, in every state of a run
whose steps are fine. -/
theorem sound_run {n : Nat} (c : Config) {events : List (Event n)} {s : State n}
    (hfine : AllSteps (step c) (Fine c) events (start n))
    (hrun : run (step c) events (start n) = some s) : Sound s := by
  have hinv : Inv s :=
    run_keeps (fun h hok hstep => Inv.step h hok hstep) (inv_start n) hfine hrun
  exact hinv.sound

/-! ## Whole batches -/

theorem run_inserts (c : Config) {k m : Nat} (hm : k + m ≤ insertsPerBatch)
    (hi : (s.writer i).pc = .inserting k) :
    run (step c) (List.replicate m (.writer i)) s =
      some ({ s with next := s.next + m }.set i
        ⟨.inserting (k + m), (s.writer i).rows ++ List.range' s.next m⟩) := by
  induction m generalizing s k with
  | zero =>
    have hself : ⟨.inserting k, (s.writer i).rows⟩ = s.writer i := by rw [← hi]
    simp [run, State.set, hself]
  | succ m ih =>
    have hlt : k < insertsPerBatch := by omega
    have hstep : step c (.writer i) s = some ({ s with next := s.next + 1 }.set i
        ⟨.inserting (k + 1), (s.writer i).rows ++ [s.next]⟩) := by
      simp only [step, stepWriter, hi, if_pos hlt]
    have hrest := ih (s := { s with next := s.next + 1 }.set i
      ⟨.inserting (k + 1), (s.writer i).rows ++ [s.next]⟩) (k := k + 1) (by omega)
      (by simp [State.set])
    rw [List.replicate_succ, run, hstep, Option.bind_some, hrest]
    simp [State.set, List.range'_succ, Nat.add_assoc, Nat.add_comm 1]

/-- The state behind a whole batch. -/
def State.afterBatch (s : State n) (i : Fin n) : State n :=
  { s with
    rows := s.rows ++ List.range' s.next insertsPerBatch
    next := s.next + insertsPerBatch
    globalCurrentRowCount := s.globalCurrentRowCount + insertsPerBatch
    globalCurrentC1 := s.globalCurrentC1 + insertsPerBatch }.set i ⟨.inserting 0, []⟩

/-- The steps of a whole batch. -/
def batch (i : Fin n) : List (Event n) :=
  List.replicate insertsPerBatch (.writer i) ++ [.writer i, .writer i, .writer i]

theorem run_batch (c : Config) (hi : s.writer i = ⟨.inserting 0, []⟩) :
    run (step c) (batch i) s = some (s.afterBatch i) := by
  have hinserts := run_inserts c (s := s) (i := i) (k := 0) (m := insertsPerBatch) (by omega)
    (by rw [hi])
  rw [batch, run_append, hinserts]
  simp [run, step, stepWriter, State.set, State.afterBatch, hi]

theorem fine_batch (c : Config) (i : Fin n) (s : State n) :
    AllSteps (step c) (Fine c) (batch i) s := by
  refine allSteps_of_mem (fun e he s => ?_) s
  have hwriter : e = .writer i := by
    rcases List.mem_append.mp he with hmem | hmem
    · exact List.eq_of_mem_replicate hmem
    · simpa using hmem
  rw [hwriter]
  trivial

/-- Half of the rows are deleted, from 1000 on. -/
def halves : Config := ⟨1000, 50, by decide⟩

/-- The state behind one batch. -/
def oneBatch : State 1 := (start 1).afterBatch (Fin.last 0)

theorem sound_run_one_batch :
    ∃ s : State 1, run (step halves) (batch 0 ++ List.replicate 4 .deleter) (start 1) = some s ∧
      Sound s ∧ s.globalCurrentRowCount = 500 := by
  have hbatch : run (step halves) (batch 0) (start 1) = some oneBatch := run_batch halves rfl
  have hfine : AllSteps (step halves) (Fine halves) (List.replicate 4 .deleter) oneBatch := by
    refine .cons (by rintro k ⟨⟩) rfl (.cons ?_ rfl
      (.cons (by rintro k ⟨⟩) rfl (.cons ?_ rfl trivial)))
    · rintro k ⟨⟩
      exact ⟨.inl ⟨by decide, by decide⟩, by decide, by decide⟩
    · rintro k ⟨⟩
  have hrun : ∃ s : State 1, run (step halves) (batch 0 ++ List.replicate 4 .deleter) (start 1) =
      some s ∧ s.globalCurrentRowCount = 500 := by
    rw [run_append, hbatch]
    exact ⟨_, rfl, rfl⟩
  obtain ⟨s, hs, hcount⟩ := hrun
  exact ⟨s, hs, sound_run halves ((fine_batch halves 0 _).append hbatch hfine) hs, hcount⟩

/-- The second batch is counted between the two readings: it is deleted, and not subtracted. -/
theorem not_sound_batch_between :
    ∃ s : State 1, run (step halves) (batch 0 ++ .deleter :: (batch 0 ++ List.replicate 3 .deleter))
      (start 1) = some s ∧ s.globalCurrentRowCount = 1500 ∧ s.rows.length = 500 ∧ ¬ Sound s := by
  have hbatch : run (step halves) (batch 0) (start 1) = some oneBatch := run_batch halves rfl
  have hloop : step halves .deleter oneBatch = some { oneBatch with deleter := .read 1000 } := rfl
  have hbatch' : run (step halves) (batch 0) { oneBatch with deleter := .read 1000 } =
      some (State.afterBatch { oneBatch with deleter := .read 1000 } 0) := run_batch halves rfl
  rw [run_append, hbatch, Option.bind_some, run, hloop, Option.bind_some, run_append, hbatch',
    Option.bind_some]
  have hend : ∃ s : State 1, run (step halves) (List.replicate 3 .deleter)
      (State.afterBatch { oneBatch with deleter := .read 1000 } 0) = some s ∧
      s.globalCurrentRowCount = 1500 ∧ s.rows.length = 500 ∧ Quiet s :=
    ⟨_, rfl, by decide +kernel, by decide +kernel, fun i => ⟨0, by rw [Subsingleton.elim i 0]; rfl⟩,
      by rintro deleteWhere numDeletedRows ⟨⟩⟩
  obtain ⟨s, hrun, hcount, hlength, hquiet⟩ := hend
  refine ⟨s, hrun, hcount, hlength, fun hsound => ?_⟩
  have hright := hsound.count hquiet
  omega

end TokuQa.Jtest
