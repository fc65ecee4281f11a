import Mathlib.Algebra.BigOperators.Group.List.Basic
import Mathlib.Algebra.Order.BigOperators.Group.Finset
import Mathlib.Data.List.Range
import TokuQa.MongoIibench.Machine

/-!
# The bookkeeping of the partitions

The delete thread closes a partition when another `partitionRows` rows are in, and drops the oldest
ones while the estimate is over `deleteAtRows`. A pass decides on what it read when it began, and
finds a partition to drop then. After a drop it goes on with what `addAndGet` returns, which has the
rows in it that came meanwhile: the last closed partition may be gone and the estimate still be too
high, and `mapPartitions` has no entry for the next.
-/

set_option autoImplicit false

namespace TokuQa.MongoIibench

open TokuQa.Lib

variable {n : Nat} {c : Config} {s s' : State n}

namespace Deleter

/-- The rows of the partitions that were dropped. -/
def droppedRows (d : Deleter) : Int := (d.dropped.map Prod.snd).sum

/-- The rows of the partitions that are closed and not dropped. -/
def closedRows (d : Deleter) : Int := (d.mapPartitions.map Prod.snd).sum

/-- The dropped rows that `globalEstimatedRows` still has. -/
def uncounted (d : Deleter) : Int :=
  match d.pc with
  | .subtractDropped rows => rows
  | _ => 0

/-- The bookkeeping is in order. -/
structure Keeps (c : Config) (d : Deleter) : Prop where
  entry : ∀ thisEstimatedRows, d.pc = .dropLoop thisEstimatedRows →
    c.deleteAtRows < thisEstimatedRows →
      (findKey Prod.fst d.dropPartitionNumber d.mapPartitions).isSome = true
  alive : d.pc ≠ .dead
  inOrder : d.dropped.map Prod.fst = List.range d.dropPartitionNumber
  closed : ∀ k ∈ d.dropped.map Prod.fst, k < d.closedPartitionNumber
  recorded : d.closedRows + d.droppedRows = d.numRowsLastPartition

/-- The variables of the thread, wherever it is. -/
structure Inv (c : Config) (d : Deleter) : Prop where
  entries : d.mapPartitions.map Prod.fst =
    List.range' d.dropPartitionNumber (d.closedPartitionNumber - d.dropPartitionNumber)
  drop_le : d.dropPartitionNumber ≤ d.closedPartitionNumber
  inOrder : d.dropped.map Prod.fst = List.range d.dropPartitionNumber
  recorded : d.closedRows + d.droppedRows = d.numRowsLastPartition
  next_le : d.numRowsNextPartition ≤ d.numRowsLastPartition + c.partitionRows

variable {d : Deleter}

theorem Inv.start (c : Config) : (start c).Inv c where
  entries := rfl
  drop_le := Nat.le_refl _
  inOrder := rfl
  recorded := rfl
  next_le := by simp [Deleter.start]

/-- There is an entry as long as a closed partition is left. -/
theorem Inv.entry_iff (h : d.Inv c) :
    (findKey Prod.fst d.dropPartitionNumber d.mapPartitions).isSome = true ↔
      d.dropPartitionNumber < d.closedPartitionNumber := by
  rw [findKey_isSome_iff, h.entries, List.mem_range'_1]
  omega

/-- When every closed partition was dropped, the dropped rows are all that were in closed ones. -/
theorem Inv.droppedRows_eq (h : d.Inv c)
    (hnone : d.dropPartitionNumber = d.closedPartitionNumber) :
    d.droppedRows = d.numRowsLastPartition := by
  have hempty : d.mapPartitions = [] := by
    have hentries := h.entries
    rw [hnone, Nat.sub_self, List.range'_zero] at hentries
    exact List.map_eq_nil_iff.mp hentries
  have hrecorded := h.recorded
  simp only [closedRows, hempty, List.map_nil, List.sum_nil] at hrecorded
  omega

theorem Inv.keeps (h : d.Inv c) (halive : d.pc ≠ .dead)
    (hdrop : ∀ thisEstimatedRows, d.pc = .dropLoop thisEstimatedRows →
      c.deleteAtRows < thisEstimatedRows → d.dropPartitionNumber < d.closedPartitionNumber) :
    d.Keeps c where
  entry rows hpc hover := h.entry_iff.mpr (hdrop rows hpc hover)
  alive := halive
  inOrder := h.inOrder
  closed k hk := by
    rw [h.inOrder, List.mem_range] at hk
    exact hk.trans_le h.drop_le
  recorded := h.recorded

/-- Nothing but the place changes. -/
theorem Inv.move (h : d.Inv c) (pc : DeletePc) : { d with pc }.Inv c :=
  ⟨h.entries, h.drop_le, h.inOrder, h.recorded, h.next_le⟩

/-- A partition is closed. -/
theorem Inv.close (h : d.Inv c) {thisGlobalInserts : Int}
    (hnext : d.numRowsNextPartition ≤ thisGlobalInserts) (pc : DeletePc) :
    { d with
      pc
      mapPartitions :=
        put d.closedPartitionNumber (thisGlobalInserts - d.numRowsLastPartition) d.mapPartitions
      numRowsLastPartition := thisGlobalInserts
      numRowsNextPartition := d.numRowsNextPartition + c.partitionRows
      closedPartitionNumber := d.closedPartitionNumber + 1 }.Inv c := by
  have hle := h.drop_le
  have hnew : d.closedPartitionNumber ∉ d.mapPartitions.map Prod.fst := by
    rw [h.entries, List.mem_range'_1]
    omega
  refine ⟨?_, by simp only; omega, h.inOrder, ?_, by simp only; omega⟩
  · simp only [put, upsert_of_notMem hnew, List.map_append, h.entries, Nat.sub_add_comm hle]
    rw [List.range'_concat, Nat.one_mul, Nat.add_sub_cancel' hle]
    rfl
  · have hrecorded := h.recorded
    simp only [closedRows, put, upsert_of_notMem hnew, List.map_append, List.sum_append]
      at hrecorded ⊢
    simp only [droppedRows, List.map_cons, List.map_nil, List.sum_singleton] at hrecorded ⊢
    omega

/-- The oldest closed partition is dropped. -/
theorem Inv.drop (h : d.Inv c) {k : Nat} {rows : Int}
    (hentry : findKey Prod.fst d.dropPartitionNumber d.mapPartitions = some (k, rows))
    (pc : DeletePc) :
    { d with
      pc
      mapPartitions := eraseKey Prod.fst d.dropPartitionNumber d.mapPartitions
      dropPartitionNumber := d.dropPartitionNumber + 1
      dropped := d.dropped ++ [(d.dropPartitionNumber, rows)] }.Inv c := by
  have hlt : d.dropPartitionNumber < d.closedPartitionNumber :=
    h.entry_iff.mp (Option.isSome_iff_exists.mpr ⟨_, hentry⟩)
  have hrecorded := h.recorded
  have hentries := h.entries
  -- the entry is the first one
  obtain ⟨left, hleft⟩ : ∃ left, d.closedPartitionNumber - d.dropPartitionNumber = left + 1 :=
    ⟨d.closedPartitionNumber - d.dropPartitionNumber - 1, by omega⟩
  rw [hleft, List.range'_succ] at hentries
  obtain ⟨first, rest, hmap, hfirst, hrest⟩ := List.map_eq_cons_iff.mp hentries
  obtain rfl : first = (k, rows) := by simpa [findKey, hmap, hfirst] using hentry
  obtain rfl : k = d.dropPartitionNumber := hfirst
  have herase : eraseKey Prod.fst d.dropPartitionNumber d.mapPartitions = rest := by
    simp [eraseKey, hmap]
  refine ⟨?_, by simp only; omega, ?_, ?_, h.next_le⟩
  · simp only [herase, hrest]
    rw [show d.closedPartitionNumber - (d.dropPartitionNumber + 1) = left by omega]
  · simp only [List.map_append, h.inOrder, List.range_succ]
    rfl
  · simp only [closedRows, hmap, List.map_cons, List.sum_cons] at hrecorded
    simp only [closedRows, herase, droppedRows, List.map_append, List.sum_append, List.map_cons,
      List.map_nil, List.sum_singleton] at hrecorded ⊢
    omega

end Deleter

/-! ## Runs -/

namespace Partitions

/-- The rows a writer has in `globalInserts` and not yet in `globalEstimatedRows`. -/
def pending (c : Config) : WriterPc → Int
  | .countRows _ => c.documentsPerInsert
  | _ => 0

/-- What the delete thread has read of `globalEstimatedRows` before it read `globalInserts`, and
when it closes a partition. -/
def Read (s : State n) : Prop :=
  (∀ thisEstimatedRows, s.deleter.pc = .readInserts thisEstimatedRows →
    thisEstimatedRows + s.deleter.droppedRows ≤ s.globalInserts) ∧
  ∀ thisEstimatedRows thisGlobalInserts,
    s.deleter.pc = .addPartition thisEstimatedRows thisGlobalInserts →
      s.deleter.numRowsNextPartition ≤ thisGlobalInserts

structure Inv (c : Config) (s : State n) : Prop where
  keeps : s.deleter.Keeps c
  deleter : s.deleter.Inv c
  counted : s.counted + ∑ i, pending c (s.writer i) = s.globalInserts
  estimated : s.globalEstimatedRows + s.deleter.droppedRows = s.counted + s.deleter.uncounted
  read : Read s
  whole : s.deleter.pc ≠ .remove ∧ s.deleter.pc ≠ .subtractRemoved

/-- The steps that go well: when the last closed partition has been dropped, the writers have
counted no more than `deleteAtRows` rows behind it. -/
def Fine (c : Config) (e : Event n) (s : State n) : Prop :=
  match e with
  | .delete _ => ∀ rows, s.deleter.pc = .subtractDropped rows →
      s.deleter.dropPartitionNumber = s.deleter.closedPartitionNumber →
        s.counted - s.deleter.numRowsLastPartition ≤ c.deleteAtRows
  | _ => True

theorem inv_start (c : Config) : Inv c (start c n) where
  keeps := (Deleter.Inv.start c).keeps (fun h => nomatch h) fun _ h => nomatch h
  deleter := Deleter.Inv.start c
  counted := by simp [start, pending]
  estimated := rfl
  read := ⟨fun _ h => (nomatch h), fun _ _ h => (nomatch h)⟩
  whole := ⟨fun h => (nomatch h), fun h => (nomatch h)⟩

theorem pending_nonneg (c : Config) (pc : WriterPc) : 0 ≤ pending c pc := by
  unfold pending
  split <;> omega

theorem pending_nextRound (c : Config) (rounds : Nat) : pending c (nextRound rounds) = 0 := by
  cases rounds <;> rfl

theorem pending_waitOn (c : Config) (thisEstimatedRows : Int) (rounds : Nat) :
    pending c (waitOn c thisEstimatedRows rounds) = 0 := by
  unfold waitOn
  split <;> rfl

theorem Inv.counted_le (h : Inv c s) : s.counted ≤ s.globalInserts := by
  have hcounted := h.counted
  have hpending := Finset.sum_nonneg fun i (_ : i ∈ Finset.univ) => pending_nonneg c (s.writer i)
  omega

/-- A writer moves: it counts rows into `globalInserts`, or rows it has there into
`globalEstimatedRows`. -/
theorem Inv.writer_at (h : Inv c s) {i : Fin n} {pc : WriterPc} (rows : Int)
    (hinserts : s.globalInserts ≤ s'.globalInserts) (hwriter : s'.writer = s.writer)
    (hdeleter : s'.deleter = s.deleter)
    (hrows : s'.globalEstimatedRows = s.globalEstimatedRows + rows)
    (hcounted : s'.counted = s.counted + rows)
    (hmove : s.globalInserts + rows + pending c pc = s'.globalInserts + pending c (s.writer i)) :
    Inv c (s'.at i pc) where
  keeps := by
    simp only [State.at, hdeleter]
    exact h.keeps
  deleter := by
    simp only [State.at, hdeleter]
    exact h.deleter
  counted := by
    have hsum := sum_update (pending c) s.writer i pc
    have hold := h.counted
    simp only [State.at, hwriter]
    omega
  estimated := by
    have hold := h.estimated
    simp only [State.at, hdeleter]
    omega
  read := by
    simp only [Read, State.at, hdeleter]
    exact ⟨fun rows hpc => (h.read.1 rows hpc).trans hinserts, h.read.2⟩
  whole := by
    simp only [State.at, hdeleter]
    exact h.whole

/-- A writer moves, and no counter does. -/
theorem Inv.writer_move (h : Inv c s) {i : Fin n} {pc : WriterPc}
    (hinserts : s'.globalInserts = s.globalInserts) (hwriter : s'.writer = s.writer)
    (hdeleter : s'.deleter = s.deleter)
    (hrows : s'.globalEstimatedRows = s.globalEstimatedRows) (hcounted : s'.counted = s.counted)
    (hold : pending c (s.writer i) = 0) (hnew : pending c pc = 0) : Inv c (s'.at i pc) :=
  h.writer_at 0 hinserts.ge hwriter hdeleter (by omega) (by omega) (by omega)

theorem Inv.writer (h : Inv c s) {i : Fin n} {throws : Bool}
    (hstep : stepWriter c i throws s = some s') : Inv c s' := by
  unfold stepWriter at hstep
  cases hpc : s.writer i with
  | waiting | stopped => simp [hpc] at hstep
  | readRows rounds | pause rounds =>
    simp only [hpc, Option.some.injEq] at hstep
    subst hstep
    exact h.writer_move rfl rfl rfl rfl rfl (by rw [hpc]; rfl) (pending_waitOn c _ _)
  | takeId rounds =>
    simp only [hpc, Option.some.injEq] at hstep
    subst hstep
    exact h.writer_move rfl rfl rfl rfl rfl (by rw [hpc]; rfl) rfl
  | insert rounds thisId =>
    simp only [hpc] at hstep
    split at hstep
    case isTrue =>
      cases hstep
      exact h.writer_move rfl rfl rfl rfl rfl (by rw [hpc]; rfl) rfl
    case isFalse =>
      cases hstep
      exact h.writer_move rfl rfl rfl rfl rfl (by rw [hpc]; rfl) rfl
  | countInserts rounds =>
    simp only [hpc, Option.some.injEq] at hstep
    subst hstep
    refine h.writer_at 0 ?_ rfl rfl (by simp) (by simp) ?_
    · simp
    · simp [hpc, pending]
  | countRows rounds =>
    simp only [hpc, Option.some.injEq] at hstep
    subst hstep
    refine h.writer_at c.documentsPerInsert (le_refl _) rfl rfl rfl rfl ?_
    simp [hpc, pending]
  | check rounds =>
    simp only [hpc, Option.some.injEq] at hstep
    subst hstep
    refine h.writer_move rfl rfl rfl rfl rfl (by rw [hpc]; rfl) ?_
    split
    · rfl
    · exact pending_nextRound c rounds
  | exit =>
    simp only [hpc, Option.some.injEq] at hstep
    subst hstep
    refine h.writer_move rfl rfl rfl rfl rfl (by rw [hpc]; rfl) ?_
    split <;> rfl
  | last =>
    simp only [hpc, Option.some.injEq] at hstep
    subst hstep
    exact h.writer_move rfl rfl rfl rfl rfl (by rw [hpc]; rfl) rfl

/-- The delete thread goes on, and its books and the estimate agree. -/
theorem Inv.delete_at (h : Inv c s) {d : Deleter} {globalEstimatedRows : Int} (hd : d.Inv c)
    (hestimated : globalEstimatedRows + d.droppedRows = s.counted + d.uncounted)
    (hread : Read { s with deleter := d })
    (hwhole : d.pc ≠ .remove ∧ d.pc ≠ .subtractRemoved ∧ d.pc ≠ .dead)
    (hdrop : ∀ thisEstimatedRows, d.pc = .dropLoop thisEstimatedRows →
      c.deleteAtRows < thisEstimatedRows → d.dropPartitionNumber < d.closedPartitionNumber) :
    Inv c { s with globalEstimatedRows, deleter := d } where
  keeps := hd.keeps hwhole.2.2 hdrop
  deleter := hd
  counted := h.counted
  estimated := hestimated
  read := hread
  whole := ⟨hwhole.1, hwhole.2.1⟩

/-- What was read when the pass began cannot be too much without a partition to drop: the rows that
are not in a closed partition are fewer than `partitionRows`. -/
theorem Inv.first_drop (h : Inv c s) (hat : c.partitionRows ≤ c.deleteAtRows)
    {thisEstimatedRows : Int} (hpc : s.deleter.pc = .readInserts thisEstimatedRows)
    (hnext : ¬ s.deleter.numRowsNextPartition ≤ s.globalInserts)
    (hover : c.deleteAtRows < thisEstimatedRows) :
    s.deleter.dropPartitionNumber < s.deleter.closedPartitionNumber := by
  by_contra hnone
  have hdropped := h.deleter.droppedRows_eq (Nat.le_antisymm h.deleter.drop_le (not_lt.mp hnone))
  have hread := h.read.1 _ hpc
  have hle := h.deleter.next_le
  omega

/-- After a drop the rest of the estimate is over `deleteAtRows` exactly when so many rows were
counted, if no closed partition is left. -/
theorem Inv.after_drop (h : Inv c s) {rows : Int} (hpc : s.deleter.pc = .subtractDropped rows)
    (hnone : s.deleter.dropPartitionNumber = s.deleter.closedPartitionNumber) :
    s.globalEstimatedRows - rows = s.counted - s.deleter.numRowsLastPartition := by
  have hdropped := h.deleter.droppedRows_eq hnone
  have hestimated := h.estimated
  simp only [Deleter.uncounted, hpc] at hestimated
  omega

/-- The delete thread only moves, away from a drop. -/
theorem Inv.delete_move (h : Inv c s) {pc : DeletePc} (hold : s.deleter.uncounted = 0)
    (hnew : { s.deleter with pc }.uncounted = 0) (hread : Read (s.delete pc))
    (hwhole : pc ≠ .remove ∧ pc ≠ .subtractRemoved ∧ pc ≠ .dead)
    (hdrop : ∀ thisEstimatedRows, pc = .dropLoop thisEstimatedRows →
      c.deleteAtRows < thisEstimatedRows →
        s.deleter.dropPartitionNumber < s.deleter.closedPartitionNumber) :
    Inv c (s.delete pc) := by
  refine h.delete_at (h.deleter.move pc) ?_ hread hwhole hdrop
  rw [hnew]
  have hestimated := h.estimated
  rw [hold] at hestimated
  exact hestimated

/-- Where nothing is read before `globalInserts`. -/
theorem read_of_ne {s : State n} (hinserts : ∀ rows, s.deleter.pc ≠ .readInserts rows)
    (hclose : ∀ rows inserts, s.deleter.pc ≠ .addPartition rows inserts) : Read s :=
  ⟨fun rows hpc => absurd hpc (hinserts rows),
    fun rows inserts hpc => absurd hpc (hclose rows inserts)⟩

theorem Inv.delete (h : Inv c s) (hon : c.partitioning = true)
    (hat : c.partitionRows ≤ c.deleteAtRows) {throws : Bool} (hfine : Fine c (.delete throws) s)
    (hstep : stepDelete c throws s = some s') : Inv c s' := by
  unfold stepDelete at hstep
  cases hpc : s.deleter.pc with
  | loop =>
    simp only [hpc, Option.some.injEq] at hstep
    subst hstep
    have hold : s.deleter.uncounted = 0 := by simp [Deleter.uncounted, hpc]
    split
    · exact h.delete_move hold rfl (read_of_ne (by simp) (by simp)) (by simp) (by simp)
    · exact h.delete_move hold rfl (read_of_ne (by simp) (by simp)) (by simp) (by simp)
  | readRows =>
    simp only [hpc, hon, if_true, Option.some.injEq] at hstep
    subst hstep
    have hold : s.deleter.uncounted = 0 := by simp [Deleter.uncounted, hpc]
    refine h.delete_move hold rfl ⟨?_, by simp⟩ (by simp) (by simp)
    intro rows hrows
    cases hrows
    -- the estimate has no more rows than were counted, and these are in `globalInserts`
    have hestimated := h.estimated
    have hinserts := h.counted_le
    simp only [State.delete, Deleter.droppedRows] at hestimated ⊢
    omega
  | remove => exact absurd hpc h.whole.1
  | subtractRemoved => exact absurd hpc h.whole.2
  | readInserts thisEstimatedRows =>
    simp only [hpc, Option.some.injEq] at hstep
    subst hstep
    have hold : s.deleter.uncounted = 0 := by simp [Deleter.uncounted, hpc]
    split
    case isTrue hnext =>
      refine h.delete_move hold rfl ⟨by simp, ?_⟩ (by simp) (by simp)
      intro rows inserts hrows
      cases hrows
      exact hnext
    case isFalse hnext =>
      refine h.delete_move hold rfl (read_of_ne (by simp) (by simp)) (by simp) ?_
      intro rows hrows hover
      cases hrows
      exact h.first_drop hat hpc hnext hover
  | addPartition thisEstimatedRows thisGlobalInserts =>
    simp only [hpc, Option.some.injEq] at hstep
    subst hstep
    have hestimated := h.estimated
    simp only [Deleter.uncounted, hpc] at hestimated
    refine h.delete_at (h.deleter.close (h.read.2 _ _ hpc) _) hestimated
      (read_of_ne (by simp) (by simp)) (by simp) fun rows _ _ => ?_
    exact Nat.lt_succ_of_le h.deleter.drop_le
  | dropLoop thisEstimatedRows =>
    have hestimated := h.estimated
    simp only [Deleter.uncounted, hpc] at hestimated
    simp only [hpc] at hstep
    split at hstep
    case isTrue hover =>
      obtain ⟨⟨k, rows⟩, hentry⟩ := Option.isSome_iff_exists.mp (h.keeps.entry _ hpc hover)
      simp only [hentry, Option.some.injEq] at hstep
      subst hstep
      refine h.delete_at (h.deleter.drop hentry _) ?_ (read_of_ne (by simp) (by simp))
        (by simp) (by simp)
      simp only [Deleter.droppedRows, Deleter.uncounted, List.map_append, List.map_cons,
        List.map_nil, List.sum_append, List.sum_singleton] at hestimated ⊢
      omega
    case isFalse =>
      cases hstep
      have hold : s.deleter.uncounted = 0 := by simp [Deleter.uncounted, hpc]
      exact h.delete_move hold rfl (read_of_ne (by simp) (by simp)) (by simp) (by simp)
  | subtractDropped rows =>
    simp only [hpc, Option.some.injEq] at hstep
    subst hstep
    have hestimated := h.estimated
    simp only [Deleter.uncounted, hpc] at hestimated
    refine h.delete_at (h.deleter.move _) ?_ (read_of_ne (by simp) (by simp)) (by simp) ?_
    · simp only [Deleter.droppedRows, Deleter.uncounted] at hestimated ⊢
      omega
    · intro rest hrest hover
      cases hrest
      refine lt_of_le_of_ne h.deleter.drop_le fun hnone => ?_
      have hafter := h.after_drop hpc hnone
      have hfew := hfine rows hpc hnone
      omega
  | finished | dead => simp [hpc] at hstep

theorem Inv.step {e : Event n} (h : Inv c s) (hon : c.partitioning = true)
    (hat : c.partitionRows ≤ c.deleteAtRows) (hfine : Fine c e s)
    (hstep : step c e s = some s') : Inv c s' := by
  cases e with
  | start i =>
    simp only [MongoIibench.step] at hstep
    split at hstep
    case isTrue hpc =>
      cases hstep
      exact h.writer_move rfl rfl rfl rfl rfl (by rw [hpc]; rfl) (pending_nextRound c _)
    case isFalse => cases hstep
  | writer i throws => exact h.writer hstep
  | delete throws => exact h.delete hon hat hfine hstep
  | timeUp =>
    cases hstep
    exact ⟨h.keeps, h.deleter, h.counted, h.estimated, h.read, h.whole⟩

/-- With too many rows counted meanwhile there is nothing to drop. -/
theorem Inv.break_ {e : Event n} (h : Inv c s) (hbad : ¬ Fine c e s) :
    ∃ s', MongoIibench.step c e s = some s' ∧ ¬ s'.deleter.Keeps c := by
  cases e with
  | start | writer | timeUp => exact absurd trivial hbad
  | delete throws =>
    simp only [Fine, not_forall, not_le] at hbad
    obtain ⟨rows, hpc, hnone, hmany⟩ := hbad
    refine ⟨_, by simp only [MongoIibench.step, stepDelete, hpc]; rfl, fun hkeeps => ?_⟩
    have hafter := h.after_drop hpc hnone
    have hentry := hkeeps.entry _ rfl (show c.deleteAtRows < s.globalEstimatedRows - rows by omega)
    have hlt := h.deleter.entry_iff.mp hentry
    omega

end Partitions

/-- **The bookkeeping is in order all along a run exactly when, each time the last closed partition
has been dropped, the writers have counted no more than `deleteAtRows` rows behind it.** -/
theorem keeps_iff (c : Config) (hon : c.partitioning = true)
    (hat : c.partitionRows ≤ c.deleteAtRows) (es : List (Event n)) :
    AllAlong c (fun s => s.deleter.Keeps c) es ↔
      AllSteps (step c) (Partitions.Fine c) es (start c n) :=
  prefixes_iff (W := fun _ => True) (J := Partitions.Inv c) Partitions.Inv.keeps
    (fun h _ => h.step hon hat) (fun h _ => h.break_) (Partitions.inv_start c) fun _ _ => trivial

/-- A pass over an empty collection. -/
theorem keeps_empty : AllAlong ⟨4, 2, true, 1, 1, 100, 300⟩
    (fun s : State 1 => s.deleter.Keeps ⟨4, 2, true, 1, 1, 100, 300⟩)
    [.start 0, .delete false, .delete false] :=
  (keeps_iff _ rfl (by decide) _).mpr ⟨trivial, fun _ h => by
    cases h
    exact ⟨nofun, fun _ h => by
      cases h
      exact ⟨nofun, fun _ _ => trivial⟩⟩⟩

/-- A batch comes between the drop of the first partition and what is subtracted for it. -/
theorem not_keeps_meanwhile : ¬ AllAlong ⟨4, 2, true, 1, 1, 100, 300⟩
    (fun s : State 1 => s.deleter.Keeps ⟨4, 2, true, 1, 1, 100, 300⟩)
    (.start 0 :: List.replicate 6 (.writer 0 false) ++ List.replicate 5 (.delete false) ++
      List.replicate 5 (.writer 0 false) ++ List.replicate 2 (.delete false)) := by
  intro h
  exact (h _ _ List.prefix_rfl rfl).alive (by decide)

end TokuQa.MongoIibench
