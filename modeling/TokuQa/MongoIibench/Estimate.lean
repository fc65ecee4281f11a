import Mathlib.Algebra.BigOperators.Group.List.Basic
import Mathlib.Data.Int.Interval
import TokuQa.MongoIibench.Machine

/-!
# The estimate and the collection

Without partitions the delete thread removes `deleteRowsPerCall` consecutive `_id`s at a time, from 0
on, and subtracts as many rows from `globalEstimatedRows`. The first batch has the `_id`s from
`documentsPerInsert` on, as `addAndGet` returns the counter it has moved; so the first remove finds
fewer documents than it subtracts, and from then on the estimate is too low.
-/

set_option autoImplicit false

namespace TokuQa.MongoIibench

open TokuQa.Lib

variable {n : Nat} {c : Config} {s s' : State n}

/-- An insert has changed the collection and not yet every counter. -/
def WriterPc.Inserting : WriterPc → Prop
  | .countInserts _ => True
  | .countRows _ => True
  | _ => False

/-- No insert and no delete is in progress. -/
def State.Quiet (s : State n) : Prop :=
  (∀ i, ¬ (s.writer i).Inserting) ∧ s.deleter.pc ≠ .subtractRemoved

structure Exact (c : Config) (s : State n) : Prop where
  estimate : s.Quiet → s.globalEstimatedRows = s.documents.card
  removes : ∀ k ∈ s.deleter.removed, (k : Int) = c.deleteRowsPerCall

/-- The removes whose rows have been subtracted. -/
def Deleter.subtracted (d : Deleter) : Int :=
  match d.pc with
  | .subtractRemoved => d.removed.length - 1
  | _ => d.removed.length

theorem Deleter.subtracted_of_ne {d : Deleter} (h : d.pc ≠ .subtractRemoved) :
    d.subtracted = d.removed.length := by
  unfold subtracted
  split
  case h_1 hpc => exact absurd hpc h
  case h_2 => rfl

namespace Estimate

/-- The documents of a writer that `globalEstimatedRows` does not have. -/
def pending (c : Config) : WriterPc → Int
  | .countInserts _ => c.documentsPerInsert
  | .countRows _ => c.documentsPerInsert
  | _ => 0

/-- The `_id`s a writer is about to insert are new: below the counter, not in the collection. -/
def Fresh (c : Config) (s : State n) (pc : WriterPc) : Prop :=
  ∀ rounds thisId, pc = .insert rounds thisId →
    c.documentsPerInsert ≤ thisId ∧ thisId ≤ s.globalIdValue ∧
      Disjoint s.documents (slice c thisId)

/-- Two writers insert different `_id`s. -/
def Apart (c : Config) (pc pc' : WriterPc) : Prop :=
  ∀ rounds rounds' thisId thisId', pc = .insert rounds thisId → pc' = .insert rounds' thisId' →
    Disjoint (slice c thisId) (slice c thisId')

/-- The documents were inserted once each, under `_id`s that were given out. -/
structure Ids (c : Config) (s : State n) : Prop where
  below : ∀ id ∈ s.documents, 1 ≤ id ∧ id < s.globalIdValue + c.documentsPerInsert
  nonneg : 0 ≤ s.globalIdValue
  fresh : ∀ i, Fresh c s (s.writer i)
  apart : ∀ i j, i ≠ j → Apart c (s.writer i) (s.writer j)

/-- What the collection and the estimate are, whatever the removes found. -/
structure Accounts (c : Config) (s : State n) : Prop where
  documents : (s.documents.card : Int) + (s.deleter.removed.map Nat.cast).sum =
    s.counted + ∑ i, pending c (s.writer i)
  estimate : s.globalEstimatedRows + c.deleteRowsPerCall * s.deleter.subtracted = s.counted
  floor : s.deleter.deleteFloor = c.deleteRowsPerCall * s.deleter.subtracted

/-- The delete thread is not at a partition. -/
def Whole (d : Deleter) : Prop :=
  match d.pc with
  | .loop | .readRows | .remove | .finished => True
  | .subtractRemoved => d.removed ≠ []
  | _ => False

structure Inv (c : Config) (s : State n) : Prop where
  ids : Ids c s
  accounts : Accounts c s
  whole : Whole s.deleter

/-! ## The `_id`s -/

theorem ids_start (c : Config) : Ids c (start c n) where
  below _ h := absurd h (Finset.notMem_empty _)
  nonneg := le_refl _
  fresh _ _ _ h := nomatch h
  apart _ _ _ _ _ _ _ h := nomatch h

theorem Apart.symm {pc pc' : WriterPc} (h : Apart c pc pc') : Apart c pc' pc :=
  fun rounds rounds' thisId thisId' hpc hpc' =>
    (h rounds' rounds thisId' thisId hpc' hpc).symm

/-- A writer moves, with no `_id`s of its own now. -/
theorem Ids.move (h : Ids c s) {i : Fin n} {pc : WriterPc} (hdocuments : s'.documents = s.documents)
    (hid : s'.globalIdValue = s.globalIdValue) (hwriter : s'.writer = s.writer)
    (hpc : ∀ rounds thisId, pc ≠ .insert rounds thisId) : Ids c (s'.at i pc) where
  below := by
    simp only [State.at, hdocuments, hid]
    exact h.below
  nonneg := by
    simp only [State.at, hid]
    exact h.nonneg
  fresh := by
    simp only [State.at, Fresh, hdocuments, hid, hwriter]
    refine forall_update (P := fun _ pc => Fresh c s pc) h.fresh fun rounds thisId hnew => ?_
    exact absurd hnew (hpc rounds thisId)
  apart := by
    simp only [State.at, hwriter]
    refine pairwise_update (R := Apart c) Apart.symm h.apart fun j _ rounds _ thisId _ hnew _ => ?_
    exact absurd hnew (hpc rounds thisId)

/-- A writer takes `_id`s. -/
theorem Ids.takeId (h : Ids c s) {i : Fin n} {rounds : Nat} :
    Ids c ({ s with globalIdValue := s.globalIdValue + c.documentsPerInsert }.at i
      (.insert rounds (s.globalIdValue + c.documentsPerInsert))) where
  below id hid := by
    obtain ⟨hpos, hlt⟩ := h.below id hid
    simp only [State.at]
    omega
  nonneg := by
    have hnonneg := h.nonneg
    simp only [State.at]
    omega
  fresh := by
    refine forall_update (P := fun _ pc => Fresh c _ pc) ?_ ?_
    · intro j rounds' thisId hpc
      obtain ⟨hle, hid, hnew⟩ := h.fresh j rounds' thisId hpc
      refine ⟨hle, ?_, hnew⟩
      simp only [State.at]
      omega
    · intro rounds' thisId hpc
      cases hpc
      have hnonneg := h.nonneg
      refine ⟨by omega, le_refl _, Finset.disjoint_left.mpr fun id hid hslice => ?_⟩
      have hlt := (h.below id hid).2
      rw [mem_slice] at hslice
      omega
  apart := by
    refine pairwise_update (R := Apart c) Apart.symm h.apart ?_
    intro j _ _ rounds' thisId thisId' hpc hpc'
    cases hpc
    have hid := (h.fresh j rounds' thisId' hpc').2.1
    refine Finset.disjoint_left.mpr fun id hnew hold => ?_
    rw [mem_slice] at hnew hold
    omega

/-- A writer inserts its `_id`s. -/
theorem Ids.insert (h : Ids c s) {i : Fin n} {rounds : Nat} {thisId : Int}
    (hpc : s.writer i = .insert rounds thisId) :
    Ids c ({ s with documents := s.documents ∪ slice c thisId }.at i (.countInserts rounds)) where
  below id hid := by
    rcases Finset.mem_union.mp hid with hold | hnew
    · exact h.below id hold
    · obtain ⟨hle, hcounter, -⟩ := h.fresh i rounds thisId hpc
      rw [mem_slice] at hnew
      simp only [State.at]
      omega
  nonneg := h.nonneg
  fresh := by
    intro j rounds' thisId' hpc'
    by_cases hj : j = i
    · subst hj
      simp only [State.at, Function.update_self] at hpc'
      cases hpc'
    · simp only [State.at, Function.update_of_ne hj] at hpc'
      obtain ⟨hle, hcounter, hnew⟩ := h.fresh j rounds' thisId' hpc'
      have happart := h.apart i j (Ne.symm hj) rounds rounds' thisId thisId' hpc hpc'
      exact ⟨hle, hcounter, Finset.disjoint_union_left.mpr ⟨hnew, happart⟩⟩
  apart := pairwise_update (R := Apart c) Apart.symm h.apart fun _ _ _ _ _ _ hnew _ => nomatch hnew

/-- Documents are deleted. -/
theorem Ids.delete (h : Ids c s) (hdocuments : s'.documents ⊆ s.documents)
    (hid : s'.globalIdValue = s.globalIdValue) (hwriter : s'.writer = s.writer) : Ids c s' where
  below id hmem := by
    rw [hid]
    exact h.below id (hdocuments hmem)
  nonneg := by
    rw [hid]
    exact h.nonneg
  fresh i rounds thisId hpc := by
    rw [hwriter] at hpc
    obtain ⟨hle, hcounter, hnew⟩ := h.fresh i rounds thisId hpc
    rw [hid]
    exact ⟨hle, hcounter, Finset.disjoint_of_subset_left hdocuments hnew⟩
  apart := by
    rw [hwriter]
    exact h.apart

/-- **The first remove finds too few**: it looks for `_id`s from 0 on, and 0 is never given out. -/
theorem Ids.first_remove (h : Ids c s) (hfloor : s.deleter.deleteFloor = 0)
    (hpos : 1 ≤ c.deleteRowsPerCall) : ((s.removing c).card : Int) < c.deleteRowsPerCall := by
  have hsub : s.removing c ⊆ Finset.Ico 1 c.deleteRowsPerCall := by
    intro id hid
    rw [State.removing, Finset.mem_filter, hfloor] at hid
    rw [Finset.mem_Ico]
    have hone := (h.below id hid.1).1
    omega
  have hcard := Finset.card_le_card hsub
  rw [Int.card_Ico] at hcard
  omega

/-! ## The counters -/

theorem inv_start (c : Config) : Inv c (start c n) where
  ids := ids_start c
  accounts := ⟨by simp [start, Deleter.start, pending], by simp [start, Deleter.start,
    Deleter.subtracted], by simp [start, Deleter.start, Deleter.subtracted]⟩
  whole := trivial

theorem pending_nextRound (c : Config) (rounds : Nat) : pending c (nextRound rounds) = 0 := by
  cases rounds <;> rfl

theorem nextRound_ne (rounds rounds' : Nat) (thisId : Int) :
    nextRound rounds ≠ .insert rounds' thisId := by
  cases rounds <;> nofun

theorem pending_waitOn (c : Config) (thisEstimatedRows : Int) (rounds : Nat) :
    pending c (waitOn c thisEstimatedRows rounds) = 0 := by
  unfold waitOn
  split <;> rfl

theorem waitOn_ne (c : Config) (thisEstimatedRows : Int) (rounds rounds' : Nat) (thisId : Int) :
    waitOn c thisEstimatedRows rounds ≠ .insert rounds' thisId := by
  unfold waitOn
  split <;> nofun

/-- A writer moves: it has new documents pending, or counts some. -/
theorem Accounts.writer_at (h : Accounts c s) {i : Fin n} {pc : WriterPc} (rows : Int)
    (hwriter : s'.writer = s.writer) (hdeleter : s'.deleter = s.deleter)
    (hrows : s'.globalEstimatedRows = s.globalEstimatedRows + rows)
    (hcounted : s'.counted = s.counted + rows)
    (hmove : (s'.documents.card : Int) + pending c (s.writer i) =
      s.documents.card + rows + pending c pc) : Accounts c (s'.at i pc) where
  documents := by
    have hsum := sum_update (pending c) s.writer i pc
    have hold := h.documents
    simp only [State.at, hwriter, hdeleter]
    omega
  estimate := by
    have hold := h.estimate
    simp only [State.at, hdeleter]
    omega
  floor := by
    simp only [State.at, hdeleter]
    exact h.floor

/-- A writer moves, and neither the collection nor a counter changes. -/
theorem Inv.move (h : Inv c s) {i : Fin n} {pc : WriterPc}
    (hdocuments : s'.documents = s.documents) (hid : s'.globalIdValue = s.globalIdValue)
    (hwriter : s'.writer = s.writer) (hdeleter : s'.deleter = s.deleter)
    (hrows : s'.globalEstimatedRows = s.globalEstimatedRows) (hcounted : s'.counted = s.counted)
    (hpc : ∀ rounds thisId, pc ≠ .insert rounds thisId)
    (hpending : pending c pc = pending c (s.writer i)) : Inv c (s'.at i pc) where
  ids := h.ids.move hdocuments hid hwriter hpc
  accounts :=
    h.accounts.writer_at 0 hwriter hdeleter (by omega) (by omega) (by rw [hdocuments]; omega)
  whole := by
    simp only [State.at, hdeleter]
    exact h.whole

theorem Inv.writer (h : Inv c s) {i : Fin n} {throws : Bool}
    (hstep : stepWriter c i throws s = some s') : Inv c s' := by
  unfold stepWriter at hstep
  cases hpc : s.writer i with
  | waiting | stopped => simp [hpc] at hstep
  | readRows rounds | pause rounds =>
    simp only [hpc, Option.some.injEq] at hstep
    subst hstep
    refine h.move rfl rfl rfl rfl rfl rfl (waitOn_ne c _ _) ?_
    rw [hpc, pending_waitOn]
    rfl
  | takeId rounds =>
    simp only [hpc, Option.some.injEq] at hstep
    subst hstep
    refine ⟨h.ids.takeId, h.accounts.writer_at 0 rfl rfl (by simp) (by simp) ?_, h.whole⟩
    rw [hpc]
    simp [pending]
  | insert rounds thisId =>
    simp only [hpc] at hstep
    split at hstep
    case isTrue =>
      cases hstep
      refine h.move rfl rfl rfl rfl rfl rfl nofun ?_
      rw [hpc]
      rfl
    case isFalse =>
      cases hstep
      refine ⟨h.ids.insert hpc, h.accounts.writer_at 0 rfl rfl (by simp) (by simp) ?_, h.whole⟩
      -- the batch is new to the collection
      have hnew := (h.ids.fresh i rounds thisId hpc).2.2
      rw [Finset.card_union_of_disjoint hnew, card_slice, hpc]
      simp [pending]
  | countInserts rounds =>
    simp only [hpc, Option.some.injEq] at hstep
    subst hstep
    refine h.move rfl rfl rfl rfl rfl rfl nofun ?_
    rw [hpc]
    rfl
  | countRows rounds =>
    simp only [hpc, Option.some.injEq] at hstep
    subst hstep
    refine ⟨h.ids.move rfl rfl rfl nofun,
      h.accounts.writer_at c.documentsPerInsert rfl rfl rfl rfl ?_, h.whole⟩
    rw [hpc]
    simp [pending]
  | check rounds =>
    simp only [hpc, Option.some.injEq] at hstep
    subst hstep
    split
    · refine h.move rfl rfl rfl rfl rfl rfl nofun ?_
      rw [hpc]
      rfl
    · refine h.move rfl rfl rfl rfl rfl rfl (nextRound_ne _) ?_
      rw [hpc, pending_nextRound]
      rfl
  | exit =>
    simp only [hpc, Option.some.injEq] at hstep
    subst hstep
    split
    · refine h.move rfl rfl rfl rfl rfl rfl nofun ?_
      rw [hpc]
      rfl
    · refine h.move rfl rfl rfl rfl rfl rfl nofun ?_
      rw [hpc]
      rfl
  | last =>
    simp only [hpc, Option.some.injEq] at hstep
    subst hstep
    refine h.move rfl rfl rfl rfl rfl rfl nofun ?_
    rw [hpc]
    rfl

/-- The delete thread only moves. -/
theorem Inv.delete_move (h : Inv c s) {pc : DeletePc} (hpc : s.deleter.pc ≠ .subtractRemoved)
    (hnew : pc ≠ .subtractRemoved) (hwhole : Whole { s.deleter with pc }) : Inv c (s.delete pc) where
  ids := h.ids.delete (Finset.Subset.refl _) rfl rfl
  accounts := by
    have hsame : { s.deleter with pc }.subtracted = s.deleter.subtracted := by
      rw [Deleter.subtracted_of_ne hpc, Deleter.subtracted_of_ne hnew]
    refine ⟨h.accounts.documents, ?_, ?_⟩
    · simp only [State.delete, hsame]
      exact h.accounts.estimate
    · simp only [State.delete, hsame]
      exact h.accounts.floor
  whole := hwhole

/-- A remove: what it finds is gone, and has yet to be subtracted. -/
theorem Inv.remove (h : Inv c s) (hpc : s.deleter.pc = .remove) : Inv c { s with
    documents := s.documents \ s.removing c
    deleter := { s.deleter with
      pc := .subtractRemoved
      removed := s.deleter.removed ++ [(s.removing c).card] } } where
  ids := h.ids.delete Finset.sdiff_subset rfl rfl
  accounts := by
    have hold : s.deleter.subtracted = s.deleter.removed.length :=
      Deleter.subtracted_of_ne (by rw [hpc]; nofun)
    have hdocuments := h.accounts.documents
    have hestimate := h.accounts.estimate
    have hfloor := h.accounts.floor
    rw [hold] at hestimate hfloor
    have hsub : s.removing c ⊆ s.documents := Finset.filter_subset _ _
    have hcard := Finset.card_sdiff_add_card_eq_card hsub
    refine ⟨?_, ?_, ?_⟩
    · simp only [List.map_append, List.sum_append, List.map_cons, List.map_nil, List.sum_singleton]
      omega
    · simpa [Deleter.subtracted] using hestimate
    · simpa [Deleter.subtracted] using hfloor
  whole := by simp [Whole]

/-- The rows of a remove are subtracted. -/
theorem Inv.subtract (h : Inv c s) (hpc : s.deleter.pc = .subtractRemoved) : Inv c { s with
    globalEstimatedRows := s.globalEstimatedRows - c.deleteRowsPerCall
    deleter := { s.deleter with
      pc := .readRows
      deleteFloor := s.deleter.deleteFloor + c.deleteRowsPerCall } } where
  ids := h.ids.delete (Finset.Subset.refl _) rfl rfl
  accounts := by
    have hestimate := h.accounts.estimate
    have hfloor := h.accounts.floor
    simp only [Deleter.subtracted, hpc, Int.mul_sub, Int.mul_one] at hestimate hfloor
    refine ⟨h.accounts.documents, ?_, ?_⟩
    · simp only [Deleter.subtracted]
      omega
    · simp only [Deleter.subtracted]
      omega
  whole := trivial

theorem Inv.delete (h : Inv c s) (hoff : c.partitioning = false) {throws : Bool}
    (hstep : stepDelete c throws s = some s') : Inv c s' := by
  have hwhole := h.whole
  unfold stepDelete at hstep
  cases hpc : s.deleter.pc with
  | loop =>
    simp only [hpc, Option.some.injEq] at hstep
    subst hstep
    split
    · exact h.delete_move (by rw [hpc]; nofun) nofun trivial
    · exact h.delete_move (by rw [hpc]; nofun) nofun trivial
  | readRows =>
    simp only [hpc, hoff, Bool.false_eq_true, if_false, Option.some.injEq] at hstep
    subst hstep
    split
    · exact h.delete_move (by rw [hpc]; nofun) nofun trivial
    · exact h.delete_move (by rw [hpc]; nofun) nofun trivial
  | remove =>
    simp only [hpc] at hstep
    split at hstep
    case isTrue =>
      cases hstep
      exact h.delete_move (by rw [hpc]; nofun) nofun trivial
    case isFalse =>
      cases hstep
      exact h.remove hpc
  | subtractRemoved =>
    simp only [hpc, Option.some.injEq] at hstep
    subst hstep
    exact h.subtract hpc
  | finished => simp [hpc] at hstep
  | readInserts | addPartition | dropLoop | subtractDropped | dead => simp [Whole, hpc] at hwhole

theorem Inv.step {e : Event n} (h : Inv c s) (hoff : c.partitioning = false)
    (hstep : step c e s = some s') : Inv c s' := by
  cases e with
  | start i =>
    simp only [MongoIibench.step] at hstep
    split at hstep
    case isTrue hpc =>
      cases hstep
      refine h.move rfl rfl rfl rfl rfl rfl (nextRound_ne _) ?_
      rw [hpc, pending_nextRound]
      rfl
    case isFalse => cases hstep
  | writer i throws => exact h.writer hstep
  | delete throws => exact h.delete hoff hstep
  | timeUp =>
    cases hstep
    exact ⟨h.ids.delete (Finset.Subset.refl _) rfl rfl,
      ⟨h.accounts.documents, h.accounts.estimate, h.accounts.floor⟩, h.whole⟩

/-- At a quiet moment: the estimate is off by what the removes did not find. -/
theorem Inv.drift (h : Inv c s) (hquiet : s.Quiet) :
    (s.documents.card : Int) + (s.deleter.removed.map Nat.cast).sum =
      s.globalEstimatedRows + c.deleteRowsPerCall * s.deleter.removed.length := by
  have hnone : ∑ i, pending c (s.writer i) = 0 := by
    refine Finset.sum_eq_zero fun i _ => ?_
    have hi := hquiet.1 i
    cases hpc : s.writer i <;> simp_all [pending, WriterPc.Inserting]
  have hestimate := h.accounts.estimate
  rw [Deleter.subtracted_of_ne hquiet.2] at hestimate
  rw [h.accounts.documents, hnone, hestimate, Int.add_zero]

/-- The steps that go well: a remove throws. -/
def Fine (e : Event n) (s : State n) : Prop :=
  match e with
  | .delete throws => s.deleter.pc = .remove → throws = true
  | _ => True

/-- No remove has taken effect. -/
structure Unremoved (c : Config) (s : State n) : Prop extends Inv c s where
  none : s.deleter.removed = []

theorem Unremoved.exact (h : Unremoved c s) : Exact c s where
  estimate hquiet := by
    have hdrift := h.toInv.drift hquiet
    simp only [h.none, List.map_nil, List.sum_nil, List.length_nil] at hdrift
    omega
  removes k hk := by
    rw [h.none] at hk
    cases hk

theorem removed_eq {e : Event n} (hfine : Fine e s) (hstep : step c e s = some s') :
    s'.deleter.removed = s.deleter.removed := by
  cases e with
  | start i =>
    simp only [MongoIibench.step] at hstep
    split at hstep <;> cases hstep
    rfl
  | writer i throws => rw [stepWriter_deleter hstep]
  | timeUp =>
    cases hstep
    rfl
  | delete throws =>
    simp only [MongoIibench.step, stepDelete] at hstep
    cases hpc : s.deleter.pc with
    | loop | subtractRemoved | readInserts | addPartition | subtractDropped =>
      simp only [hpc, Option.some.injEq] at hstep
      subst hstep
      rfl
    | readRows =>
      simp only [hpc] at hstep
      split at hstep <;> cases hstep <;> rfl
    | remove =>
      simp only [hpc, hfine hpc, if_true, Option.some.injEq] at hstep
      subst hstep
      rfl
    | dropLoop =>
      simp only [hpc] at hstep
      split at hstep
      case isTrue => split at hstep <;> cases hstep <;> rfl
      case isFalse =>
        cases hstep
        rfl
    | finished | dead => simp [hpc] at hstep

theorem Unremoved.step {e : Event n} (h : Unremoved c s) (hoff : c.partitioning = false)
    (hfine : Fine e s) (hstep : MongoIibench.step c e s = some s') : Unremoved c s' :=
  ⟨h.toInv.step hoff hstep, (removed_eq hfine hstep).trans h.none⟩

/-- The first remove that takes effect finds too few documents. -/
theorem Unremoved.break_ {e : Event n} (h : Unremoved c s) (hpos : 1 ≤ c.deleteRowsPerCall)
    (hbad : ¬ Fine e s) : ∃ s', MongoIibench.step c e s = some s' ∧ ¬ Exact c s' := by
  cases e with
  | start | writer | timeUp => exact absurd trivial hbad
  | delete throws =>
    simp only [Fine, Classical.not_imp, Bool.not_eq_true] at hbad
    obtain ⟨hpc, rfl⟩ := hbad
    have hfloor : s.deleter.deleteFloor = 0 := by
      rw [h.accounts.floor, Deleter.subtracted_of_ne (by rw [hpc]; nofun), h.none]
      simp
    have hfew := h.ids.first_remove hfloor hpos
    refine ⟨_, by simp only [MongoIibench.step, stepDelete, hpc]; rfl, fun hexact => ?_⟩
    have hk := hexact.removes (s.removing c).card (by simp)
    omega

end Estimate

/-- **The estimate is the number of documents, and each remove deletes what it should, all along a
run exactly when no remove of it takes effect.** -/
theorem exact_iff (c : Config) (hoff : c.partitioning = false) (hpos : 1 ≤ c.deleteRowsPerCall)
    (es : List (Event n)) :
    AllAlong c (Exact c) es ↔ AllSteps (step c) Estimate.Fine es (start c n) :=
  prefixes_iff (W := fun _ => True) (J := Estimate.Unremoved c) Estimate.Unremoved.exact
    (fun h _ => h.step hoff) (fun h _ => h.break_ hpos) ⟨Estimate.inv_start c, rfl⟩
    fun _ _ => trivial

/-- The writer inserts a document, and the delete thread finds nothing to do. -/
theorem exact_one : AllAlong ⟨1, 1, false, 1, 1, 100, 0⟩
    (Exact (n := 1) ⟨1, 1, false, 1, 1, 100, 0⟩) [.start 0, .writer 0 false, .delete false] :=
  (exact_iff _ rfl (by decide) _).mpr ⟨trivial, fun _ h => by
    cases h
    exact ⟨trivial, fun _ h => by
      cases h
      exact ⟨nofun, fun _ _ => trivial⟩⟩⟩

/-- The first document has the `_id` 1; the remove looks for 0, and subtracts it. -/
theorem not_exact_first : ¬ AllAlong ⟨1, 1, false, 1, 0, 100, 0⟩
    (Exact (n := 1) ⟨1, 1, false, 1, 0, 100, 0⟩)
    (.start 0 :: List.replicate 5 (.writer 0 false) ++ List.replicate 3 (.delete false)) := by
  intro h
  have hremoves := (h _ _ List.prefix_rfl rfl).removes 0 (by decide)
  revert hremoves
  decide

end TokuQa.MongoIibench
