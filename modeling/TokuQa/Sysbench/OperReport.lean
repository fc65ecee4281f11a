import Mathlib.Algebra.BigOperators.Fin
import Mathlib.Algebra.Order.BigOperators.Group.Finset
import Mathlib.Data.Multiset.Count
import TokuQa.Lib.Run
import TokuQa.Lib.Threads
import TokuQa.Sysbench.Timer

/-!
# Operation messages and reports in `sb_logger.c`

The end of an operation is counted in two places: in the timer of its thread, under
`timers_mutex`, and then in the percentile histogram, under a mutex of its own. A report takes
both and sets them back, all under `timers_mutex`, but the histogram's own mutex is all that
keeps the threads from it. Each section is a step here, and the report is four: it copies the
timers and resets them, reads the histogram, resets it, and lets go.

The timers lose nothing, so the reports' events add up. A thread between its two sections,
though, has been counted by the timers and not by the histogram; if a report reads the
histogram then, it leaves the operation out, and only then (`reports_right_iff`).

An operation is told from others by its number. The multisets of them, and the numbers, are
there to say what was counted: no step reads them. `bucket` is the floating-point computation
of the index in `sb_percentile_update`. What the report prints is settled when it has read the
histogram, and is kept from there on.
-/

set_option autoImplicit false

namespace TokuQa.Sysbench.OperReport

open TokuQa.Lib

/-- A completed operation. -/
structure Op where
  id : Nat
  value : U64
deriving DecidableEq

/-- Where a thread is in `oper_handler_process`. -/
inductive Pc where
  | outside
  /-- It has stopped its timer, and is about to update the histogram. -/
  | between (op : Op)
deriving DecidableEq

/-- Where the report is in `print_global_stats`. -/
inductive Phase where
  /-- `timers_mutex` is free. -/
  | outside
  | copied
  | calculated
  | emptied
deriving DecidableEq

/-- What a report prints: the events, and the histogram it took the percentile from; and the
operations the timers and the histogram had counted. -/
structure Report where
  events : U64
  histogram : Nat → U64
  counted : Multiset Op
  covered : Multiset Op

/-- The static variables of `sb_logger.c`, the threads, and what was counted: all operations
ever completed, and those among them at the last report; the operations in the timers, in
`timers_copy` and in the histogram. -/
structure State (n : Nat) where
  timers : Fin n → SbTimer
  timersCopy : Fin n → SbTimer
  values : Nat → U64
  total : U64
  pc : Fin n → Pc
  phase : Phase
  completed : Nat
  completedAtReport : Nat
  timed : Multiset Op
  counted : Multiset Op
  binned : Multiset Op
  reports : List Report

def start (n : Nat) : State n :=
  { timers := fun _ => sbTimerInit
    timersCopy := fun _ => sbTimerInit
    values := fun _ => 0
    total := 0
    pc := fun _ => .outside
    phase := .outside
    completed := 0
    completedAtReport := 0
    timed := 0
    counted := 0
    binned := 0
    reports := [] }

/-- The mutex-protected sections: of a start message; the two of a stop message; and the next
one of the report. -/
inductive Event (n : Nat) where
  | start (i : Fin n) (now : Timespec)
  | stop (i : Fin n) (now : Timespec)
  | percentileUpdate (i : Fin n)
  | report

variable {n : Nat} (bucket : U64 → Nat)

/-- The first section of a stop message. -/
def stop (i : Fin n) (now : Timespec) (s : State n) : Option (State n) := do
  let timer ← sbTimerStop now (s.timers i)
  let (timer, value) ← sbTimerValue now timer
  some { s with
    timers := Function.update s.timers i timer
    pc := Function.update s.pc i (.between ⟨s.completed, value⟩)
    completed := s.completed + 1
    timed := ⟨s.completed, value⟩ ::ₘ s.timed }

/-- `sb_percentile_update`. -/
def percentileUpdate (i : Fin n) (op : Op) (s : State n) : State n :=
  { s with
    total := s.total + 1
    values := Function.update s.values (bucket op.value) (s.values (bucket op.value) + 1)
    pc := Function.update s.pc i .outside
    binned := op ::ₘ s.binned }

/-- `timers_copy` is filled, and the timers are reset. -/
def copyTimers (s : State n) : State n :=
  { s with
    timersCopy := s.timers
    timers := fun i => sbTimerReset (s.timers i)
    phase := .copied
    timed := 0
    counted := s.timed }

/-- `sb_percentile_calculate` reads the histogram, unless it is empty, and the report is
settled. -/
def percentileCalculate (s : State n) : State n :=
  { s with
    phase := .calculated
    completedAtReport := s.completed
    reports := s.reports ++
      [{ events := (mergeAll (List.ofFn s.timersCopy)).events
         histogram := if s.total = 0 then fun _ => 0 else s.values
         counted := s.counted
         covered := s.binned }] }

/-- `sb_percentile_reset`. -/
def percentileReset (s : State n) : State n :=
  { s with total := 0, values := fun _ => 0, phase := .emptied, binned := 0 }

def step (e : Event n) (s : State n) : Option (State n) :=
  match e with
  | .start i now =>
    if s.phase = .outside ∧ s.pc i = .outside then
      (sbTimerStart now (s.timers i)).map fun timer =>
        { s with timers := Function.update s.timers i timer }
    else none
  | .stop i now => if s.phase = .outside ∧ s.pc i = .outside then stop i now s else none
  | .percentileUpdate i =>
    match s.pc i with
    | .outside => none
    | .between op => some (percentileUpdate bucket i op s)
  | .report =>
    match s.phase with
    | .outside => some (copyTimers s)
    | .copied => some (percentileCalculate s)
    | .calculated => some (percentileReset s)
    | .emptied => some { s with phase := .outside }

/-! ## What the reports should say -/

/-- The histogram covers the operations that the events count, and nothing else. -/
structure Report.Right (r : Report) : Prop where
  events : r.events.val = r.counted.card
  covered : r.covered = r.counted
  histogram : ∀ b, (r.histogram b).val = r.covered.countP fun op => bucket op.value = b

/-- **Every operation is reported once**: the events of the reports add up to the operations
that were completed at the last one, and all histograms are right. -/
structure Right (s : State n) : Prop where
  sum : (s.reports.map fun r => r.events.val).sum = s.completedAtReport
  reports : ∀ r ∈ s.reports, r.Right bucket

/-- **When a report may read the histogram**: no thread is between its two sections. (And the
operations since the last report can be counted.) -/
def Fine (e : Event n) (s : State n) : Prop :=
  match e with
  | .report => s.phase = .copied → (∀ i, s.pc i = .outside) ∧ s.counted.card < 2 ^ 64
  | _ => True

/-! ## What is counted -/

/-- A counter of 64 bits that has counted to `k`. -/
def counter (k : Nat) : U64 := Fin.ofNat (2 ^ 64) k

theorem counter_succ (k : Nat) : counter (k + 1) = counter k + 1 := by
  refine Fin.ext ?_
  rw [Fin.val_add]
  simp only [counter, Fin.val_ofNat]
  exact (Nat.mod_add_mod k (2 ^ 64) 1).symm

theorem counter_val {k : Nat} (h : k < 2 ^ 64) : (counter k).val = k := Nat.mod_eq_of_lt h

/-- The operation that a thread has yet to put into the histogram. -/
def Pc.pending : Pc → Multiset Op
  | .outside => 0
  | .between op => {op}

@[simp] theorem pending_pc_outside : Pc.outside.pending = 0 := rfl
@[simp] theorem pending_pc_between (op : Op) : (Pc.between op).pending = {op} := rfl

def pending (pc : Fin n → Pc) : Multiset Op := ∑ i, (pc i).pending

section

variable {pc : Fin n → Pc} {i : Fin n} {op : Op}

theorem pending_between (h : pc i = .outside) (op : Op) :
    pending (Function.update pc i (.between op)) = op ::ₘ pending pc := by
  have hsum := sum_update Pc.pending pc i (.between op)
  rw [h, pending_pc_outside, pending_pc_between, add_zero] at hsum
  rw [pending, hsum, add_comm, Multiset.singleton_add]
  rfl

theorem pending_outside (h : pc i = .between op) :
    pending pc = op ::ₘ pending (Function.update pc i .outside) := by
  have hsum := sum_update Pc.pending pc i .outside
  rw [h, pending_pc_outside, pending_pc_between, add_zero] at hsum
  rw [pending, ← hsum, add_comm, Multiset.singleton_add]
  rfl

theorem pending_eq_zero_iff : pending pc = 0 ↔ ∀ i, pc i = .outside := by
  rw [pending, Finset.sum_eq_zero_iff]
  refine ⟨fun h i => ?_, fun h i _ => by rw [h i]; rfl⟩
  have hi := h i (Finset.mem_univ i)
  cases hpc : pc i with
  | outside => rfl
  | between op =>
    rw [hpc] at hi
    exact absurd hi (Multiset.singleton_ne_zero op)

end

/-- What the phase of the report says of the operations: those that are still in a thread's
hands are all there are between the timers, or their copy, and the histogram. -/
def PhaseOk (s : State n) : Prop :=
  match s.phase with
  | .copied => s.timed = 0 ∧ s.completed = s.completedAtReport + s.counted.card ∧
      s.counted = s.binned + pending s.pc ∧
      ∑ i, (s.timersCopy i).events = counter s.counted.card
  | .calculated => s.timed = 0 ∧ s.completed = s.completedAtReport ∧ ∀ i, s.pc i = .outside
  | _ => s.completed = s.completedAtReport + s.timed.card ∧ s.timed = s.binned + pending s.pc

/-- **The invariant** of runs in which reports come at the right time. -/
structure Inv (s : State n) : Prop where
  ready : ∀ i, (s.timers i).state ≠ .uninitialized
  events : ∑ i, (s.timers i).events = counter s.timed.card
  values : ∀ b, s.values b = counter (s.binned.countP fun op => bucket op.value = b)
  total : s.total = counter s.binned.card
  phase : PhaseOk s
  right : Right bucket s

theorem inv_start : Inv bucket (start n) := by
  refine ⟨fun i h => (by cases h), ?_, fun b => rfl, rfl, ⟨rfl, ?_⟩, rfl, fun r hr => (by cases hr)⟩
  · exact Finset.sum_eq_zero fun i _ => rfl
  · have hnone : pending (start n).pc = 0 := pending_eq_zero_iff.mpr fun i => rfl
    rw [hnone]
    rfl

/-! ## The sections -/

theorem sbTimerStart_spec {now : Timespec} {t t' : SbTimer} (h : sbTimerStart now t = some t') :
    t'.state ≠ .uninitialized ∧ t'.events = t.events := by
  unfold sbTimerStart at h
  split at h
  · cases h
  · cases h
    exact ⟨by simp, rfl⟩

/-- A stopped timer has counted one more. -/
theorem sbTimerStop_spec {now : Timespec} {t t' : SbTimer} (h : sbTimerStop now t = some t') :
    t'.state = .stopped ∧ t'.events = t.events + 1 := by
  unfold sbTimerStop at h
  split at h
  · cases h
  · cases h
    exact ⟨rfl, rfl⟩

/-- What the first section of a stop message does. -/
theorem stop_spec {i : Fin n} {now : Timespec} {s s' : State n} (h : stop i now s = some s') :
    ∃ timer value, timer.state ≠ .uninitialized ∧ timer.events = (s.timers i).events + 1 ∧
      s' = { s with
        timers := Function.update s.timers i timer
        pc := Function.update s.pc i (.between ⟨s.completed, value⟩)
        completed := s.completed + 1
        timed := ⟨s.completed, value⟩ ::ₘ s.timed } := by
  obtain ⟨timer, hstop, hrest⟩ := Option.bind_eq_some_iff.mp h
  obtain ⟨hstate, hevents⟩ := sbTimerStop_spec hstop
  have hvalue : sbTimerValue now timer = some (timer, timer.elapsed) := by
    unfold sbTimerValue
    rw [hstate]
  rw [hvalue] at hrest
  cases hrest
  exact ⟨timer, timer.elapsed, by rw [hstate]; simp, hevents, rfl⟩

section

variable {bucket : U64 → Nat} {s s' : State n}

/-- Between two reports. -/
theorem Inv.outside (h : Inv bucket s) (hphase : s.phase = .outside) :
    s.completed = s.completedAtReport + s.timed.card ∧ s.timed = s.binned + pending s.pc := by
  have hok := h.phase
  unfold PhaseOk at hok
  rw [hphase] at hok
  exact hok

/-- The timers are copied and cleared, the histogram is neither. -/
theorem Inv.copied (h : Inv bucket s) (hphase : s.phase = .copied) :
    s.timed = 0 ∧ s.completed = s.completedAtReport + s.counted.card ∧
      s.counted = s.binned + pending s.pc ∧
      ∑ i, (s.timersCopy i).events = counter s.counted.card := by
  have hok := h.phase
  unfold PhaseOk at hok
  rw [hphase] at hok
  exact hok

theorem Inv.start (h : Inv bucket s) {i : Fin n} {now : Timespec} {timer : SbTimer}
    (hstart : sbTimerStart now (s.timers i) = some timer) :
    Inv bucket { s with timers := Function.update s.timers i timer } := by
  obtain ⟨hstate, hevents⟩ := sbTimerStart_spec hstart
  have hsum := sum_update SbTimer.events s.timers i timer
  rw [hevents] at hsum
  refine ⟨forall_update (P := fun _ t => SbTimer.state t ≠ .uninitialized) h.ready hstate, ?_,
    h.values, h.total, h.phase, h.right.sum, h.right.reports⟩
  exact (add_right_cancel hsum).trans h.events

theorem Inv.stop (h : Inv bucket s) {i : Fin n} {now : Timespec} (hphase : s.phase = .outside)
    (hpc : s.pc i = .outside) (hstop : OperReport.stop i now s = some s') : Inv bucket s' := by
  obtain ⟨timer, value, hstate, hevents, rfl⟩ := stop_spec hstop
  have hsum := sum_update SbTimer.events s.timers i timer
  obtain ⟨hcompleted, htimed⟩ := h.outside hphase
  refine ⟨forall_update (P := fun _ t => SbTimer.state t ≠ .uninitialized) h.ready hstate, ?_,
    h.values, h.total, ?_, h.right.sum, h.right.reports⟩
  · rw [hevents, ← add_assoc, add_right_comm] at hsum
    rw [Multiset.card_cons, counter_succ, ← h.events]
    exact add_right_cancel hsum
  · unfold PhaseOk
    rw [hphase]
    refine ⟨?_, ?_⟩
    · rw [Multiset.card_cons]
      exact congrArg (· + 1) hcompleted
    · rw [pending_between hpc, Multiset.add_cons, ← htimed]

/-- The operation moves from its thread into the histogram. -/
theorem Inv.percentileUpdate (h : Inv bucket s) {i : Fin n} {op : Op}
    (hpc : s.pc i = .between op) : Inv bucket (OperReport.percentileUpdate bucket i op s) := by
  have hmove : (op ::ₘ s.binned) + pending (Function.update s.pc i .outside) =
      s.binned + pending s.pc := by
    rw [pending_outside hpc, Multiset.add_cons, Multiset.cons_add]
  refine ⟨h.ready, h.events, fun b => ?_, ?_, ?_, h.right.sum, h.right.reports⟩
  · show Function.update s.values (bucket op.value) (s.values (bucket op.value) + 1) b = _
    rw [OperReport.percentileUpdate, Multiset.countP_cons]
    by_cases hb : b = bucket op.value
    · subst hb
      rw [Function.update_self, if_pos rfl, counter_succ, h.values]
    · rw [Function.update_of_ne hb, if_neg (Ne.symm hb), Nat.add_zero, h.values]
  · show s.total + 1 = counter (op ::ₘ s.binned).card
    rw [Multiset.card_cons, counter_succ, h.total]
  · have hok := h.phase
    unfold PhaseOk at hok ⊢
    show match s.phase with
      | .copied => _
      | .calculated => _
      | _ => _
    cases hphase : s.phase with
    | outside =>
      rw [hphase] at hok
      exact ⟨hok.1, hok.2.trans hmove.symm⟩
    | copied =>
      rw [hphase] at hok
      exact ⟨hok.1, hok.2.1, hok.2.2.1.trans hmove.symm, hok.2.2.2⟩
    | calculated =>
      rw [hphase] at hok
      rw [hok.2.2 i] at hpc
      cases hpc
    | emptied =>
      rw [hphase] at hok
      exact ⟨hok.1, hok.2.trans hmove.symm⟩

theorem Inv.copyTimers (h : Inv bucket s) (hphase : s.phase = .outside) :
    Inv bucket (OperReport.copyTimers s) := by
  obtain ⟨hcompleted, htimed⟩ := h.outside hphase
  exact ⟨h.ready, Finset.sum_eq_zero fun i _ => rfl, h.values, h.total,
    ⟨rfl, hcompleted, htimed, h.events⟩, h.right.sum, h.right.reports⟩

/-- What the timers' copy adds up to. -/
theorem mergeAll_events (timers : Fin n → SbTimer) :
    (mergeAll (List.ofFn timers)).events = ∑ i, (timers i).events := by
  have htally := congrArg Tally.events (tally_mergeAll (List.ofFn timers))
  rw [Tally.events_sum, List.map_map, List.map_ofFn, List.sum_ofFn] at htally
  exact htally

/-- The report is right, if nobody is between its sections. -/
theorem Inv.percentileCalculate (h : Inv bucket s) (hphase : s.phase = .copied)
    (hquiet : ∀ i, s.pc i = .outside) (hcard : s.counted.card < 2 ^ 64) :
    Inv bucket (OperReport.percentileCalculate s) := by
  obtain ⟨htimed, hcompleted, hcounted, hcopy⟩ := h.copied hphase
  rw [pending_eq_zero_iff.mpr hquiet, add_zero] at hcounted
  have hevents : (mergeAll (List.ofFn s.timersCopy)).events.val = s.counted.card := by
    rw [mergeAll_events, hcopy, counter_val hcard]
  refine ⟨h.ready, h.events, h.values, h.total, ⟨htimed, rfl, hquiet⟩, ?_, ?_⟩
  · show ((s.reports ++ [_]).map fun r : Report => r.events.val).sum = s.completed
    rw [List.map_append, List.sum_append, h.right.sum, hcompleted]
    simp only [List.map_singleton, List.sum_singleton, hevents]
  · intro r hr
    rcases List.mem_append.mp hr with hold | hnew
    · exact h.right.reports r hold
    · rw [List.mem_singleton.mp hnew]
      refine ⟨hevents, hcounted.symm, fun b => ?_⟩
      have hle := Multiset.countP_le_card (fun op => bucket op.value = b) s.binned
      rw [hcounted] at hcard
      dsimp only
      split
      · -- an empty histogram is not even read
        rename_i hzero
        have hempty : s.binned.card = 0 := by
          rw [← counter_val hcard, ← h.total, hzero]
          rfl
        rw [hempty] at hle
        exact (Nat.le_zero.mp hle).symm
      · rw [h.values, counter_val (hle.trans_lt hcard)]

/-- And it is wrong if somebody is, or there are too many operations to count. -/
theorem Inv.not_right (h : Inv bucket s) (hphase : s.phase = .copied)
    (hbad : ¬ ((∀ i, s.pc i = .outside) ∧ s.counted.card < 2 ^ 64)) :
    ¬ Right bucket (OperReport.percentileCalculate s) := by
  intro hright
  obtain ⟨-, -, hcounted, hcopy⟩ := h.copied hphase
  obtain ⟨hevents, hcovered, -⟩ := hright.reports _ (List.mem_append_right _ List.mem_cons_self)
  refine hbad ⟨?_, ?_⟩
  · refine pending_eq_zero_iff.mp (Multiset.card_eq_zero.mp ?_)
    have hcard := congrArg Multiset.card hcounted
    have hsame : s.binned = s.counted := hcovered
    rw [Multiset.card_add, hsame] at hcard
    omega
  · rw [← hevents]
    exact Fin.isLt _

theorem Inv.percentileReset (h : Inv bucket s) (hphase : s.phase = .calculated) :
    Inv bucket (OperReport.percentileReset s) := by
  have hok := h.phase
  unfold PhaseOk at hok
  rw [hphase] at hok
  obtain ⟨htimed, hcompleted, hquiet⟩ := hok
  refine ⟨h.ready, h.events, fun b => rfl, rfl, ⟨?_, ?_⟩, h.right.sum, h.right.reports⟩
  · show s.completed = s.completedAtReport + s.timed.card
    rw [htimed, hcompleted]
    rfl
  · show s.timed = 0 + pending s.pc
    rw [htimed, pending_eq_zero_iff.mpr hquiet]
    rfl

theorem Inv.step (h : Inv bucket s) {e : Event n} (hfine : Fine e s)
    (hstep : step bucket e s = some s') : Inv bucket s' := by
  cases e with
  | start i now =>
    by_cases hfree : s.phase = .outside ∧ s.pc i = .outside
    · rw [OperReport.step, if_pos hfree] at hstep
      obtain ⟨timer, hstart, rfl⟩ := Option.map_eq_some_iff.mp hstep
      exact h.start hstart
    · rw [OperReport.step, if_neg hfree] at hstep
      cases hstep
  | stop i now =>
    by_cases hfree : s.phase = .outside ∧ s.pc i = .outside
    · rw [OperReport.step, if_pos hfree] at hstep
      exact h.stop hfree.1 hfree.2 hstep
    · rw [OperReport.step, if_neg hfree] at hstep
      cases hstep
  | percentileUpdate i =>
    unfold OperReport.step at hstep
    cases hpc : s.pc i with
    | outside =>
      simp only [hpc] at hstep
      cases hstep
    | between op =>
      simp only [hpc] at hstep
      cases hstep
      exact h.percentileUpdate hpc
  | report =>
    unfold OperReport.step at hstep
    cases hphase : s.phase with
    | outside =>
      simp only [hphase] at hstep
      cases hstep
      exact h.copyTimers hphase
    | copied =>
      simp only [hphase] at hstep
      cases hstep
      obtain ⟨hquiet, hcard⟩ := hfine hphase
      exact h.percentileCalculate hphase hquiet hcard
    | calculated =>
      simp only [hphase] at hstep
      cases hstep
      exact h.percentileReset hphase
    | emptied =>
      simp only [hphase] at hstep
      cases hstep
      have hok := h.phase
      unfold PhaseOk at hok
      rw [hphase] at hok
      exact ⟨h.ready, h.events, h.values, h.total, hok, h.right.sum, h.right.reports⟩

end

/-- **All reports are right, all along a run,** exactly when no report reads the histogram
while a thread is between its two sections. -/
theorem reports_right_iff (events : List (Event n)) :
    (∀ pre s, pre <+: events → run (step bucket) pre (start n) = some s → Right bucket s) ↔
      AllSteps (step bucket) Fine events (start n) := by
  refine prefixes_iff (J := Inv bucket) (W := fun _ => True) Inv.right ?_ ?_ (inv_start bucket)
    fun _ _ => trivial
  · intro e s s' h _ hfine hstep
    exact h.step hfine hstep
  · intro e s h _ hbad
    cases e with
    | report =>
      have hphase : s.phase = .copied := by
        by_contra hne
        exact hbad fun hcopied => absurd hcopied hne
      refine ⟨percentileCalculate s, by simp only [step, hphase], h.not_right hphase ?_⟩
      exact fun hgood => hbad fun _ => hgood
    | _ => exact absurd trivial hbad

/-- One operation; the report comes between the two sections of its end. The timers count it,
and the histogram does not. -/
theorem report_misses_operation :
    ∃ s, run (step fun _ => 0) [.start 0 ⟨5, 0⟩, .stop 0 ⟨6, 0⟩, .report, .report, .report, .report]
        (start 1) = some s ∧
      s.reports.map (fun r => (r.events.val, (r.histogram 0).val)) = [(1, 0)] ∧
      ¬ Right (fun _ => 0) s := by
  refine ⟨_, rfl, rfl, fun hright => ?_⟩
  have hreport := hright.reports _ List.mem_cons_self
  have hcovered := congrArg Multiset.card hreport.covered
  cases hcovered

end TokuQa.Sysbench.OperReport
