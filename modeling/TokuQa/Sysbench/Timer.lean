import Mathlib.Algebra.Order.BigOperators.Group.List
import Mathlib.Algebra.Order.Ring.Nat
import Mathlib.Data.ZMod.Defs
import Mathlib.Order.Fin.Basic
import TokuQa.Lib.Tally

/-!
# `sb_timer.c`

A timer is started and stopped once for each operation, and keeps their number, the sum of
their times, the smallest and the largest. `print_global_stats` merges the timers of all
threads. The four numbers are a `Tally`, of 64-bit counters that wrap around, so merging is
addition of tallies and the split of the operations over threads does not show.

The one thing a wrap-around breaks is the average: it is the sum, divided by the number of
operations, and lies between the extremes as long as neither has wrapped.

Log messages are left out; the functions that abort the program return `none` there.
-/

set_option autoImplicit false

namespace TokuQa.Sysbench

open TokuQa.Lib

/-- `unsigned long long`. -/
abbrev U64 := Fin (2 ^ 64)

instance neZero_u64 : NeZero (2 ^ 64) := ⟨by decide⟩

/-- Conversion to `unsigned long long`. -/
def toU64 (x : Int) : U64 := Fin.ofNat (2 ^ 64) (x % 2 ^ 64).toNat

/-- `struct timespec`. -/
structure Timespec where
  sec : Int
  nsec : Int
deriving DecidableEq

/-- The time in nanoseconds. -/
def Timespec.ns (t : Timespec) : Int := t.sec * 1000000000 + t.nsec

/-- `TIMESPEC_DIFF`: all of it is computed modulo `2 ^ 64`. -/
def timespecDiff (a b : Timespec) : U64 :=
  toU64 ((a.sec - b.sec) * 1000000000 + (a.nsec - b.nsec))

inductive TimerState where
  | uninitialized
  | initialized
  | stopped
  | running
deriving DecidableEq

/-- `sb_timer_t`. -/
structure SbTimer where
  timeStart : Timespec
  timeEnd : Timespec
  timeSplit : Timespec
  elapsed : U64
  minTime : U64
  maxTime : U64
  sumTime : U64
  events : U64
  state : TimerState
deriving DecidableEq

/-! ## The functions -/

def sbTimerReset (t : SbTimer) : SbTimer :=
  { t with
    minTime := 0xffffffffffffffff
    maxTime := 0
    sumTime := 0
    events := 0
    elapsed := 0 }

/-- `sb_timer_init` writes every field. -/
def sbTimerInit : SbTimer :=
  let t := sbTimerReset ⟨⟨0, 0⟩, ⟨0, 0⟩, ⟨0, 0⟩, 0, 0, 0, 0, 0, .uninitialized⟩
  { t with state := .initialized }

def sbTimerUpdate (now : Timespec) (t : SbTimer) : SbTimer :=
  { t with timeEnd := now, elapsed := timespecDiff now t.timeStart }

def sbTimerStart (now : Timespec) (t : SbTimer) : Option SbTimer :=
  match t.state with
  | .uninitialized => none
  | _ => some { t with timeStart := now, timeSplit := now, state := .running }

def sbTimerStop (now : Timespec) (t : SbTimer) : Option SbTimer :=
  match t.state with
  | .uninitialized => none
  | _ =>
    let t := sbTimerUpdate now t
    some { t with
      events := t.events + 1
      sumTime := t.sumTime + t.elapsed
      minTime := if t.elapsed < t.minTime then t.elapsed else t.minTime
      maxTime := if t.elapsed > t.maxTime then t.elapsed else t.maxTime
      state := .stopped }

/-- `sb_timer_value`, of a timer that is updated if it runs. -/
def sbTimerValue (now : Timespec) (t : SbTimer) : Option (SbTimer × U64) :=
  match t.state with
  | .initialized => some (t, 0)
  | .stopped => some (t, t.elapsed)
  | .running => some (sbTimerUpdate now t, (sbTimerUpdate now t).elapsed)
  | .uninitialized => none

/-- `get_avg_time`. -/
def getAvgTime (t : SbTimer) : U64 := if t.events = 0 then 0 else t.sumTime / t.events

/-- `get_min_time`. -/
def getMinTime (t : SbTimer) : U64 := t.minTime

/-- `get_max_time`. -/
def getMaxTime (t : SbTimer) : U64 := t.maxTime

/-- `merge_timers`; what it does not compute is zero. -/
def mergeTimers (t₁ t₂ : SbTimer) : SbTimer :=
  { timeStart := ⟨0, 0⟩
    timeEnd := ⟨0, 0⟩
    timeSplit := ⟨0, 0⟩
    elapsed := t₁.elapsed + t₂.elapsed
    sumTime := t₁.sumTime + t₂.sumTime
    events := t₁.events + t₂.events
    maxTime := if t₁.maxTime > t₂.maxTime then t₁.maxTime else t₂.maxTime
    minTime := if t₁.minTime < t₂.minTime then t₁.minTime else t₂.minTime
    state := .uninitialized }

/-- The loop of `print_global_stats`. -/
def mergeAll (timers : List SbTimer) : SbTimer := timers.foldl mergeTimers sbTimerInit

/-! ## Operations -/

/-- A completed operation: when it was started and when it was stopped. -/
structure Operation where
  start : Timespec
  stop : Timespec
deriving DecidableEq

/-- The time of an operation, as a timer sees it. -/
def Operation.elapsed (op : Operation) : U64 := timespecDiff op.stop op.start

def timeOperation (t : SbTimer) (op : Operation) : Option SbTimer :=
  (sbTimerStart op.start t).bind (sbTimerStop op.stop)

/-- A new timer that sees the operations one after another. -/
def timed (ops : List Operation) : Option SbTimer := ops.foldlM timeOperation sbTimerInit

/-- The operations of a thread. -/
def opsOf {n : Nat} (i : Fin n) (ops : List (Fin n × Operation)) : List Operation :=
  (ops.filter fun x => x.1 = i).map Prod.snd

/-! ## A timer as a tally -/

def SbTimer.tally (t : SbTimer) : Tally U64 U64 := ⟨t.events, t.sumTime, t.minTime, t.maxTime⟩

def Operation.tally (op : Operation) : Tally U64 U64 := ⟨1, op.elapsed, op.elapsed, op.elapsed⟩

theorem tally_sbTimerInit : sbTimerInit.tally = 0 := rfl

theorem tally_mergeTimers (t₁ t₂ : SbTimer) :
    (mergeTimers t₁ t₂).tally = t₁.tally + t₂.tally := by
  refine Tally.ext rfl rfl ?_ ?_
  · show (if t₁.minTime < t₂.minTime then t₁.minTime else t₂.minTime) = t₁.minTime ⊓ t₂.minTime
    split
    · rename_i h
      exact (inf_eq_left.mpr h.le).symm
    · rename_i h
      exact (inf_eq_right.mpr (not_lt.mp h)).symm
  · show (if t₁.maxTime > t₂.maxTime then t₁.maxTime else t₂.maxTime) = t₁.maxTime ⊔ t₂.maxTime
    split
    · rename_i h
      exact (sup_eq_left.mpr h.le).symm
    · rename_i h
      exact (sup_eq_right.mpr (not_lt.mp h)).symm

theorem tally_mergeAll (timers : List SbTimer) :
    (mergeAll timers).tally = (timers.map SbTimer.tally).sum := by
  have hfold : ∀ t : SbTimer, (timers.foldl mergeTimers t).tally =
      t.tally + (timers.map SbTimer.tally).sum := by
    induction timers with
    | nil => exact fun t => (add_zero _).symm
    | cons u us ih =>
      intro t
      rw [List.foldl_cons, ih, tally_mergeTimers, List.map_cons, List.sum_cons, add_assoc]
  rw [mergeAll, hfold, tally_sbTimerInit, zero_add]

theorem timeOperation_tally {t : SbTimer} (hstate : t.state ≠ .uninitialized) (op : Operation) :
    ∃ t', timeOperation t op = some t' ∧ t'.state ≠ .uninitialized ∧
      t'.tally = t.tally + op.tally := by
  have hstart : sbTimerStart op.start t =
      some { t with timeStart := op.start, timeSplit := op.start, state := .running } := by
    unfold sbTimerStart
    split
    · contradiction
    · rfl
  refine ⟨_, by rw [timeOperation, hstart]; rfl, by simp, ?_⟩
  refine Tally.ext rfl rfl ?_ ?_
  · show (if op.elapsed < t.minTime then op.elapsed else t.minTime) = t.minTime ⊓ op.elapsed
    split
    · rename_i h
      exact (inf_eq_right.mpr h.le).symm
    · rename_i h
      exact (inf_eq_left.mpr (not_lt.mp h)).symm
  · show (if op.elapsed > t.maxTime then op.elapsed else t.maxTime) = t.maxTime ⊔ op.elapsed
    split
    · rename_i h
      exact (sup_eq_right.mpr h.le).symm
    · rename_i h
      exact (sup_eq_left.mpr (not_lt.mp h)).symm

/-- A timer that saw the operations is their tally. -/
theorem timed_tally (ops : List Operation) :
    ∃ t, timed ops = some t ∧ t.tally = (ops.map Operation.tally).sum := by
  have hfold : ∀ t : SbTimer, t.state ≠ .uninitialized →
      ∃ t', ops.foldlM timeOperation t = some t' ∧
        t'.tally = t.tally + (ops.map Operation.tally).sum := by
    induction ops with
    | nil => exact fun t _ => ⟨t, rfl, (add_zero _).symm⟩
    | cons op ops ih =>
      intro t hstate
      obtain ⟨t₁, hop, hstate₁, htally₁⟩ := timeOperation_tally hstate op
      obtain ⟨t', hops, htally⟩ := ih t₁ hstate₁
      refine ⟨t', ?_, ?_⟩
      · rw [List.foldlM_cons, hop]
        exact hops
      · rw [htally, htally₁, List.map_cons, List.sum_cons, add_assoc]
  obtain ⟨t, ht, htally⟩ := hfold sbTimerInit (by decide)
  exact ⟨t, ht, by rw [htally, tally_sbTimerInit, zero_add]⟩

/-! ## The average -/

/-- The time an operation took. -/
def Operation.ns (op : Operation) : Int := op.stop.ns - op.start.ns

/-- A timer that does not wrap around measures the time an operation took. -/
theorem elapsed_val {op : Operation} (hclock : 0 ≤ op.ns) (hfit : op.ns < 2 ^ 64) :
    (op.elapsed.val : Int) = op.ns := by
  have hns : (op.stop.sec - op.start.sec) * 1000000000 + (op.stop.nsec - op.start.nsec) =
      op.ns := by
    simp only [Operation.ns, Timespec.ns]
    omega
  rw [Operation.elapsed, timespecDiff, hns, toU64, Int.emod_eq_of_lt hclock hfit, Fin.val_ofNat]
  omega

theorem elapsed_sum {ops : List Operation} (hclock : ∀ op ∈ ops, 0 ≤ op.ns)
    (hfit : (ops.map Operation.ns).sum < 2 ^ 64) :
    (((ops.map fun op => op.elapsed.val).sum : Nat) : Int) = (ops.map Operation.ns).sum := by
  induction ops with
  | nil => rfl
  | cons op ops ih =>
    have hop : 0 ≤ op.ns := hclock op List.mem_cons_self
    rw [List.map_cons, List.sum_cons] at hfit ⊢
    have hrest : 0 ≤ (ops.map Operation.ns).sum := List.sum_nonneg fun x hx => by
      obtain ⟨op', hop', rfl⟩ := List.mem_map.mp hx
      exact hclock op' (List.mem_cons_of_mem _ hop')
    have hsum := ih (fun op' hop' => hclock op' (List.mem_cons_of_mem _ hop')) (by omega)
    rw [List.map_cons, List.sum_cons, Nat.cast_add, hsum, elapsed_val hop (by omega)]

/-- The sums in a tally of operations, as long as they do not wrap around. -/
theorem tally_sums {ops : List Operation} (hsum : (ops.map fun op => op.elapsed.val).sum < 2 ^ 64)
    (hlength : ops.length < 2 ^ 64) :
    (ops.map Operation.tally).sum.events.val = ops.length ∧
      (ops.map Operation.tally).sum.sum.val = (ops.map fun op => op.elapsed.val).sum := by
  induction ops with
  | nil => exact ⟨rfl, rfl⟩
  | cons op ops ih =>
    rw [List.map_cons, List.sum_cons] at hsum
    rw [List.length_cons] at hlength
    obtain ⟨hevents, hrest⟩ := ih (by omega) (by omega)
    rw [List.map_cons, List.sum_cons, List.map_cons, List.sum_cons, Tally.events_add,
      Tally.sum_add, Fin.val_add, Fin.val_add, hevents, hrest]
    refine ⟨?_, Nat.mod_eq_of_lt hsum⟩
    show (1 + ops.length) % 2 ^ 64 = _
    rw [Nat.mod_eq_of_lt (by omega), List.length_cons, Nat.add_comm]

/-- The average of the operations lies between the extremes, as long as nothing has wrapped
around. -/
theorem avg_between {ops : List Operation} (hclock : ∀ op ∈ ops, 0 ≤ op.ns)
    (hfit : (ops.map Operation.ns).sum < 2 ^ 64) (hlength : ops.length < 2 ^ 64) {t : SbTimer}
    (ht : t.tally = (ops.map Operation.tally).sum) (hevents : 0 < t.events) :
    getMinTime t ≤ getAvgTime t ∧ getAvgTime t ≤ getMaxTime t := by
  have hns := elapsed_sum hclock hfit
  have hns' : (ops.map fun op => op.elapsed.val).sum < 2 ^ 64 := by omega
  obtain ⟨hcount, hsum⟩ := tally_sums hns' hlength
  rw [← ht] at hcount hsum
  have hmem : ∀ op ∈ ops, t.minTime ≤ op.elapsed ∧ op.elapsed ≤ t.maxTime := by
    intro op hop
    have htallied : op.tally ∈ ops.map Operation.tally := List.mem_map_of_mem hop
    have hbounds := Tally.bounds_of_mem htallied
    rw [← ht] at hbounds
    exact hbounds
  have hmin : ops.length * t.minTime.val ≤ (ops.map fun op => op.elapsed.val).sum := by
    have h := List.card_nsmul_le_sum (ops.map fun op => op.elapsed.val) t.minTime.val fun x hx => by
      obtain ⟨op, hop, rfl⟩ := List.mem_map.mp hx
      exact (hmem op hop).1
    rwa [List.length_map, smul_eq_mul] at h
  have hmax : (ops.map fun op => op.elapsed.val).sum ≤ ops.length * t.maxTime.val := by
    have h := List.sum_le_card_nsmul (ops.map fun op => op.elapsed.val) t.maxTime.val fun x hx => by
      obtain ⟨op, hop, rfl⟩ := List.mem_map.mp hx
      exact (hmem op hop).2
    rwa [List.length_map, smul_eq_mul] at h
  have hpos : 0 < ops.length := by
    rw [← hcount]
    exact hevents
  have havg : (getAvgTime t).val = (ops.map fun op => op.elapsed.val).sum / ops.length := by
    rw [getAvgTime, if_neg hevents.ne', ← hsum, ← hcount]
    rfl
  refine ⟨Fin.le_def.mpr ?_, Fin.le_def.mpr ?_⟩
  · rw [havg]
    exact (Nat.le_div_iff_mul_le hpos).mpr (by rw [Nat.mul_comm]; exact hmin)
  · rw [havg]
    exact Nat.div_le_of_le_mul hmax

/-! ## The merged statistics -/

/-- **The statistics do not show how the operations were split over the threads**: merged, the
timers of the threads are one timer that saw all operations, in any order; `merge_timers` is
commutative and associative, and a new timer changes nothing; and the average lies between the
extremes, as long as the number of operations and their time are less than `2 ^ 64`. -/
theorem timers_partition_independent {n : Nat} (ops : List (Fin n × Operation))
    {order : List Operation} (horder : order.Perm (ops.map Prod.snd)) :
    ∃ (timers : Fin n → SbTimer) (single : SbTimer),
      (∀ i, timed (opsOf i ops) = some (timers i)) ∧ timed order = some single ∧
      (mergeAll (List.ofFn timers)).tally = single.tally ∧
      (∀ t₁ t₂, (mergeTimers t₁ t₂).tally = (mergeTimers t₂ t₁).tally) ∧
      (∀ t₁ t₂ t₃, (mergeTimers (mergeTimers t₁ t₂) t₃).tally =
        (mergeTimers t₁ (mergeTimers t₂ t₃)).tally) ∧
      (∀ t, (mergeTimers sbTimerInit t).tally = t.tally ∧
        (mergeTimers t sbTimerInit).tally = t.tally) ∧
      ((∀ x ∈ ops, 0 ≤ x.2.ns) → (ops.map fun x => x.2.ns).sum < 2 ^ 64 → ops.length < 2 ^ 64 →
        ∀ t, t = single ∨ t = mergeAll (List.ofFn timers) → 0 < t.events →
          getMinTime t ≤ getAvgTime t ∧ getAvgTime t ≤ getMaxTime t) := by
  obtain ⟨single, hsingle, htally⟩ := timed_tally order
  choose timers htimers htallies using fun i : Fin n => timed_tally (opsOf i ops)
  have hall : single.tally = ((ops.map Prod.snd).map Operation.tally).sum := by
    rw [htally]
    exact (horder.map Operation.tally).sum_eq
  have hmerged : (mergeAll (List.ofFn timers)).tally = single.tally := by
    rw [tally_mergeAll, List.map_ofFn, List.sum_ofFn, hall, List.map_map]
    refine Eq.trans (Finset.sum_congr rfl fun i _ => ?_) (sum_parts Operation.tally ops)
    show (timers i).tally = _
    rw [htallies, opsOf, List.map_map]
    rfl
  refine ⟨timers, single, htimers, hsingle, hmerged, ?_, ?_, ?_, ?_⟩
  · intro t₁ t₂
    rw [tally_mergeTimers, tally_mergeTimers, add_comm]
  · intro t₁ t₂ t₃
    simp only [tally_mergeTimers, add_assoc]
  · intro t
    rw [tally_mergeTimers, tally_mergeTimers, tally_sbTimerInit, zero_add, add_zero]
    exact ⟨rfl, rfl⟩
  · intro hclock hfit hlength t ht hevents
    have hops : t.tally = ((ops.map Prod.snd).map Operation.tally).sum := by
      rcases ht with rfl | rfl
      · exact hall
      · rw [hmerged, hall]
    refine avg_between ?_ ?_ ?_ hops hevents
    · intro op hop
      obtain ⟨x, hx, rfl⟩ := List.mem_map.mp hop
      exact hclock x hx
    · rw [List.map_map]
      exact hfit
    · rw [List.length_map]
      exact hlength

/-- One operation of a second and one of two, on two threads. -/
def twoOps : List (Fin 2 × Operation) :=
  [(0, ⟨⟨5, 0⟩, ⟨6, 0⟩⟩), (1, ⟨⟨5, 0⟩, ⟨7, 0⟩⟩)]

theorem timers_partition_independent_two :
    ∃ (timers : Fin 2 → SbTimer) (single : SbTimer),
      (∀ i, timed (opsOf i twoOps) = some (timers i)) ∧
      timed [⟨⟨5, 0⟩, ⟨7, 0⟩⟩, ⟨⟨5, 0⟩, ⟨6, 0⟩⟩] = some single ∧
      (mergeAll (List.ofFn timers)).tally = single.tally ∧
      (∀ t₁ t₂, (mergeTimers t₁ t₂).tally = (mergeTimers t₂ t₁).tally) ∧
      (∀ t₁ t₂ t₃, (mergeTimers (mergeTimers t₁ t₂) t₃).tally =
        (mergeTimers t₁ (mergeTimers t₂ t₃)).tally) ∧
      (∀ t, (mergeTimers sbTimerInit t).tally = t.tally ∧
        (mergeTimers t sbTimerInit).tally = t.tally) ∧
      ((∀ x ∈ twoOps, 0 ≤ x.2.ns) → (twoOps.map fun x => x.2.ns).sum < 2 ^ 64 →
        twoOps.length < 2 ^ 64 → ∀ t, t = single ∨ t = mergeAll (List.ofFn timers) →
          0 < t.events → getMinTime t ≤ getAvgTime t ∧ getAvgTime t ≤ getMaxTime t) :=
  timers_partition_independent twoOps (List.Perm.swap _ _ _)

/-- Half of the range of a timer. -/
def halfRange : Operation := ⟨⟨0, 0⟩, ⟨9223372036, 854775808⟩⟩

/-- The times of two operations add up to nothing, and so the average is below the least. -/
theorem average_wraps : ∃ t, timed [halfRange, halfRange] = some t ∧ 0 < t.events ∧
    ¬ getMinTime t ≤ getAvgTime t :=
  ⟨_, rfl, by decide, by decide⟩

end TokuQa.Sysbench
