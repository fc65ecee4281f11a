import TokuQa.Lib.Blocks
import TokuQa.Sysbench.Checkpoints

/-!
# The intermediate reports of `sysbench.c`

`report_thread_proc` sleeps, prints a report, and looks at the clock; then it adds intervals to the
time for which it had just woken, until the sum is in the future, and sleeps until then. So the
reports keep to the grid of the first one, however long a report takes: what has passed by then is
left out, and nothing is made up for.

The sum is an `unsigned long long`. It goes on by one interval at least for each report, and not
every report takes an interval: `usleep` takes 32 bits of microseconds, and a longer pause is cut
short. After a few reports at a long interval the sum wraps around, and the grid is lost
(`keepsSchedule_iff`).

The readings of the clock are given, one for each report. What the report prints, and that it is
left out when the test has ended, does not show in the schedule.
-/

set_option autoImplicit false

namespace TokuQa.Sysbench.ReportSchedule

open TokuQa.Lib
open Checkpoints (sec2ns sec2ns_eq usleepArg)

/-- The inner loop, for so many turns: the `next_ns` it ends with. -/
def catchUp (interval curr : Nat) : Nat → Nat → Option Nat
  | 0, _ => none
  | turns + 1, prev =>
    let next := (prev + interval) % 2 ^ 64
    if next ≤ curr then catchUp interval curr turns next else some next

/-- A round of the outer loop, behind its report: the clock, the time of the next report, and the
pause until then. -/
structure Round where
  curr : Nat
  next : Nat
  pause : Nat
deriving DecidableEq

/-- The outer loop, for the readings of the clock. -/
def reportLoop (interval turns : Nat) : Nat → List Nat → Option (List Round)
  | _, [] => some []
  | prev, curr :: readings => do
    let next ← catchUp interval curr turns prev
    let later ← reportLoop interval turns next readings
    return ⟨curr, next, next - curr⟩ :: later

/-- `report_thread_proc`, from the first reading of the clock. -/
def reportThreadProc (reportInterval turns start : Nat) (readings : List Nat) :
    Option (List Round) :=
  reportLoop (sec2ns reportInterval) turns ((start + sec2ns reportInterval) % 2 ^ 64) readings

/-! ## What the schedule should be -/

/-- The next report, behind the one that was due at `prev`. -/
structure Scheduled (start interval prev : Nat) (r : Round) : Prop where
  future : r.curr < r.next
  pause : 0 < r.pause
  grid : ∃ k, r.next = start + k * interval
  increases : prev < r.next
  skipped : ∀ k, prev < start + k * interval → start + k * interval < r.next →
    start + k * interval ≤ r.curr

/-- Each round has the one before it. -/
def AllScheduled (start interval : Nat) : Nat → List Round → Prop
  | _, [] => True
  | prev, r :: rounds => Scheduled start interval prev r ∧ AllScheduled start interval r.next rounds

/-- **The thread keeps to its schedule**: it does not stay in the inner loop. The first report is
due an interval after the start. -/
def KeepsSchedule (reportInterval start : Nat) (readings : List Nat) : Prop :=
  ∃ turns rounds, reportThreadProc reportInterval turns start readings = some rounds ∧
    AllScheduled start (sec2ns reportInterval) (start + sec2ns reportInterval) rounds

/-- The first time of the grid behind two others. -/
def dueTime (start interval prev curr : Nat) : Nat :=
  start + nextCut interval (max prev curr - start)

/-- The times of the reports, as numbers without a bound. -/
def dueTimes (start interval : Nat) : Nat → List Nat → List Nat
  | _, [] => []
  | prev, curr :: readings =>
    dueTime start interval prev curr ::
      dueTimes start interval (dueTime start interval prev curr) readings

/-! ## A round -/

section

variable {start interval prev curr next t : Nat}

/-- What is due next is the first time of the grid that is later than both. -/
theorem dueTime_le_iff (hinterval : 0 < interval) (hprev : start ≤ prev) (k : Nat) :
    dueTime start interval prev curr ≤ start + k * interval ↔
      prev < start + k * interval ∧ curr < start + k * interval := by
  rw [dueTime, Nat.add_le_add_iff_left, nextCut_le_iff hinterval (Nat.dvd_mul_left interval k)]
  omega

theorem dueTime_grid (start interval prev curr : Nat) :
    ∃ k, dueTime start interval prev curr = start + k * interval := by
  obtain ⟨k, hk⟩ := dvd_nextCut interval (max prev curr - start)
  exact ⟨k, by rw [dueTime, hk, Nat.mul_comm]⟩

theorem dueTime_later (hinterval : 0 < interval) (hprev : start ≤ prev) (curr : Nat) :
    prev < dueTime start interval prev curr ∧ curr < dueTime start interval prev curr := by
  obtain ⟨k, hk⟩ := dueTime_grid start interval prev curr
  rw [hk]
  exact (dueTime_le_iff hinterval hprev k).mp hk.le

/-- Times of a grid are an interval apart. -/
theorem add_interval_le {j k : Nat} (h : start + j * interval < start + k * interval) :
    start + j * interval + interval ≤ start + k * interval := by
  have hjk : j < k := Nat.lt_of_mul_lt_mul_right (Nat.lt_of_add_lt_add_left h)
  have hmul := Nat.mul_le_mul_right interval hjk
  rw [Nat.succ_mul] at hmul
  omega

/-- **The inner loop ends at what is due next**, if that fits. -/
theorem catchUp_eq (hinterval : 0 < interval) {j turns : Nat} (hprev : prev = start + j * interval)
    (hfits : dueTime start interval prev curr < 2 ^ 64)
    (hturns : dueTime start interval prev curr ≤ prev + turns * interval) :
    catchUp interval curr turns prev = some (dueTime start interval prev curr) := by
  have hstart : start ≤ prev := by omega
  obtain ⟨hlater, hcurr⟩ := dueTime_later hinterval hstart curr
  induction turns generalizing prev j with
  | zero => omega
  | succ turns ih =>
    obtain ⟨k, hk⟩ := dueTime_grid start interval prev curr
    have hnext : prev + interval = start + (j + 1) * interval := by
      rw [hprev, Nat.succ_mul, Nat.add_assoc]
    have hle : prev + interval ≤ dueTime start interval prev curr := by
      rw [hk, hprev] at hlater
      rw [hk, hprev]
      exact add_interval_le hlater
    have hmod : (prev + interval) % 2 ^ 64 = prev + interval :=
      Nat.mod_eq_of_lt (hle.trans_lt hfits)
    rw [catchUp, hmod]
    split_ifs with hpast
    · -- The clock is what counts, of the two.
      have hsame : dueTime start interval prev curr =
          dueTime start interval (prev + interval) curr := by
        rw [dueTime, dueTime, max_eq_right (by omega), max_eq_right hpast]
      rw [Nat.succ_mul] at hturns
      rw [hsame] at hfits hcurr hturns ⊢
      have hstart' : start ≤ prev + interval := by omega
      exact ih hnext hfits (by omega) hstart' (dueTime_later hinterval hstart' curr).1 hcurr
    · have hdue : dueTime start interval prev curr ≤ prev + interval := by
        rw [hnext, dueTime_le_iff hinterval hstart, ← hnext]
        omega
      rw [le_antisymm hdue hle]

theorem catchUp_lt {turns : Nat} (h : catchUp interval curr turns prev = some next) :
    next < 2 ^ 64 := by
  induction turns generalizing prev with
  | zero => cases h
  | succ turns ih =>
    rw [catchUp] at h
    split_ifs at h with hpast
    · exact ih h
    · cases h
      exact Nat.mod_lt _ (Nat.two_pow_pos 64)

/-- A round that is right goes on to what is due next. -/
theorem Scheduled.next_eq (hinterval : 0 < interval) (hprev : start ≤ prev) {r : Round}
    (h : Scheduled start interval prev r) : r.next = dueTime start interval prev r.curr := by
  obtain ⟨k, hk⟩ := h.grid
  obtain ⟨j, hj⟩ := dueTime_grid start interval prev r.curr
  obtain ⟨hlater, hcurr⟩ := dueTime_later hinterval hprev r.curr
  have hle : dueTime start interval prev r.curr ≤ r.next := by
    rw [hk, dueTime_le_iff hinterval hprev, ← hk]
    exact ⟨h.increases, h.future⟩
  refine le_antisymm (not_lt.mp fun hlt => ?_) hle
  -- what is due would be left out, and is in the future
  rw [hj] at hlt hlater hcurr
  exact absurd (h.skipped j hlater hlt) (not_le.mpr hcurr)

theorem scheduled_dueTime (hinterval : 0 < interval) (hprev : start ≤ prev) :
    Scheduled start interval prev ⟨curr, dueTime start interval prev curr,
      dueTime start interval prev curr - curr⟩ := by
  obtain ⟨hlater, hcurr⟩ := dueTime_later hinterval hprev curr
  refine ⟨hcurr, Nat.sub_pos_of_lt hcurr, dueTime_grid start interval prev curr, hlater,
    fun k hk hskipped => ?_⟩
  by_contra hfuture
  exact absurd ((dueTime_le_iff hinterval hprev k).mpr ⟨hk, not_le.mp hfuture⟩)
    (not_le.mpr hskipped)

end

/-! ## A run -/

section

variable {start interval prev : Nat} {readings : List Nat}

/-- As long as the times fit, the thread reports at them. -/
theorem reportLoop_eq (hinterval : 0 < interval) {j turns : Nat} (hturns : 2 ^ 64 ≤ turns)
    (hprev : prev = start + j * interval)
    (hfits : ∀ t ∈ dueTimes start interval prev readings, t < 2 ^ 64) :
    ∃ rounds, reportLoop interval turns prev readings = some rounds ∧
      AllScheduled start interval prev rounds := by
  induction readings generalizing prev j with
  | nil => exact ⟨[], rfl, trivial⟩
  | cons curr readings ih =>
    obtain ⟨hfit, hrest⟩ := List.forall_mem_cons.mp hfits
    have hstart : start ≤ prev := by omega
    obtain ⟨k, hk⟩ := dueTime_grid start interval prev curr
    have henough : turns ≤ turns * interval := Nat.le_mul_of_pos_right _ hinterval
    obtain ⟨rounds, hloop, hall⟩ := ih hk hrest
    refine ⟨⟨curr, _, _⟩ :: rounds, ?_, scheduled_dueTime hinterval hstart, hall⟩
    rw [reportLoop, catchUp_eq hinterval hprev hfit (by omega)]
    simp only [Option.bind_eq_bind, Option.bind_some, hloop]
    rfl

/-- A thread that keeps to its schedule reports at times that fit. -/
theorem fits_of_allScheduled (hinterval : 0 < interval) {prev' turns : Nat} {rounds : List Round}
    (hprev : start ≤ prev) (h : reportLoop interval turns prev' readings = some rounds)
    (hall : AllScheduled start interval prev rounds) :
    ∀ t ∈ dueTimes start interval prev readings, t < 2 ^ 64 := by
  induction readings generalizing prev prev' rounds with
  | nil => exact List.forall_mem_nil _
  | cons curr readings ih =>
    obtain ⟨next, hcatch, hrest⟩ := Option.bind_eq_some_iff.mp h
    obtain ⟨later, hlater, hrounds⟩ := Option.bind_eq_some_iff.mp hrest
    cases hrounds
    obtain ⟨hfirst, hall⟩ := hall
    have hnext : next = dueTime start interval prev curr := hfirst.next_eq hinterval hprev
    have hfit := catchUp_lt hcatch
    dsimp only at hall
    rw [dueTimes, ← hnext]
    exact List.forall_mem_cons.mpr ⟨hfit, ih (hprev.trans hfirst.increases.le) hlater hall⟩

end

section

variable {reportInterval start : Nat} {readings : List Nat}

theorem sec2ns_pos (hpos : 0 < reportInterval) (htype : reportInterval < 2 ^ 32) :
    0 < sec2ns reportInterval := by
  rw [sec2ns_eq htype]
  omega

theorem keepsSchedule_of_fits (hpos : 0 < reportInterval) (htype : reportInterval < 2 ^ 32)
    (hfits : ∀ t ∈ dueTimes start (sec2ns reportInterval) (start + sec2ns reportInterval) readings,
      t < 2 ^ 64) : KeepsSchedule reportInterval start readings := by
  have hinterval := sec2ns_pos hpos htype
  have hgrid : start + sec2ns reportInterval = start + 1 * sec2ns reportInterval := by
    rw [Nat.one_mul]
  obtain ⟨turns, hturns⟩ : ∃ turns, 2 ^ 64 ≤ turns := ⟨_, le_rfl⟩
  obtain ⟨rounds, hrun, hall⟩ := reportLoop_eq hinterval hturns hgrid hfits
  refine ⟨turns, rounds, ?_, hall⟩
  cases readings with
  | nil =>
    rw [reportLoop] at hrun
    rw [reportThreadProc, reportLoop, hrun]
  | cons curr readings =>
    have hfirst : start + sec2ns reportInterval < 2 ^ 64 :=
      (dueTime_later hinterval (Nat.le_add_right _ _) curr).1.trans
        (List.forall_mem_cons.mp hfits).1
    rw [reportThreadProc, Nat.mod_eq_of_lt hfirst]
    exact hrun

theorem fits_of_keepsSchedule (hpos : 0 < reportInterval) (htype : reportInterval < 2 ^ 32)
    (h : KeepsSchedule reportInterval start readings) :
    ∀ t ∈ dueTimes start (sec2ns reportInterval) (start + sec2ns reportInterval) readings,
      t < 2 ^ 64 := by
  obtain ⟨turns, rounds, hrun, hall⟩ := h
  exact fits_of_allScheduled (sec2ns_pos hpos htype) (Nat.le_add_right _ _) hrun hall

/-- **When the thread keeps to its schedule**: when every time it comes to is below `2 ^ 64`
nanoseconds. -/
theorem keepsSchedule_iff (hpos : 0 < reportInterval) (htype : reportInterval < 2 ^ 32) :
    KeepsSchedule reportInterval start readings ↔
      ∀ t ∈ dueTimes start (sec2ns reportInterval) (start + sec2ns reportInterval) readings,
        t < 2 ^ 64 :=
  ⟨fits_of_keepsSchedule hpos htype, keepsSchedule_of_fits hpos htype⟩

end

/-- Reports every ten seconds, of which the second takes twenty-five. -/
theorem keepsSchedule_tenSeconds : KeepsSchedule 10 0 [10000000000, 45000000000] ↔
    ∀ t ∈ dueTimes 0 (sec2ns 10) (0 + sec2ns 10) [10000000000, 45000000000], t < 2 ^ 64 :=
  keepsSchedule_iff (by decide) (by decide)

/-- The longest interval there is: the thread wakes up every 72 minutes, and asks for a report an
interval later each time. -/
def longInterval : List Round :=
  [⟨4293967296000, 4294967294000000000, 4294963000032704000⟩,
    ⟨8587934592000, 6442450941000000000, 6442442353065408000⟩,
    ⟨12881901888000, 8589934588000000000, 8589921706098112000⟩,
    ⟨17175869184000, 10737418235000000000, 10737401059130816000⟩,
    ⟨21469836480000, 12884901882000000000, 12884880412163520000⟩,
    ⟨25763803776000, 15032385529000000000, 15032359765196224000⟩,
    ⟨30057771072000, 17179869176000000000, 17179839118228928000⟩,
    ⟨34351738368000, 880608749290448384, 880574397552080384⟩]

/-- After ten hours the sum wraps around. Nothing is late there: each reading is the one before it
and what `usleep` was asked for. -/
theorem schedule_lost :
    reportThreadProc 2147483647 1 0 (longInterval.map Round.curr) = some longInterval ∧
      longInterval.head?.map Round.curr = some (usleepArg (sec2ns 2147483647) * 1000) ∧
      longInterval.IsChain (fun r r' => r'.curr = r.curr + usleepArg r.pause * 1000) ∧
      ¬ KeepsSchedule 2147483647 0 (longInterval.map Round.curr) := by
  refine ⟨by decide, by decide, by decide, fun h => ?_⟩
  have hfits := fits_of_keepsSchedule (by decide) (by decide) h
  revert hfits
  decide

end TokuQa.Sysbench.ReportSchedule
