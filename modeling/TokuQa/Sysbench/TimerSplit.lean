import TokuQa.Lib.Run
import TokuQa.Sysbench.Timer

/-!
# Splits of a timer, and sums of times

`sb_timer_split` returns what has passed since the split before it, and goes on to return what is
left when the timer has been stopped. `sb_timer_split_tmc` does not move the split while the timer
runs. However the calls are mixed, the splits add up to the time between the start and the stop
(`splits_partition`): modulo `2 ^ 64`, as all times of a timer are. What is read from it grows as
long as it has not run for `2 ^ 64` nanoseconds.

`add_ns_to_timespec` adds in nanoseconds and carries seconds, in either direction. The sum is
exact, but a whole second is carried one short in two cases (`addNsToTimespec_iff`).

An overflow of a signed number is `none`.
-/

set_option autoImplicit false

namespace TokuQa.Sysbench

open TokuQa.Lib

/-! ## `add_ns_to_timespec` -/

/-- The result of an addition of `long long`s. -/
def signed64 (x : Int) : Option Int := if -2 ^ 63 ≤ x ∧ x < 2 ^ 63 then some x else none

def addNsToTimespec (dest : Timespec) (delta : Int) : Option Timespec := do
  let x ← signed64 (dest.nsec + delta)
  if 1000000000 < x then
    let sec ← signed64 (dest.sec + x.tdiv 1000000000)
    return ⟨sec, x.tmod 1000000000⟩
  else if x < 0 then
    let past ← signed64 (dest.sec - 1)
    let sec ← signed64 (past + x.tdiv 1000000000)
    return ⟨sec, x.tmod 1000000000 + 1000000000⟩
  else return ⟨dest.sec, x⟩

/-- Nanoseconds within a second. -/
def Timespec.Normal (t : Timespec) : Prop := 0 ≤ t.nsec ∧ t.nsec < 1000000000

theorem signed64_eq_some {x y : Int} (h : signed64 x = some y) : y = x := by
  unfold signed64 at h
  split_ifs at h
  cases h
  rfl

section

variable {dest dest' : Timespec} {delta : Int}

/-- What the sum is, in the three cases. -/
theorem addNsToTimespec_cases (h : addNsToTimespec dest delta = some dest') :
    (1000000000 < dest.nsec + delta ∧
      dest' = ⟨dest.sec + (dest.nsec + delta).tdiv 1000000000,
        (dest.nsec + delta).tmod 1000000000⟩) ∨
    (dest.nsec + delta < 0 ∧
      dest' = ⟨dest.sec - 1 + (dest.nsec + delta).tdiv 1000000000,
        (dest.nsec + delta).tmod 1000000000 + 1000000000⟩) ∨
    (0 ≤ dest.nsec + delta ∧ dest.nsec + delta ≤ 1000000000 ∧
      dest' = ⟨dest.sec, dest.nsec + delta⟩) := by
  obtain ⟨x, hx, h⟩ := Option.bind_eq_some_iff.mp h
  obtain rfl := signed64_eq_some hx
  split_ifs at h with hfuture hpast
  · obtain ⟨sec, hsec, h⟩ := Option.bind_eq_some_iff.mp h
    obtain rfl := signed64_eq_some hsec
    cases h
    exact .inl ⟨hfuture, rfl⟩
  · obtain ⟨past, hbefore, h⟩ := Option.bind_eq_some_iff.mp h
    obtain rfl := signed64_eq_some hbefore
    obtain ⟨sec, hsec, h⟩ := Option.bind_eq_some_iff.mp h
    obtain rfl := signed64_eq_some hsec
    cases h
    exact .inr (.inl ⟨hpast, rfl⟩)
  · cases h
    exact .inr (.inr ⟨not_lt.mp hpast, not_lt.mp hfuture, rfl⟩)

/-- The sum is exact, whatever the nanoseconds are. -/
theorem addNsToTimespec_ns (h : addNsToTimespec dest delta = some dest') :
    dest'.ns = dest.ns + delta := by
  have hdiv := Int.mul_tdiv_add_tmod (dest.nsec + delta) 1000000000
  obtain ⟨-, rfl⟩ | ⟨-, rfl⟩ | ⟨-, -, rfl⟩ := addNsToTimespec_cases h <;>
  · simp only [Timespec.ns]
    omega

/-- **When the sum is in order**: unless it is a whole second just reached, or whole seconds before
the second it was in. -/
theorem addNsToTimespec_iff (h : addNsToTimespec dest delta = some dest') :
    (dest'.ns = dest.ns + delta ∧ dest'.Normal) ↔
      ¬ (dest.nsec + delta = 1000000000 ∨
        (dest.nsec + delta < 0 ∧ 1000000000 ∣ dest.nsec + delta)) := by
  rw [and_iff_right (addNsToTimespec_ns h)]
  have hdiv := Int.mul_tdiv_add_tmod (dest.nsec + delta) 1000000000
  obtain ⟨hfuture, rfl⟩ | ⟨hpast, rfl⟩ | ⟨hsame, hsame', rfl⟩ := addNsToTimespec_cases h
  · have hnonneg := Int.tmod_nonneg 1000000000 (show 0 ≤ dest.nsec + delta by omega)
    have hlt := Int.tmod_lt_of_pos (dest.nsec + delta) (show (0 : Int) < 1000000000 by decide)
    refine iff_of_true ⟨hnonneg, hlt⟩ ?_
    omega
  · have hneg := Int.tmod_nonneg 1000000000 (show 0 ≤ -(dest.nsec + delta) by omega)
    rw [Int.neg_tmod] at hneg
    have hgt := Int.lt_tmod_of_pos (dest.nsec + delta) (show (0 : Int) < 1000000000 by decide)
    simp only [Timespec.Normal, Int.dvd_iff_tmod_eq_zero]
    omega
  · simp only [Timespec.Normal]
    omega

end

/-- The last nanosecond of a second, and one more. -/
theorem addNsToTimespec_one_second :
    ∃ sum, addNsToTimespec ⟨5, 999999999⟩ 1 = some sum ∧ Timespec.Normal ⟨5, 999999999⟩ ∧
      ¬ (sum.ns = Timespec.ns ⟨5, 999999999⟩ + 1 ∧ sum.Normal) := by
  refine ⟨⟨5, 1000000000⟩, rfl, ⟨by decide, by decide⟩, ?_⟩
  rintro ⟨-, hnormal⟩
  exact absurd hnormal.2 (by decide)

theorem addNsToTimespec_iff_carry :
    ((Timespec.mk 6 4).ns = Timespec.ns ⟨5, 999999999⟩ + 5 ∧ (Timespec.mk 6 4).Normal) ↔
      ¬ ((999999999 : Int) + 5 = 1000000000 ∨
        ((999999999 : Int) + 5 < 0 ∧ (1000000000 : Int) ∣ 999999999 + 5)) :=
  addNsToTimespec_iff (show addNsToTimespec ⟨5, 999999999⟩ 5 = some ⟨6, 4⟩ from rfl)

/-! ## Splits -/

/-- `sb_timer_split`: the split moves to the time of the call, or to that of the stop. -/
def sbTimerSplit (now : Timespec) (t : SbTimer) : Option (SbTimer × U64) :=
  match t.state with
  | .initialized => some (t, 0)
  | .stopped => some ({ t with timeSplit := t.timeEnd }, timespecDiff t.timeEnd t.timeSplit)
  | .running =>
    some ({ t with elapsed := timespecDiff now t.timeStart, timeSplit := now },
      timespecDiff now t.timeSplit)
  | .uninitialized => none

/-- `sb_timer_split_tmc`: the split stays where it is as long as the timer runs. -/
def sbTimerSplitTmc (now : Timespec) (t : SbTimer) : Option (SbTimer × U64) :=
  match t.state with
  | .initialized => some (t, 0)
  | .stopped => some ({ t with timeSplit := t.timeEnd }, timespecDiff t.timeEnd t.timeSplit)
  | .running =>
    some ({ t with elapsed := timespecDiff now t.timeStart }, timespecDiff now t.timeSplit)
  | .uninitialized => none

inductive TimerCall where
  | split
  | splitTmc
  | value
deriving DecidableEq

/-- What was called, what the clock showed, and what was returned. -/
structure Reading where
  call : TimerCall
  now : Timespec
  value : U64
deriving DecidableEq

/-- A call, at a time. -/
def callTimer (c : TimerCall × Timespec) (t : SbTimer) : Option (SbTimer × U64) :=
  match c.1 with
  | .split => sbTimerSplit c.2 t
  | .splitTmc => sbTimerSplitTmc c.2 t
  | .value => sbTimerValue c.2 t

def readTimer (c : TimerCall × Timespec) (t : SbTimer) : Option (List Reading × SbTimer) :=
  (callTimer c t).map fun r => ([⟨c.1, c.2, r.2⟩], r.1)

/-- What was read from a timer until it was stopped, what it measured then, and what was read
later. -/
structure Session where
  before : List Reading
  elapsed : U64
  after : List Reading
deriving DecidableEq

def session (timer : SbTimer) (start : Timespec) (before : List (TimerCall × Timespec))
    (stop : Timespec) (after : List (TimerCall × Timespec)) : Option Session := do
  let t ← sbTimerStart start timer
  let (read, t) ← emits readTimer before t
  let t ← sbTimerStop stop t
  let (read', _) ← emits readTimer after t
  return ⟨read, t.elapsed, read'⟩

/-- What the calls of one function returned. -/
def returned (call : TimerCall) (readings : List Reading) : List U64 :=
  (readings.filter (·.call = call)).map (·.value)

/-! ### Differences -/

theorem toU64_val (x : Int) : ((toU64 x).val : Int) = x % 2 ^ 64 := by
  rw [toU64, Fin.val_ofNat]
  omega

theorem timespecDiff_val (a b : Timespec) :
    ((timespecDiff a b).val : Int) = (a.ns - b.ns) % 2 ^ 64 := by
  rw [timespecDiff, toU64_val]
  congr 1
  simp only [Timespec.ns]
  omega

theorem timespecDiff_self (a : Timespec) : timespecDiff a a = 0 := by
  refine Fin.ext ?_
  have hval := timespecDiff_val a a
  rw [Int.sub_self] at hval
  exact Int.ofNat_inj.mp hval

theorem timespecDiff_add (a b c : Timespec) :
    timespecDiff b a + timespecDiff c b = timespecDiff c a := by
  refine Fin.ext ?_
  rw [Fin.val_add]
  have hab := timespecDiff_val b a
  have hbc := timespecDiff_val c b
  have hac := timespecDiff_val c a
  omega

theorem timespecDiff_le {a b : Timespec} (hclock : b.ns ≤ a.ns) :
    ((timespecDiff a b).val : Int) ≤ a.ns - b.ns := by
  rw [timespecDiff_val]
  omega

theorem timespecDiff_eq {a b : Timespec} (hclock : b.ns ≤ a.ns) (hfit : a.ns - b.ns < 2 ^ 64) :
    ((timespecDiff a b).val : Int) = a.ns - b.ns := by
  rw [timespecDiff_val]
  omega

theorem timespecDiff_mono {a b c : Timespec} (hca : c.ns ≤ a.ns) (hab : a.ns ≤ b.ns)
    (hfit : b.ns - c.ns < 2 ^ 64) : timespecDiff a c ≤ timespecDiff b c := by
  have ha := timespecDiff_eq hca (by omega)
  have hb := timespecDiff_eq (hca.trans hab) hfit
  rw [Fin.le_def]
  omega

/-! ### A running timer -/

theorem returned_append (call : TimerCall) (read read' : List Reading) :
    returned call (read ++ read') = returned call read ++ returned call read' := by
  rw [returned, List.filter_append, List.map_append]
  rfl

theorem readTimer_eq_some {c : TimerCall × Timespec} {t t' : SbTimer} {out : List Reading}
    (h : readTimer c t = some (out, t')) :
    ∃ res, callTimer c t = some (t', res) ∧ out = [⟨c.1, c.2, res⟩] := by
  obtain ⟨⟨t₁, res⟩, hcall, h⟩ := Option.map_eq_some_iff.mp h
  cases h
  exact ⟨res, hcall, rfl⟩

/-- A call is recorded as it was made. -/
theorem readTimer_records {c : TimerCall × Timespec} {t t' : SbTimer} {out : List Reading}
    (h : readTimer c t = some (out, t')) : out.map (fun r => (r.call, r.now)) = [c] := by
  obtain ⟨res, -, rfl⟩ := readTimer_eq_some h
  rfl

theorem readTimer_isSome {c : TimerCall × Timespec} {t : SbTimer}
    (hstate : t.state ≠ .uninitialized) : (readTimer c t).isSome := by
  obtain ⟨call, now⟩ := c
  rw [readTimer, Option.isSome_map]
  cases call <;>
  · simp only [callTimer, sbTimerSplit, sbTimerSplitTmc, sbTimerValue]
    split <;> first | rfl | contradiction

/-- What a call to a running timer returns, and what it does to the split. -/
theorem callTimer_running {c : TimerCall × Timespec} {t t' : SbTimer} {res : U64}
    (hstate : t.state = .running) (h : callTimer c t = some (t', res)) :
    t'.state = .running ∧ t'.timeStart = t.timeStart ∧
      t'.timeSplit = (if c.1 = .split then c.2 else t.timeSplit) ∧
      res = timespecDiff c.2 (if c.1 = .value then t.timeStart else t.timeSplit) := by
  obtain ⟨call, now⟩ := c
  cases call with
  | split =>
    simp only [callTimer, sbTimerSplit, hstate, Option.some.injEq, Prod.mk.injEq] at h
    obtain ⟨rfl, rfl⟩ := h
    exact ⟨rfl, rfl, rfl, rfl⟩
  | splitTmc =>
    simp only [callTimer, sbTimerSplitTmc, hstate, Option.some.injEq, Prod.mk.injEq] at h
    obtain ⟨rfl, rfl⟩ := h
    exact ⟨rfl, rfl, rfl, rfl⟩
  | value =>
    simp only [callTimer, sbTimerValue, hstate, Option.some.injEq, Prod.mk.injEq] at h
    obtain ⟨rfl, rfl⟩ := h
    exact ⟨hstate, rfl, rfl, rfl⟩

/-- What has been read from a timer since it was started at `begun`. -/
structure Running (begun : Timespec) (seen : List Reading) (t : SbTimer) : Prop where
  state : t.state = .running
  start : t.timeStart = begun
  splits : (returned .split seen).sum = timespecDiff t.timeSplit begun
  values : ∀ r ∈ seen, r.call = .value → r.value = timespecDiff r.now begun
  /-- The split is one of the times the clock has shown. -/
  shown : t.timeSplit ∈ begun :: seen.map (·.now)
  /-- As numbers, the splits add up only if the clock is not set back. -/
  sums : (begun :: seen.map (·.now)).Pairwise (fun a b => a.ns ≤ b.ns) →
    (∀ r ∈ seen, r.now.ns - begun.ns < 2 ^ 64) →
    (((returned .split seen).map Fin.val).sum : Int) = t.timeSplit.ns - begun.ns

theorem Running.begun_le {begun : Timespec} {seen : List Reading} {t : SbTimer}
    (hrun : Running begun seen t)
    (hclock : (begun :: seen.map (·.now)).Pairwise fun a b => a.ns ≤ b.ns) :
    begun.ns ≤ t.timeSplit.ns := by
  rcases List.mem_cons.mp hrun.shown with heq | hmem
  · rw [heq]
  · exact (List.pairwise_cons.mp hclock).1 _ hmem

theorem Running.call {begun : Timespec} {seen out : List Reading} {c : TimerCall × Timespec}
    {t t' : SbTimer} (hrun : Running begun seen t) (h : readTimer c t = some (out, t')) :
    Running begun (seen ++ out) t' := by
  obtain ⟨res, hcall, rfl⟩ := readTimer_eq_some h
  obtain ⟨hstate, hstart, hsplit, hres⟩ := callTimer_running hrun.state hcall
  refine ⟨hstate, hstart.trans hrun.start, ?_, ?_, ?_, ?_⟩
  · rw [returned_append, List.sum_append, hrun.splits, hsplit]
    by_cases hc : c.1 = .split
    · rw [if_pos hc, ← timespecDiff_add begun t.timeSplit c.2]
      simp [returned, hc, hres]
    · simp [returned, hc]
  · intro r hr hvalue
    rcases List.mem_append.mp hr with hr | hr
    · exact hrun.values r hr hvalue
    · obtain rfl := List.mem_singleton.mp hr
      rw [hres, if_pos hvalue, hrun.start]
  · rw [hsplit]
    split
    · simp
    · rw [List.map_append, ← List.cons_append]
      exact List.mem_append_left _ hrun.shown
  · intro hclock hfit
    rw [List.map_append, ← List.cons_append, List.pairwise_append] at hclock
    have hsum := hrun.sums hclock.1 fun r hr => hfit r (List.mem_append_left _ hr)
    rw [returned_append, List.map_append, List.sum_append, Nat.cast_add, hsum, hsplit]
    by_cases hc : c.1 = .split
    · have hbegun : begun.ns ≤ t.timeSplit.ns := hrun.begun_le hclock.1
      have hlast : t.timeSplit.ns ≤ c.2.ns := hclock.2.2 _ hrun.shown _ (by simp)
      have hnow : c.2.ns - begun.ns < 2 ^ 64 := hfit ⟨c.1, c.2, res⟩ (by simp)
      have hdiff := timespecDiff_eq hlast (by omega)
      simp [returned, hc, hres, hdiff]
    · simp [returned, hc]

/-! ### A stopped timer -/

/-- What no split has returned. -/
def SbTimer.rest (t : SbTimer) : U64 := timespecDiff t.timeEnd t.timeSplit

/-- What a call to a stopped timer returns, and what it leaves. -/
theorem callTimer_stopped {c : TimerCall × Timespec} {t t' : SbTimer} {res : U64}
    (hstate : t.state = .stopped) (h : callTimer c t = some (t', res)) :
    t'.state = .stopped ∧ t'.elapsed = t.elapsed ∧
      t'.rest = (if c.1 = .value then t.rest else 0) ∧
      res = if c.1 = .value then t.elapsed else t.rest := by
  obtain ⟨call, now⟩ := c
  cases call with
  | split =>
    simp only [callTimer, sbTimerSplit, hstate, Option.some.injEq, Prod.mk.injEq] at h
    obtain ⟨rfl, rfl⟩ := h
    exact ⟨rfl, rfl, timespecDiff_self _, rfl⟩
  | splitTmc =>
    simp only [callTimer, sbTimerSplitTmc, hstate, Option.some.injEq, Prod.mk.injEq] at h
    obtain ⟨rfl, rfl⟩ := h
    exact ⟨rfl, rfl, timespecDiff_self _, rfl⟩
  | value =>
    simp only [callTimer, sbTimerValue, hstate, Option.some.injEq, Prod.mk.injEq] at h
    obtain ⟨rfl, rfl⟩ := h
    exact ⟨hstate, rfl, rfl, rfl⟩

/-- What has been read from a timer since it was stopped, when it had measured `elapsed` and the
splits had yet to return `rest`. -/
structure Stopped (elapsed rest : U64) (seen : List Reading) (t : SbTimer) : Prop where
  state : t.state = .stopped
  measured : t.elapsed = elapsed
  values : ∀ r ∈ seen, r.call = .value → r.value = elapsed
  splits : (∀ r ∈ seen, r.call = .value) ∧ t.rest = rest ∨
    t.rest = 0 ∧ ∃ later, ((seen.filter (·.call ≠ .value)).map (·.value)) = rest :: later ∧
      ∀ v ∈ later, v = 0

theorem Stopped.call {elapsed rest : U64} {seen out : List Reading} {c : TimerCall × Timespec}
    {t t' : SbTimer} (hstop : Stopped elapsed rest seen t) (h : readTimer c t = some (out, t')) :
    Stopped elapsed rest (seen ++ out) t' := by
  obtain ⟨res, hcall, rfl⟩ := readTimer_eq_some h
  obtain ⟨hstate, helapsed, hrest, hres⟩ := callTimer_stopped hstop.state hcall
  refine ⟨hstate, helapsed.trans hstop.measured, ?_, ?_⟩
  · intro r hr hvalue
    rcases List.mem_append.mp hr with hr | hr
    · exact hstop.values r hr hvalue
    · obtain rfl := List.mem_singleton.mp hr
      rw [hres, if_pos hvalue, hstop.measured]
  · by_cases hc : c.1 = .value
    · rw [hrest, if_pos hc, List.filter_append]
      simpa [hc, or_imp, forall_and] using hstop.splits
    · rw [hrest, if_neg hc, List.filter_append, List.map_append]
      rw [if_neg hc] at hres
      refine .inr ⟨rfl, ?_⟩
      rcases hstop.splits with ⟨hnone, hleft⟩ | ⟨hleft, later, hlater, hzero⟩
      · refine ⟨[], ?_, nofun⟩
        rw [List.filter_eq_nil_iff.mpr fun r hr => by simp [hnone r hr]]
        simp [hc, hres, hleft]
      · refine ⟨later ++ [res], ?_, ?_⟩
        · rw [hlater]
          simp [hc]
        · intro v hv
          rcases List.mem_append.mp hv with hv | hv
          · exact hzero v hv
          · rw [List.mem_singleton.mp hv, hres, hleft]

/-! ### A session -/

section

variable {timer : SbTimer} {begun stop : Timespec} {before after : List (TimerCall × Timespec)}
  {s : Session}

theorem Running.begin (timer : SbTimer) (begun : Timespec) :
    Running begun []
      { timer with timeStart := begun, timeSplit := begun, state := .running } :=
  ⟨rfl, rfl, (timespecDiff_self begun).symm, nofun, List.mem_cons_self, fun _ _ =>
    (Int.sub_self _).symm⟩

theorem sbTimerStart_eq_some {t : SbTimer} (h : sbTimerStart begun timer = some t) :
    t = { timer with timeStart := begun, timeSplit := begun, state := .running } := by
  unfold sbTimerStart at h
  split at h
  · nomatch h
  · cases h
    rfl

/-- What a stop leaves of a running timer. -/
theorem Running.stopped {seen : List Reading} {t t' : SbTimer} (hrun : Running begun seen t)
    (h : sbTimerStop stop t = some t') :
    t'.elapsed = timespecDiff stop begun ∧
      Stopped t'.elapsed (timespecDiff stop t.timeSplit) [] t' := by
  unfold sbTimerStop at h
  rw [hrun.state] at h
  cases h
  refine ⟨?_, rfl, rfl, nofun, .inl ⟨nofun, rfl⟩⟩
  rw [← hrun.start]
  rfl

/-- The readings of a session: those of the timer while it ran, and those after its stop. -/
theorem session_eq_some (h : session timer begun before stop after = some s) :
    ∃ t t', Running begun s.before t ∧ s.elapsed = timespecDiff stop begun ∧
      Stopped s.elapsed (timespecDiff stop t.timeSplit) s.after t' ∧
      s.before.map (fun r => (r.call, r.now)) = before ∧
      s.after.map (fun r => (r.call, r.now)) = after := by
  obtain ⟨t₀, hstart, h⟩ := Option.bind_eq_some_iff.mp h
  obtain ⟨⟨seen, t₁⟩, hbefore, h⟩ := Option.bind_eq_some_iff.mp h
  obtain ⟨t₂, hstop, h⟩ := Option.bind_eq_some_iff.mp h
  obtain ⟨⟨later, t₃⟩, hafter, h⟩ := Option.bind_eq_some_iff.mp h
  cases h
  obtain rfl := sbTimerStart_eq_some hstart
  have hrun := emits_keeps Running.call (Running.begin timer begun) hbefore
  obtain ⟨helapsed, hstopped⟩ := hrun.stopped hstop
  exact ⟨t₁, t₃, hrun, helapsed, emits_keeps Stopped.call hstopped hafter,
    emits_records readTimer_records hbefore, emits_records readTimer_records hafter⟩

/-- Only a timer that was not initialised stops the program. -/
theorem session_eq_none :
    session timer begun before stop after = none ↔ timer.state = .uninitialized := by
  constructor
  · intro h
    by_contra hstate
    obtain ⟨t₀, hstart⟩ : ∃ t₀, sbTimerStart begun timer = some t₀ := by
      unfold sbTimerStart
      split
      · contradiction
      · exact ⟨_, rfl⟩
    obtain rfl := sbTimerStart_eq_some hstart
    have hbegin := Running.begin timer begun
    obtain ⟨⟨seen, t₁⟩, hbefore⟩ : ∃ r, emits readTimer before _ = some r :=
      Option.isSome_iff_exists.mp <| emits_total (W := fun _ => True) Running.call
        (fun hrun _ => readTimer_isSome (by rw [hrun.state]; decide)) hbegin fun _ _ => trivial
    have hrun := emits_keeps Running.call hbegin hbefore
    obtain ⟨t₂, hstop⟩ : ∃ t₂, sbTimerStop stop t₁ = some t₂ := by
      rw [sbTimerStop, hrun.state]
      exact ⟨_, rfl⟩
    obtain ⟨⟨later, t₃⟩, hafter⟩ : ∃ r, emits readTimer after t₂ = some r :=
      Option.isSome_iff_exists.mp <| emits_total (W := fun _ => True) Stopped.call
        (fun hstopped _ => readTimer_isSome (by rw [hstopped.state]; decide))
        (hrun.stopped hstop).2 fun _ _ => trivial
    have hsome : session timer begun before stop after = some ⟨seen, t₂.elapsed, later⟩ := by
      refine Option.bind_eq_some_iff.mpr ⟨_, hstart, ?_⟩
      exact Option.bind_eq_some_iff.mpr ⟨_, hbefore, Option.bind_eq_some_iff.mpr
        ⟨_, hstop, Option.bind_eq_some_iff.mpr ⟨_, hafter, rfl⟩⟩⟩
    rw [hsome] at h
    nomatch h
  · intro hstate
    rw [session, sbTimerStart, hstate]
    rfl

/-- The splits after a stop. -/
theorem Stopped.splits_eq {elapsed rest rest' : U64} {seen : List Reading} {later : List U64}
    {t : SbTimer} (hstop : Stopped elapsed rest seen t) (hcalls : ∀ r ∈ seen, r.call ≠ .splitTmc)
    (hsplits : returned .split seen = rest' :: later) : rest' = rest ∧ ∀ v ∈ later, v = 0 := by
  have hsame : returned .split seen = (seen.filter (·.call ≠ .value)).map (·.value) := by
    rw [returned]
    refine congrArg (List.map Reading.value) (List.filter_congr fun r hr => ?_)
    have hcall := hcalls r hr
    cases hr : r.call with
    | split => rfl
    | splitTmc => contradiction
    | value => rfl
  rcases hstop.splits with ⟨hvalues, -⟩ | ⟨-, later', hlater, hzero⟩
  · rw [hsame, List.filter_eq_nil_iff.mpr fun r hr => by simp [hvalues r hr]] at hsplits
    nomatch hsplits
  · rw [hsame, hlater] at hsplits
    cases hsplits
    exact ⟨rfl, hzero⟩

end

/-- What a session that was started at `begun` and stopped at `stop` reads. -/
structure Session.Partitions (begun stop : Timespec) (s : Session) : Prop where
  /-- The first split after the stop returns what those before it have left, and the later ones
  nothing. -/
  splits : ∀ rest later, returned .split s.after = rest :: later →
    (returned .split s.before).sum + rest = s.elapsed ∧ ∀ v ∈ later, v = 0
  values_le : ∀ r ∈ s.before ++ s.after, r.call = .value →
    (r.value.val : Int) ≤ r.now.ns - begun.ns
  elapsed : stop.ns - begun.ns < 2 ^ 64 → (s.elapsed.val : Int) = stop.ns - begun.ns
  /-- The splits add up as numbers too. -/
  sums : stop.ns - begun.ns < 2 ^ 64 → ∀ rest later, returned .split s.after = rest :: later →
    (((returned .split s.before).map Fin.val).sum + rest.val : Int) = stop.ns - begun.ns
  values_mono : stop.ns - begun.ns < 2 ^ 64 →
    (returned .value (s.before ++ s.after)).Pairwise (· ≤ ·)

/-- What is read from a timer grows, as long as the time it measures fits: while it runs with the
clock, and behind the stop it is the same. -/
theorem values_pairwise {begun stop : Timespec} {before after : List Reading}
    (hbefore : ∀ r ∈ before, r.call = .value → r.value = timespecDiff r.now begun)
    (hafter : ∀ r ∈ after, r.call = .value → r.value = timespecDiff stop begun)
    (hclock : (begun :: before.map (·.now)).Pairwise fun a b => a.ns ≤ b.ns)
    (hstop : ∀ r ∈ before, r.now.ns ≤ stop.ns) (hfit : stop.ns - begun.ns < 2 ^ 64) :
    (returned .value (before ++ after)).Pairwise (· ≤ ·) := by
  obtain ⟨hbegun, hnext⟩ := List.pairwise_cons.mp hclock
  have hbegun : ∀ r ∈ before, begun.ns ≤ r.now.ns := fun r hr =>
    hbegun _ (List.mem_map_of_mem hr)
  rw [returned, List.pairwise_map, List.pairwise_filter, List.pairwise_append]
  refine ⟨?_, ?_, fun r hr r' hr' hvalue hvalue' => ?_⟩
  · refine (List.pairwise_map.mp hnext).imp_of_mem fun {r r'} hr hr' hle hvalue hvalue' => ?_
    rw [hbefore r hr (of_decide_eq_true hvalue), hbefore r' hr' (of_decide_eq_true hvalue')]
    have hnow := hstop r' hr'
    exact timespecDiff_mono (hbegun r hr) hle (by omega)
  · refine List.pairwise_of_forall_mem_list fun r hr r' hr' hvalue hvalue' => ?_
    rw [hafter r hr (of_decide_eq_true hvalue), hafter r' hr' (of_decide_eq_true hvalue')]
  · rw [hbefore r hr (of_decide_eq_true hvalue), hafter r' hr' (of_decide_eq_true hvalue')]
    exact timespecDiff_mono (hbegun r hr) (hstop r hr) hfit

/-- **The splits are a partition of the time** between the start and the stop: modulo `2 ^ 64`, and
exactly if the timer was stopped within `2 ^ 64` nanoseconds. -/
theorem splits_partition (timer : SbTimer) (begun stop : Timespec)
    (before after : List (TimerCall × Timespec)) (hafter : ∀ c ∈ after, c.1 ≠ .splitTmc)
    (hclock : (begun :: before.map Prod.snd ++ stop :: after.map Prod.snd).Pairwise
      fun a b => a.ns ≤ b.ns) :
    (session timer begun before stop after = none ↔ timer.state = .uninitialized) ∧
      ∀ s, session timer begun before stop after = some s → s.Partitions begun stop := by
  refine ⟨session_eq_none, fun s h => ?_⟩
  obtain ⟨t, t', hrun, helapsed, hstop, hbefore, hlater⟩ := session_eq_some h
  have hcalls : ∀ r ∈ s.after, r.call ≠ .splitTmc := by
    intro r hr
    exact hafter (r.call, r.now) (hlater ▸ List.mem_map_of_mem hr)
  -- the clock, in terms of the readings
  rw [← hbefore, ← hlater, List.map_map, List.map_map, List.pairwise_append] at hclock
  obtain ⟨hrunning, hstopped, hcross⟩ := hclock
  have hbegun : ∀ r ∈ s.before, begun.ns ≤ r.now.ns := fun r hr =>
    (List.pairwise_cons.mp hrunning).1 _ (List.mem_map_of_mem hr)
  have hstopAfter : ∀ r ∈ s.before, r.now.ns ≤ stop.ns := fun r hr =>
    hcross _ (List.mem_cons_of_mem _ (List.mem_map_of_mem hr)) _ List.mem_cons_self
  have hstopBefore : ∀ r ∈ s.after, stop.ns ≤ r.now.ns := fun r hr =>
    (List.pairwise_cons.mp hstopped).1 _ (List.mem_map_of_mem hr)
  have hstop' : begun.ns ≤ stop.ns := hcross _ List.mem_cons_self _ List.mem_cons_self
  have hshown : t.timeSplit.ns ≤ stop.ns := hcross _ hrun.shown _ List.mem_cons_self
  refine ⟨fun rest later hsplits => ?_, fun r hr hvalue => ?_, fun hfit => ?_,
    fun hfit rest later hsplits => ?_, fun hfit => ?_⟩
  · obtain ⟨rfl, hzero⟩ := hstop.splits_eq hcalls hsplits
    rw [hrun.splits, timespecDiff_add, helapsed]
    exact ⟨rfl, hzero⟩
  · rcases List.mem_append.mp hr with hr | hr
    · rw [hrun.values r hr hvalue]
      exact timespecDiff_le (hbegun r hr)
    · rw [hstop.values r hr hvalue, helapsed]
      have hle := timespecDiff_le hstop'
      have hnow := hstopBefore r hr
      omega
  · rw [helapsed]
    exact timespecDiff_eq hstop' hfit
  · obtain ⟨rfl, -⟩ := hstop.splits_eq hcalls hsplits
    have hsum := hrun.sums hrunning fun r hr => by
      have hnow := hstopAfter r hr
      omega
    have hsplit : begun.ns ≤ t.timeSplit.ns := hrun.begun_le hrunning
    rw [hsum, timespecDiff_eq hshown (by omega)]
    omega
  · have hstopped' : ∀ r ∈ s.after, r.call = .value → r.value = timespecDiff stop begun :=
      fun r hr hvalue => (hstop.values r hr hvalue).trans helapsed
    exact values_pairwise hrun.values hstopped' hrunning hstopAfter hfit

theorem splits_partition_four_seconds :
    (session sbTimerInit ⟨5, 0⟩ [(.split, ⟨6, 0⟩), (.value, ⟨7, 0⟩), (.splitTmc, ⟨7, 5⟩)] ⟨9, 0⟩
        [(.split, ⟨9, 5⟩), (.value, ⟨9, 5⟩)] = none ↔ sbTimerInit.state = .uninitialized) ∧
      ∀ s, session sbTimerInit ⟨5, 0⟩ [(.split, ⟨6, 0⟩), (.value, ⟨7, 0⟩), (.splitTmc, ⟨7, 5⟩)]
        ⟨9, 0⟩ [(.split, ⟨9, 5⟩), (.value, ⟨9, 5⟩)] = some s → s.Partitions ⟨5, 0⟩ ⟨9, 0⟩ :=
  splits_partition _ _ _ _ _ (by decide) (by decide)

/-- A timer that runs for `2 ^ 64` nanoseconds is back at nothing. -/
theorem value_wraps : ∃ s, session sbTimerInit ⟨0, 0⟩
    [(.value, ⟨18446744073, 709551615⟩), (.value, ⟨18446744073, 709551616⟩)]
    ⟨18446744073, 709551616⟩ [] = some s ∧
      ¬ (returned .value (s.before ++ s.after)).Pairwise (· ≤ ·) :=
  ⟨_, rfl, by decide⟩

end TokuQa.Sysbench
