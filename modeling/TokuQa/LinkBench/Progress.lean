import Mathlib.Algebra.Order.BigOperators.Group.Finset
import TokuQa.Lib.JavaInt
import TokuQa.Lib.Run
import TokuQa.Lib.Threads

/-!
# The request loop of `LinkBenchRequest.run`, and the progress tracker

Each requester counts its requests by itself, and hands them to the shared `RequestProgress` in
batches: the loop registers a batch when it has grown to `THREAD_REPORT_INTERVAL`, and what is
left when the loop ends. `update` adds to an `AtomicLong`, so a step here is either one such
addition or a piece of a requester's loop between two of them, and steps of different
requesters interleave freely.

The tracker never runs ahead, and lags behind by what the requesters have in hand: less than a
batch, or a whole one at the moment between counting the last request of it and registering it
(`progress_inv`). At the end nothing is in hand.

The loop is the one of a run that is not `singleAssoc`. Log messages, statistics, the request
rate and what `update` prints are left out; the clock is what each iteration reads.
-/

set_option autoImplicit false

namespace TokuQa.LinkBench.Progress

open TokuQa.Lib

/-- `RequestProgress.THREAD_REPORT_INTERVAL`. -/
def threadReportInterval : Nat := 250

/-- What a requester is configured with, and the time it starts at. -/
structure Config where
  numRequests : Int
  maxFailedRequests : Int
  warmupTime : Int
  maxTime : Int
  warmupStartTime : Int

namespace Config

def benchmarkStartTime (c : Config) : Int :=
  if c.warmupTime ≤ 0 then c.warmupStartTime
  else wrap64 (c.warmupStartTime + wrap64 (c.warmupTime * 1000))

def endTime (c : Config) : Int := wrap64 (c.benchmarkStartTime + wrap64 (c.maxTime * 1000))

end Config

/-- Where a requester is. -/
inductive Pc where
  /-- At the test of the loop. -/
  | loop
  /-- Counted a request, and is about to register a batch. -/
  | update (curTime : Int)
  /-- In the rest of the loop's body. -/
  | rest (curTime : Int)
  /-- Behind the loop. -/
  | final
  | finished
deriving DecidableEq

/-- The variables of `run`. -/
structure Requester where
  pc : Pc
  requestsDone : Nat
  requestsSinceLastUpdate : Nat
  errors : Nat
  warmupRequests : Nat
  warmupDone : Bool
  aborted : Bool
deriving DecidableEq

namespace Requester

def start (c : Config) : Requester :=
  ⟨.loop, 0, 0, 0, 0, c.warmupTime ≤ 0, false⟩

/-- The request failed, and it is one failure too many. -/
def givesUp (c : Config) (success : Bool) (r : Requester) : Bool :=
  !success && (0 ≤ c.maxFailedRequests ∧ c.maxFailedRequests < (r.errors + 1 : Nat) : Bool)

/-- `oneRequest` and the code up to the call of `update`. -/
def request (c : Config) (success : Bool) (curTime : Int) (r : Requester) : Requester :=
  let errors := if success then r.errors else r.errors + 1
  if r.givesUp c success then { r with errors, aborted := true, pc := .final }
  else if r.warmupDone then
    { r with
      errors
      requestsDone := r.requestsDone + 1
      requestsSinceLastUpdate := r.requestsSinceLastUpdate + 1
      pc :=
        if threadReportInterval ≤ r.requestsSinceLastUpdate + 1 then .update curTime
        else .rest curTime }
  else { r with errors, warmupRequests := r.warmupRequests + 1, pc := .rest curTime }

/-- The rest of the body: the warm-up may be over, and the time may be up. -/
def finishIteration (c : Config) (curTime : Int) (r : Requester) : Requester :=
  let pc := if c.endTime < curTime then .final else .loop
  if !r.warmupDone ∧ c.benchmarkStartTime ≤ curTime then
    { r with warmupDone := true, requestsSinceLastUpdate := 0, pc }
  else { r with pc }

end Requester

/-- What a step needs to know from outside: how a request went, and what time it is then. -/
inductive Event where
  | request (success : Bool) (curTime : Int)
  | go

/-- One step of a requester, on the tracker's `requestsDone` and its own variables. -/
def act (c : Config) (e : Event) (done : Nat) (r : Requester) : Option (Nat × Requester) :=
  match e, r.pc with
  | .request success curTime, .loop =>
    if (r.requestsDone : Int) < c.numRequests then some (done, r.request c success curTime)
    else none
  | .go, .loop =>
    if (r.requestsDone : Int) < c.numRequests then none else some (done, { r with pc := .final })
  | .go, .update curTime =>
    some (done + r.requestsSinceLastUpdate,
      { r with requestsSinceLastUpdate := 0, pc := .rest curTime })
  | .go, .rest curTime => some (done, r.finishIteration c curTime)
  | .go, .final => some (done + r.requestsSinceLastUpdate, { r with pc := .finished })
  | _, _ => none

/-- The tracker and the requesters. -/
structure System (n : Nat) where
  requestsDone : Nat
  requester : Fin n → Requester

variable {n : Nat} (c : Fin n → Config)

def start : System n := ⟨0, fun i => Requester.start (c i)⟩

/-- One of the requesters makes a step. -/
def step (x : Fin n × Event) (s : System n) : Option (System n) :=
  (act (c x.1) x.2 s.requestsDone (s.requester x.1)).map fun r =>
    ⟨r.1, Function.update s.requester x.1 r.2⟩

/-- A request that counts: the warm-up is over, and it is not the one that makes the requester
give up. -/
def Requester.measured (c : Config) (e : Event) (r : Requester) : Bool :=
  match e with
  | .request success _ => r.warmupDone && !r.givesUp c success
  | .go => false

/-- Requester `i` makes such a request. -/
def measured (i : Fin n) (x : Fin n × Event) (s : System n) : Bool :=
  x.1 = i && (s.requester i).measured (c i) x.2

/-! ## What is in hand -/

/-- The counted requests a requester has still to register. -/
def Requester.pending (r : Requester) : Nat :=
  if r.pc = .finished then 0 else r.requestsSinceLastUpdate

/-- How many they can be: a full batch only on the way to `update`. -/
def Requester.limit (r : Requester) : Nat :=
  match r.pc with
  | .update _ => threadReportInterval
  | .finished => 0
  | _ => threadReportInterval - 1

/-- What holds of a requester's variables at every point of its loop. -/
structure Requester.Ok (r : Requester) : Prop where
  inHand : r.pending ≤ r.limit
  /-- The batch the end of the warm-up throws away is empty. -/
  warmup : r.warmupDone = false → r.requestsSinceLastUpdate = 0

theorem Requester.ok_start (c : Config) : (Requester.start c).Ok :=
  ⟨Nat.zero_le _, fun _ => rfl⟩

section

variable {c : Config} {e : Event} {done done' : Nat} {r r' : Requester}

/-- The steps of a requester. -/
theorem act_cases (h : act c e done r = some (done', r')) :
    (∃ success curTime, e = .request success curTime ∧ r.pc = .loop ∧ done' = done ∧
      r' = r.request c success curTime) ∨
    (e = .go ∧ r.pc = .loop ∧ done' = done ∧ r' = { r with pc := .final }) ∨
    (∃ curTime, e = .go ∧ r.pc = .update curTime ∧ done' = done + r.requestsSinceLastUpdate ∧
      r' = { r with requestsSinceLastUpdate := 0, pc := .rest curTime }) ∨
    (∃ curTime, e = .go ∧ r.pc = .rest curTime ∧ done' = done ∧
      r' = r.finishIteration c curTime) ∨
    (e = .go ∧ r.pc = .final ∧ done' = done + r.requestsSinceLastUpdate ∧
      r' = { r with pc := .finished }) := by
  unfold act at h
  cases e with
  | request success curTime =>
    cases hpc : r.pc with
    | loop =>
      simp only [hpc] at h
      split at h
      · cases h
        exact Or.inl ⟨success, curTime, rfl, rfl, rfl, rfl⟩
      · cases h
    | _ =>
      simp only [hpc] at h
      cases h
  | go =>
    right
    cases hpc : r.pc with
    | loop =>
      simp only [hpc] at h
      split at h
      · cases h
      · cases h
        exact Or.inl ⟨rfl, rfl, rfl, rfl⟩
    | update curTime =>
      simp only [hpc] at h
      cases h
      exact Or.inr (Or.inl ⟨curTime, rfl, rfl, rfl, rfl⟩)
    | rest curTime =>
      simp only [hpc] at h
      cases h
      exact Or.inr (Or.inr (Or.inl ⟨curTime, rfl, rfl, rfl, rfl⟩))
    | final =>
      simp only [hpc] at h
      cases h
      exact Or.inr (Or.inr (Or.inr ⟨rfl, rfl, rfl, rfl⟩))
    | finished =>
      simp only [hpc] at h
      cases h

/-- In the loop, and between two batches, less than a batch is in hand. -/
theorem Requester.Ok.lt_interval (hok : r.Ok) (hopen : r.pc = .loop ∨ ∃ t, r.pc = .rest t) :
    r.requestsSinceLastUpdate < threadReportInterval := by
  have hlimit := hok.inHand
  have hpos : 0 < threadReportInterval := by decide
  rcases hopen with hpc | ⟨t, hpc⟩
  · simp only [pending, limit, hpc, reduceCtorEq, if_false] at hlimit
    omega
  · simp only [pending, limit, hpc, reduceCtorEq, if_false] at hlimit
    omega

/-- The other way round, for a requester that is not about to register. -/
theorem Requester.ok_of_lt (hlt : r.requestsSinceLastUpdate < threadReportInterval)
    (hwarm : r.warmupDone = false → r.requestsSinceLastUpdate = 0) (hpc : r.pc ≠ .finished) :
    r.Ok := by
  refine ⟨?_, hwarm⟩
  unfold pending limit
  rw [if_neg hpc]
  split
  · exact hlt.le
  · exact absurd (by assumption) hpc
  · exact Nat.le_pred_of_lt hlt

theorem request_spec (hok : r.Ok) (hpc : r.pc = .loop) (success : Bool) (curTime : Int) :
    (r.request c success curTime).Ok ∧
      (r.request c success curTime).requestsDone =
        r.requestsDone + (if r.measured c (.request success curTime) then 1 else 0) ∧
      (r.request c success curTime).pending + r.requestsDone =
        r.pending + (r.request c success curTime).requestsDone := by
  have hlt := hok.lt_interval (Or.inl hpc)
  unfold Requester.request
  cases hgives : r.givesUp c success with
  | true =>
    refine ⟨Requester.ok_of_lt hlt hok.warmup (by simp), ?_, ?_⟩
    · simp [Requester.measured, hgives]
    · simp [Requester.pending, hpc]
  | false =>
    cases hdone : r.warmupDone with
    | true =>
      simp only [Bool.false_eq_true, if_false, if_true]
      by_cases hfull : threadReportInterval ≤ r.requestsSinceLastUpdate + 1
      · -- the batch is full: `update` is next
        simp only [hfull, if_true]
        refine ⟨⟨?_, fun hw => by cases hw⟩, ?_, ?_⟩
        · simp only [Requester.pending, Requester.limit, reduceCtorEq, if_false]
          omega
        · simp [Requester.measured, hgives, hdone]
        · simp only [Requester.pending, hpc, reduceCtorEq, if_false]
          omega
      · simp only [hfull, if_false]
        refine ⟨Requester.ok_of_lt (Nat.lt_of_not_le hfull) (fun hw => by cases hw) (by simp), ?_, ?_⟩
        · simp [Requester.measured, hgives, hdone]
        · simp only [Requester.pending, hpc, reduceCtorEq, if_false]
          omega
    | false =>
      refine ⟨Requester.ok_of_lt hlt (fun _ => hok.warmup hdone) (by simp), ?_, ?_⟩
      · simp [Requester.measured, hdone]
      · simp [Requester.pending, hpc]

theorem finishIteration_spec (hok : r.Ok) {curTime : Int} (hpc : r.pc = .rest curTime) :
    (r.finishIteration c curTime).Ok ∧
      (r.finishIteration c curTime).requestsDone = r.requestsDone ∧
      (r.finishIteration c curTime).pending = r.pending := by
  have hlt := hok.lt_interval (Or.inr ⟨curTime, hpc⟩)
  have hopen : (if c.endTime < curTime then Pc.final else Pc.loop) ≠ .finished := by
    split <;> simp
  unfold Requester.finishIteration
  by_cases hover : (!r.warmupDone) = true ∧ c.benchmarkStartTime ≤ curTime
  · -- the batch that is dropped is empty
    have hzero := hok.warmup (by simpa using hover.1)
    rw [if_pos hover]
    have hpos : 0 < threadReportInterval := by decide
    refine ⟨Requester.ok_of_lt hpos (fun _ => rfl) hopen, rfl, ?_⟩
    simp [Requester.pending, hopen, hpc, hzero]
  · rw [if_neg hover]
    refine ⟨Requester.ok_of_lt hlt hok.warmup hopen, rfl, ?_⟩
    simp [Requester.pending, hopen, hpc]

/-- **A step registers what it takes out of the hand**, and counts what it puts in. -/
theorem act_spec (hok : r.Ok) (h : act c e done r = some (done', r')) :
    r'.Ok ∧ r'.requestsDone = r.requestsDone + (if r.measured c e then 1 else 0) ∧
      done' + r'.pending + r.requestsDone = done + r.pending + r'.requestsDone := by
  rcases act_cases h with ⟨success, curTime, rfl, hpc, rfl, rfl⟩ | ⟨rfl, hpc, rfl, rfl⟩ |
    ⟨curTime, rfl, hpc, rfl, rfl⟩ | ⟨curTime, rfl, hpc, rfl, rfl⟩ | ⟨rfl, hpc, rfl, rfl⟩
  · obtain ⟨hok', hcount, hpending⟩ := request_spec (c := c) hok hpc success curTime
    exact ⟨hok', hcount, by omega⟩
  · refine ⟨Requester.ok_of_lt (hok.lt_interval (Or.inl hpc)) hok.warmup (by simp), rfl, ?_⟩
    simp [Requester.pending, hpc]
  · refine ⟨⟨Nat.zero_le _, fun _ => rfl⟩, rfl, by simp [Requester.pending, hpc]⟩
  · obtain ⟨hok', hcount, hpending⟩ := finishIteration_spec (c := c) hok hpc
    exact ⟨hok', hcount, by omega⟩
  · exact ⟨⟨Nat.zero_le _, hok.warmup⟩, rfl, by simp [Requester.pending, hpc]⟩

end

/-! ## The system -/

/-- Every requester is in order, and what is counted is registered or in hand. -/
structure Inv (s : System n) : Prop where
  requesters : ∀ i, (s.requester i).Ok
  account : s.requestsDone + ∑ i, (s.requester i).pending = ∑ i, (s.requester i).requestsDone

theorem inv_start : Inv (start c) := by
  refine ⟨fun i => Requester.ok_start (c i), ?_⟩
  simp [start, Requester.start, Requester.pending]

theorem Inv.step {c} {x : Fin n × Event} {s s' : System n} (h : Inv s) (hstep : step c x s = some s') :
    Inv s' := by
  obtain ⟨⟨done', r'⟩, hact, rfl⟩ := Option.map_eq_some_iff.mp hstep
  obtain ⟨hok, -, hbalance⟩ := act_spec (h.requesters x.1) hact
  refine ⟨forall_update (P := fun _ r => Requester.Ok r) h.requesters hok, ?_⟩
  have hpending := sum_update Requester.pending s.requester x.1 r'
  have hdone := sum_update Requester.requestsDone s.requester x.1 r'
  have haccount := h.account
  dsimp only
  omega

/-- A requester's own steps move its count, and its measured requests move it by one. -/
theorem step_counts {c} {x : Fin n × Event} {s s' : System n} (h : Inv s)
    (hstep : step c x s = some s') (i : Fin n) :
    (s'.requester i).requestsDone =
      (s.requester i).requestsDone + if measured c i x s then 1 else 0 := by
  obtain ⟨⟨done', r'⟩, hact, rfl⟩ := Option.map_eq_some_iff.mp hstep
  obtain ⟨-, hcount, -⟩ := act_spec (h.requesters x.1) hact
  by_cases hi : i = x.1
  · subst hi
    simpa [measured] using hcount
  · have hne : ¬ x.1 = i := fun he => hi he.symm
    simp [measured, hi, hne]

theorem run_inv {c} {events : List (Fin n × Event)} {s : System n}
    (h : run (step c) events (start c) = some s) : Inv s :=
  have hok : AllSteps (step c) (fun _ _ => True) events (start c) :=
    allSteps_of_forall (fun _ _ => trivial) _ _
  run_keeps (fun hinv _ hstep => hinv.step hstep) (inv_start c) hok h

theorem run_measured {c} {events : List (Fin n × Event)} {s : System n}
    (h : run (step c) events (start c) = some s) (i : Fin n) :
    (s.requester i).requestsDone = countSteps (step c) (measured c i) events (start c) := by
  have hcount := run_counts (f := fun s => (s.requester i).requestsDone) Inv.step
    (fun hinv hstep => step_counts hinv hstep i) (inv_start c) h
  rw [hcount]
  exact Nat.zero_add _

/-- **The tracker follows the requesters**, in every state of every run: it is not ahead of
them; it lags by less than a batch for each requester that runs, and by a batch for one that
has counted a batch and not yet registered it; it has caught up when all have finished; and a
requester counts its requests after the warm-up, and no others. -/
theorem progress_tracked {c} {events : List (Fin n × Event)} {s : System n}
    (h : run (step c) events (start c) = some s) :
    s.requestsDone ≤ ∑ i, (s.requester i).requestsDone ∧
      ∑ i, (s.requester i).requestsDone ≤ s.requestsDone + ∑ i, (s.requester i).limit ∧
      ((∀ i, (s.requester i).pc = .finished) →
        s.requestsDone = ∑ i, (s.requester i).requestsDone) ∧
      ∀ i, (s.requester i).requestsDone =
        countSteps (step c) (measured c i) events (start c) := by
  have hinv := run_inv h
  have haccount := hinv.account
  have hlimit : ∑ i, (s.requester i).pending ≤ ∑ i, (s.requester i).limit :=
    Finset.sum_le_sum fun i _ => (hinv.requesters i).inHand
  refine ⟨by omega, by omega, ?_, run_measured h⟩
  intro hfinished
  have hnone : ∑ i, (s.requester i).pending = 0 := by
    refine Finset.sum_eq_zero fun i _ => ?_
    rw [Requester.pending, if_pos (hfinished i)]
  omega

/-- One requester without a warm-up, that stops at its first failure. -/
def single (numRequests : Int) : Fin 1 → Config := fun _ => ⟨numRequests, 0, 0, 10, 0⟩

/-- One request, from the start to the end of the requester. -/
theorem progress_tracked_one :
    ∃ s, run (step (single 1)) [(0, .request true 0), (0, .go), (0, .go), (0, .go)]
        (start (single 1)) = some s ∧
      s.requestsDone ≤ ∑ i, (s.requester i).requestsDone ∧
      ∑ i, (s.requester i).requestsDone ≤ s.requestsDone + ∑ i, (s.requester i).limit ∧
      ((∀ i, (s.requester i).pc = .finished) →
        s.requestsDone = ∑ i, (s.requester i).requestsDone) ∧
      ∀ i, (s.requester i).requestsDone = countSteps (step (single 1)) (measured (single 1) i)
        [(0, .request true 0), (0, .go), (0, .go), (0, .go)] (start (single 1)) :=
  ⟨_, rfl, progress_tracked (c := single 1) rfl⟩

/-- The requester of `single`, at the loop's test with `k` requests in hand. -/
def inHand (k : Nat) : System 1 := ⟨0, fun _ => ⟨.loop, k, k, 0, 0, true, false⟩⟩

theorem run_inHand (m : Nat) {k : Nat} (h : k + m < threadReportInterval) :
    run (step (single 1000)) (List.replicate m [(0, Event.request true 0), (0, .go)]).flatten
      (inHand k) = some (inHand (k + m)) := by
  induction m generalizing k with
  | zero => rfl
  | succ m ih =>
    have hupdate : ∀ r r' : Requester, Function.update (fun _ : Fin 1 => r) 0 r' = fun _ => r' :=
      fun r r' => funext fun i => by rw [Subsingleton.elim i 0, Function.update_self]
    have hpair : run (step (single 1000)) [(0, .request true 0), (0, .go)] (inHand k) =
        some (inHand (k + 1)) := by
      have hinterval : threadReportInterval = 250 := rfl
      have hloop : ((k : Nat) : Int) < 1000 := by omega
      have hsmall : ¬ threadReportInterval ≤ k + 1 := by omega
      simp [run, step, act, inHand, single, hupdate, hloop, hsmall, Requester.request,
        Requester.givesUp, Requester.finishIteration, Config.endTime, Config.benchmarkStartTime,
        wrap_eq_self]
    have hsum : k + 1 + m = k + (m + 1) := by omega
    rw [List.replicate_succ, List.flatten_cons, run_append, hpair, Option.bind_some,
      ih (by omega), hsum]

/-- A batch is counted, and the tracker does not know of it yet: it trails by a whole interval. -/
theorem tracker_trails_interval :
    ∃ events s, run (step (single 1000)) events (start (single 1000)) = some s ∧
      (s.requester 0).pc ≠ .finished ∧
      ¬ ∑ i, (s.requester i).requestsDone < s.requestsDone + threadReportInterval := by
  have hrun := run_inHand 249 (k := 0) (by decide)
  have hlast : ∃ s, run (step (single 1000)) [(0, .request true 0)] (inHand 249) = some s ∧
      (s.requester 0).pc = .update 0 ∧ s.requestsDone = 0 ∧
      (s.requester 0).requestsDone = 250 := ⟨_, rfl, rfl, rfl, rfl⟩
  obtain ⟨s, hs, hpc, hdone, hcount⟩ := hlast
  refine ⟨(List.replicate 249 [(0, Event.request true 0), (0, .go)]).flatten ++
    [(0, .request true 0)], s, ?_, ?_, ?_⟩
  · rw [run_append]
    exact Option.bind_eq_some_iff.mpr ⟨_, hrun, hs⟩
  · rw [hpc]
    simp
  · rw [Fin.sum_univ_one, hcount, hdone]
    decide

end TokuQa.LinkBench.Progress
