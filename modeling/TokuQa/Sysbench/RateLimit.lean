import Mathlib.Algebra.Order.BigOperators.Group.Finset
import Mathlib.Algebra.Order.Field.Basic
import Mathlib.Algebra.Order.Field.Rat
import Mathlib.Tactic.Linarith
import Mathlib.Tactic.NormNum
import TokuQa.Lib.Run
import TokuQa.Lib.Threads

/-!
# The transaction rate limiter of `runner_thread`

After each request a runner compares the transactions since the start of an interval, of all
threads together, with the time since then, and waits in the tarpit while they are too many.
Thread 0 starts a new interval every ten seconds. All of it is done on shared variables without
a lock, so a step here reads or writes one of them: the sums of `db_get_tps` are read counter by
counter, and the two variables of the interval are read and written one after the other.

A runner that has found the rate low enough may complete one more transaction, however much
time passes before it does. `Credit` is that account: behind the last check that let somebody
through, there are never more transactions and runners on their way to one than runners.

Two things void it. The counters are set to zero by a cumulative report, and the count of the
interval's start is not (`Steady`, first case); and the start's time is recorded before its
count, so that a transaction in between belongs to the interval and is not counted (`Steady`,
second case). And nothing asks whether a rate is configured (`Idle`).

Time is the value of `cumulative_timer1` in nanoseconds, `double` is exact. The fields
`completed`, `completedAtStart` and `seen` are read by no step.
-/

set_option autoImplicit false

namespace TokuQa.Sysbench.RateLimit

open TokuQa.Lib

/-- The option `tx-rate`, and which of the interval's two variables is loaded first where both
are: that is left to the compiler. -/
structure Config where
  txRate : Nat
  secondsFirst : Bool

/-- `NS2SEC`. -/
def ns2sec (ns : Nat) : ℚ := ns / 1000000000

/-- `current_tps > tx_rate`. A quotient by zero is infinite, or no number, which is not greater
than anything. -/
def exceeds (txRate currentTransactions lastTransactions currentSeconds lastSeconds : Nat) : Bool :=
  let transactions : ℚ := currentTransactions - lastTransactions
  let seconds : ℚ := ns2sec currentSeconds - ns2sec lastSeconds
  if seconds = 0 then 0 < transactions else txRate < transactions / seconds

/-- Where a runner is. -/
inductive Pc where
  /-- At `get_request` and `execute_request`. -/
  | request
  /-- Behind `execute_request`. -/
  | executed
  /-- Thread 0, which has read the clock. -/
  | interval (currentSeconds : Nat)
  /-- In the `get_tps` for `rate_last_transactions`. -/
  | recount (k transactions : Nat)
  /-- At the clock of the check. -/
  | clock
  /-- In the `get_tps` of the check. -/
  | count (currentSeconds k transactions : Nat)
  /-- At the quotient, of which one of the interval's variables is loaded first. -/
  | load (currentSeconds currentTransactions : Nat)
  | compare (currentSeconds currentTransactions loaded : Nat)
  /-- In the loop. -/
  | tarpit
  | finished
deriving DecidableEq

/-- A runner: `more` is false if the last request was `SB_REQ_TYPE_NULL`; `seen` is the number
of transactions that were completed when it read the clock. -/
structure Runner where
  pc : Pc
  more : Bool
  seen : Nat
deriving DecidableEq

/-- The shared variables; the transactions that were ever completed, and those of them that
were when the interval's start was recorded. -/
structure Shared (n : Nat) where
  now : Nat
  rateLastSeconds : Nat
  rateLastTransactions : Nat
  transactions : Fin n → Nat
  error : Bool
  completed : Nat
  completedAtStart : Nat

structure State (n : Nat) where
  shared : Shared n
  runner : Fin n → Runner

def start (n : Nat) : State n :=
  ⟨⟨0, 0, 0, fun _ => 0, false, 0, 0⟩, fun _ => ⟨.request, true, 0⟩⟩

/-- What a runner's step needs to know from outside. `stop` is an error of `execute_request`,
or the time limit. -/
inductive Action where
  | nullRequest
  | commit
  | stop
  | go
deriving DecidableEq

variable {n : Nat}

/-- `db_update_thread_stats` for a commit. -/
def Shared.commit (i : Fin n) (g : Shared n) : Shared n :=
  { g with
    transactions := Function.update g.transactions i (g.transactions i + 1)
    completed := g.completed + 1 }

/-- `rate_last_seconds` is set. -/
def Shared.record (currentSeconds : Nat) (g : Shared n) : Shared n :=
  { g with rateLastSeconds := currentSeconds, completedAtStart := g.completed }

/-- One step of runner `i`. -/
def act (c : Config) (i : Fin n) (a : Action) (g : Shared n) (r : Runner) :
    Option (Shared n × Runner) :=
  match r.pc, a with
  | .request, .nullRequest => some (g, { r with pc := .executed, more := false })
  | .request, .commit => some (g.commit i, { r with pc := .executed, more := true })
  | .request, .stop => some (g, { r with pc := .finished })
  | .executed, .stop => some (g, { r with pc := .finished })
  | .executed, .go => some (g, { r with pc := if i.val = 0 then .interval g.now else .clock })
  | .interval currentSeconds, .go =>
    if g.rateLastSeconds + 10 * 1000000000 < currentSeconds then
      some (g.record currentSeconds, { r with pc := .recount 0 0 })
    else some (g, { r with pc := .clock })
  | .recount k transactions, .go =>
    if h : k < n then
      some (g, { r with pc := .recount (k + 1) (transactions + g.transactions ⟨k, h⟩) })
    else some ({ g with rateLastTransactions := transactions }, { r with pc := .clock })
  | .clock, .go => some (g, { r with pc := .count g.now 0 0, seen := g.completed })
  | .count currentSeconds k transactions, .go =>
    if h : k < n then
      some (g, { r with
        pc := .count currentSeconds (k + 1) (transactions + g.transactions ⟨k, h⟩) })
    else some (g, { r with pc := .load currentSeconds transactions })
  | .load currentSeconds currentTransactions, .go =>
    let loaded := if c.secondsFirst then g.rateLastSeconds else g.rateLastTransactions
    some (g, { r with pc := .compare currentSeconds currentTransactions loaded })
  | .compare currentSeconds currentTransactions loaded, .go =>
    let lastSeconds := if c.secondsFirst then loaded else g.rateLastSeconds
    let lastTransactions := if c.secondsFirst then g.rateLastTransactions else loaded
    if exceeds c.txRate currentTransactions lastTransactions currentSeconds lastSeconds then
      some (g, { r with pc := .tarpit })
    else some (g, { r with pc := if r.more && !g.error then .request else .finished })
  | .tarpit, .go => some (g, { r with pc := .clock })
  | _, _ => none

/-- The steps of the system: a runner's; the `memset` of `db_reset_stats` reaches a counter;
time passes; `sb_globals.error` is set. -/
inductive Event (n : Nat) where
  | run (i : Fin n) (a : Action)
  | reset (i : Fin n)
  | tick (ns : Nat)
  | error

def step (c : Config) (e : Event n) (s : State n) : Option (State n) :=
  match e with
  | .run i a => (act c i a s.shared (s.runner i)).map fun (g, r) =>
      ⟨g, Function.update s.runner i r⟩
  | .reset i => some { s with shared :=
      { s.shared with transactions := Function.update s.shared.transactions i 0 } }
  | .tick ns => some { s with shared := { s.shared with now := s.shared.now + ns } }
  | .error => some { s with shared := { s.shared with error := true } }

/-! ## The conditions -/

/-- With no rate configured: whoever compares has counted no transaction since the interval's
start, or has read the clock before it. -/
def Idle (c : Config) (e : Event n) (s : State n) : Prop :=
  match e with
  | .run i .go =>
    ∀ currentSeconds currentTransactions loaded,
      (s.runner i).pc = .compare currentSeconds currentTransactions loaded →
      let lastSeconds := if c.secondsFirst then loaded else s.shared.rateLastSeconds
      let lastTransactions := if c.secondsFirst then s.shared.rateLastTransactions else loaded
      (currentTransactions ≤ lastTransactions ∧ lastSeconds ≤ currentSeconds) ∨
        (lastTransactions ≤ currentTransactions ∧ currentSeconds < lastSeconds)
  | _ => True

/-- With a rate configured: no counter that counts anything is reset, and no transaction is
completed that thread 0 has yet to count for the interval's start. -/
def Steady (e : Event n) (s : State n) : Prop :=
  match e with
  | .reset i => s.shared.transactions i = 0
  | .run i .commit => ∀ j k transactions, (s.runner j).pc = .recount k transactions → i.val < k
  | _ => True

/-- **The steps that keep the limiter right.** -/
def Fine (c : Config) (e : Event n) (s : State n) : Prop :=
  if c.txRate = 0 then Idle c e s else Steady e s

/-! ## The comparison -/

theorem ns2sec_le {a b : Nat} (h : a ≤ b) : ns2sec a ≤ ns2sec b := by
  have hcast : (a : ℚ) ≤ b := Nat.cast_le.mpr h
  unfold ns2sec
  linarith

theorem ns2sec_lt {a b : Nat} (h : a < b) : ns2sec a < ns2sec b := by
  have hcast : (a : ℚ) < b := Nat.cast_lt.mpr h
  unfold ns2sec
  linarith

section

variable {txRate current last seconds start : Nat}

/-- Without a rate nothing but a number of transactions that is not positive is let through. -/
theorem exceeds_zero : exceeds 0 current last seconds start = false ↔
    (current ≤ last ∧ start ≤ seconds) ∨ (last ≤ current ∧ seconds < start) := by
  have htransactions : (0 : ℚ) < current - last ↔ last < current := by
    rw [sub_pos, Nat.cast_lt]
  rcases Nat.lt_trichotomy seconds start with hlt | heq | hgt
  · have hneg : ns2sec seconds - ns2sec start < 0 := sub_neg.mpr (ns2sec_lt hlt)
    have hquotient : (0 : ℚ) < (current - last) / (ns2sec seconds - ns2sec start) ↔
        current < last := by
      rw [div_pos_iff]
      constructor
      · rintro (⟨-, hpos⟩ | ⟨hcount, -⟩)
        · exact absurd hpos (lt_asymm hneg)
        · exact Nat.cast_lt.mp (sub_neg.mp hcount)
      · exact fun h => Or.inr ⟨sub_neg.mpr (Nat.cast_lt.mpr h), hneg⟩
    simp only [exceeds, hneg.ne, if_false, Nat.cast_zero, decide_eq_false_iff_not, hquotient]
    omega
  · simp only [exceeds, heq, sub_self, if_true, decide_eq_false_iff_not, htransactions]
    omega
  · have hpos : 0 < ns2sec seconds - ns2sec start := sub_pos.mpr (ns2sec_lt hgt)
    have hquotient : (0 : ℚ) < (current - last) / (ns2sec seconds - ns2sec start) ↔
        last < current := by
      rw [div_pos_iff_of_pos_right hpos, htransactions]
    simp only [exceeds, hpos.ne', if_false, Nat.cast_zero, decide_eq_false_iff_not, hquotient]
    omega

/-- Who is let through has counted no more than the rate allows. -/
theorem le_of_not_exceeds (h : exceeds txRate current last seconds start = false)
    (hcount : last < current) (hclock : start ≤ seconds) :
    (current - last : ℚ) ≤ txRate * (ns2sec seconds - ns2sec start) := by
  have hpos : (0 : ℚ) < current - last := sub_pos.mpr (Nat.cast_lt.mpr hcount)
  unfold exceeds at h
  by_cases hzero : ns2sec seconds - ns2sec start = 0
  · simp only [hzero, if_true, hpos, decide_true, Bool.true_eq_false] at h
  · have htime : 0 < ns2sec seconds - ns2sec start :=
      lt_of_le_of_ne (sub_nonneg.mpr (ns2sec_le hclock)) (Ne.symm hzero)
    simp only [hzero, if_false, decide_eq_false_iff_not, not_lt] at h
    exact (div_le_iff₀ htime).mp h

end

/-! ## The steps of a runner -/

/-- What `act` can do, step by step. -/
inductive Moves (c : Config) (i : Fin n) (g : Shared n) (r : Runner) :
    Action → Shared n → Runner → Prop where
  | nullRequest (hpc : r.pc = .request) :
    Moves c i g r .nullRequest g { r with pc := .executed, more := false }
  | commit (hpc : r.pc = .request) :
    Moves c i g r .commit (g.commit i) { r with pc := .executed, more := true }
  /-- At an error, at the end of the time, or for want of requests. -/
  | finish {a : Action} : Moves c i g r a g { r with pc := .finished }
  | toInterval (hpc : r.pc = .executed) : Moves c i g r .go g { r with pc := .interval g.now }
  /-- From `execute_request`, from an interval that is not over, and from the tarpit. -/
  | toClock : Moves c i g r .go g { r with pc := .clock }
  | record {currentSeconds : Nat} (hpc : r.pc = .interval currentSeconds) :
    Moves c i g r .go (g.record currentSeconds) { r with pc := .recount 0 0 }
  | recount {k transactions : Nat} (hpc : r.pc = .recount k transactions) (hk : k < n) :
    Moves c i g r .go g
      { r with pc := .recount (k + 1) (transactions + g.transactions ⟨k, hk⟩) }
  | recounted {k transactions : Nat} (hpc : r.pc = .recount k transactions) (hk : n ≤ k) :
    Moves c i g r .go { g with rateLastTransactions := transactions } { r with pc := .clock }
  | look (hpc : r.pc = .clock) :
    Moves c i g r .go g { r with pc := .count g.now 0 0, seen := g.completed }
  | count {currentSeconds k transactions : Nat}
      (hpc : r.pc = .count currentSeconds k transactions) (hk : k < n) :
    Moves c i g r .go g
      { r with pc := .count currentSeconds (k + 1) (transactions + g.transactions ⟨k, hk⟩) }
  | counted {currentSeconds k transactions : Nat}
      (hpc : r.pc = .count currentSeconds k transactions) (hk : n ≤ k) :
    Moves c i g r .go g { r with pc := .load currentSeconds transactions }
  | load {currentSeconds currentTransactions : Nat}
      (hpc : r.pc = .load currentSeconds currentTransactions) :
    Moves c i g r .go g { r with
      pc := .compare currentSeconds currentTransactions
        (if c.secondsFirst then g.rateLastSeconds else g.rateLastTransactions) }
  | wait {currentSeconds currentTransactions loaded : Nat}
      (hpc : r.pc = .compare currentSeconds currentTransactions loaded)
      (hhigh : exceeds c.txRate currentTransactions
        (if c.secondsFirst then g.rateLastTransactions else loaded) currentSeconds
        (if c.secondsFirst then loaded else g.rateLastSeconds) = true) :
    Moves c i g r .go g { r with pc := .tarpit }
  | pass {currentSeconds currentTransactions loaded : Nat}
      (hpc : r.pc = .compare currentSeconds currentTransactions loaded)
      (hlow : exceeds c.txRate currentTransactions
        (if c.secondsFirst then g.rateLastTransactions else loaded) currentSeconds
        (if c.secondsFirst then loaded else g.rateLastSeconds) = false) :
    Moves c i g r .go g { r with pc := .request }

theorem act_moves {c : Config} {i : Fin n} {a : Action} {g g' : Shared n} {r r' : Runner}
    (h : act c i a g r = some (g', r')) : Moves c i g r a g' r' := by
  unfold act at h
  cases hpc : r.pc with
  | request =>
    simp only [hpc] at h
    cases a with
    | nullRequest =>
      cases h
      exact .nullRequest hpc
    | commit =>
      cases h
      exact .commit hpc
    | stop =>
      cases h
      exact .finish
    | go => cases h
  | executed =>
    simp only [hpc] at h
    cases a with
    | stop =>
      cases h
      exact .finish
    | go =>
      cases h
      by_cases hi : i.val = 0
      · rw [if_pos hi]
        exact .toInterval hpc
      · rw [if_neg hi]
        exact .toClock
    | _ => cases h
  | interval currentSeconds =>
    simp only [hpc] at h
    cases a with
    | go =>
      dsimp only at h
      split at h
      · cases h
        exact .record hpc
      · cases h
        exact .toClock
    | _ => cases h
  | recount k transactions =>
    simp only [hpc] at h
    cases a with
    | go =>
      dsimp only at h
      split at h
      · rename_i hk
        cases h
        exact .recount hpc hk
      · rename_i hk
        cases h
        exact .recounted hpc (Nat.le_of_not_lt hk)
    | _ => cases h
  | clock =>
    simp only [hpc] at h
    cases a with
    | go =>
      cases h
      exact .look hpc
    | _ => cases h
  | count currentSeconds k transactions =>
    simp only [hpc] at h
    cases a with
    | go =>
      dsimp only at h
      split at h
      · rename_i hk
        cases h
        exact .count hpc hk
      · rename_i hk
        cases h
        exact .counted hpc (Nat.le_of_not_lt hk)
    | _ => cases h
  | load currentSeconds currentTransactions =>
    simp only [hpc] at h
    cases a with
    | go =>
      cases h
      exact .load hpc
    | _ => cases h
  | compare currentSeconds currentTransactions loaded =>
    simp only [hpc] at h
    cases a with
    | go =>
      cases hrate : exceeds c.txRate currentTransactions
        (if c.secondsFirst then g.rateLastTransactions else loaded) currentSeconds
        (if c.secondsFirst then loaded else g.rateLastSeconds) with
      | true =>
        simp only [hrate, if_true] at h
        cases h
        exact .wait hpc hrate
      | false =>
        simp only [hrate, Bool.false_eq_true, if_false] at h
        cases h
        split
        · exact .pass hpc hrate
        · exact .finish
    | _ => cases h
  | tarpit =>
    simp only [hpc] at h
    cases a with
    | go =>
      cases h
      exact .toClock
    | _ => cases h
  | finished =>
    simp only [hpc] at h
    cases a with
    | _ => cases h

/-! ## What a runner knows -/

/-- The shared variables agree with what happened. -/
structure Shared.Ok (g : Shared n) : Prop where
  total : ∑ i, g.transactions i = g.completed
  start : g.completedAtStart ≤ g.completed
  last : g.rateLastTransactions ≤ g.completedAtStart
  clock : g.rateLastSeconds ≤ g.now

/-- The clock a runner has read: if transactions of the interval were completed by then, the
interval had started. -/
structure Fresh (g : Shared n) (seen currentSeconds : Nat) : Prop where
  known : seen ≤ g.completed
  clock : currentSeconds ≤ g.now
  started : g.completedAtStart < seen → g.rateLastSeconds ≤ currentSeconds

/-- What holds of a runner's variables, wherever it is. -/
def Runner.Ok (c : Config) (g : Shared n) (r : Runner) : Prop :=
  match r.pc with
  | .interval currentSeconds => currentSeconds ≤ g.now
  | .recount k transactions => transactions + remaining k g.transactions ≤ g.completedAtStart
  | .count currentSeconds k transactions =>
    Fresh g r.seen currentSeconds ∧ r.seen ≤ transactions + remaining k g.transactions
  | .load currentSeconds currentTransactions =>
    Fresh g r.seen currentSeconds ∧ r.seen ≤ currentTransactions
  | .compare currentSeconds currentTransactions loaded =>
    Fresh g r.seen currentSeconds ∧ r.seen ≤ currentTransactions ∧
      if c.secondsFirst then g.completedAtStart < r.seen → loaded = g.rateLastSeconds
      else loaded ≤ g.completedAtStart
  | _ => True

/-- It may complete a transaction without another look at the clock, if `Q` transactions were
not too many. -/
def Runner.free (Q : Nat) (r : Runner) : Bool :=
  match r.pc with
  | .request => true
  | .count .. | .load .. | .compare .. => r.seen ≤ Q
  | _ => false

section

variable {c : Config} {g : Shared n} {r : Runner} {i : Fin n}

theorem Fresh.later {seen currentSeconds : Nat} (h : Fresh g seen currentSeconds) {now : Nat}
    (hnow : g.now ≤ now) (last : Nat) (error : Bool) :
    Fresh { g with now, rateLastTransactions := last, error } seen currentSeconds :=
  ⟨h.known, h.clock.trans hnow, h.started⟩

theorem Fresh.commit {seen currentSeconds : Nat} (h : Fresh g seen currentSeconds) :
    Fresh (g.commit i) seen currentSeconds :=
  ⟨Nat.le_add_right_of_le h.known, h.clock, h.started⟩

theorem Fresh.record {seen currentSeconds : Nat} (h : Fresh g seen currentSeconds) (v : Nat) :
    Fresh (g.record v) seen currentSeconds :=
  ⟨h.known, h.clock, fun hlt => absurd h.known (Nat.not_le_of_lt hlt)⟩

/-- What a runner relies on: time and the counters only grow, a clock reading stays what it is,
and where the start changes it is behind everything the runner has seen. -/
theorem Runner.Ok.of_later (h : r.Ok c g) {g' : Shared n} (hnow : g.now ≤ g'.now)
    (hfresh : ∀ seen currentSeconds, Fresh g seen currentSeconds → Fresh g' seen currentSeconds)
    (hcount : ∀ k, remaining k g.transactions ≤ remaining k g'.transactions)
    (hrecount : ∀ k transactions, r.pc = .recount k transactions →
      transactions + remaining k g.transactions ≤ g.completedAtStart →
      transactions + remaining k g'.transactions ≤ g'.completedAtStart)
    (hstart : g.completedAtStart ≤ g'.completedAtStart)
    (hsame : ∀ seen, seen ≤ g.completed → g'.completedAtStart < seen →
      g.rateLastSeconds = g'.rateLastSeconds) : r.Ok c g' := by
  unfold Runner.Ok at h ⊢
  cases hpc : r.pc with
  | interval currentSeconds =>
    simp only [hpc] at h
    exact h.trans hnow
  | recount k transactions =>
    simp only [hpc] at h
    exact hrecount k transactions hpc h
  | count currentSeconds k transactions =>
    simp only [hpc] at h
    exact ⟨hfresh _ _ h.1, h.2.trans (Nat.add_le_add_left (hcount k) _)⟩
  | load currentSeconds currentTransactions =>
    simp only [hpc] at h
    exact ⟨hfresh _ _ h.1, h.2⟩
  | compare currentSeconds currentTransactions loaded =>
    simp only [hpc] at h
    obtain ⟨hclock, hseen, hloaded⟩ := h
    refine ⟨hfresh _ _ hclock, hseen, ?_⟩
    split at hloaded
    · rw [if_pos (by assumption)]
      exact fun hlt => (hloaded (hstart.trans_lt hlt)).trans (hsame _ hclock.known hlt)
    · rw [if_neg (by assumption)]
      exact hloaded.trans hstart
  | _ => trivial

/-- Time, the interval's count and the error flag are no runner's business. -/
theorem Runner.Ok.later (h : r.Ok c g) {now : Nat} (hnow : g.now ≤ now) (last : Nat)
    (error : Bool) : r.Ok c { g with now, rateLastTransactions := last, error } :=
  h.of_later hnow (fun _ _ hfresh => hfresh.later hnow last error) (fun _ => le_refl _)
    (fun _ _ _ hle => hle) (le_refl _) fun _ _ _ => rfl

/-- A transaction of a thread that the interval's start does not wait for. -/
theorem Runner.Ok.commit (h : r.Ok c g)
    (hread : ∀ k transactions, r.pc = .recount k transactions → i.val < k) :
    r.Ok c (g.commit i) := by
  have hremaining : ∀ k, remaining k (g.commit i).transactions =
      remaining k g.transactions + if k ≤ i.val then 1 else 0 :=
    fun k => remaining_update k g.transactions i
  refine h.of_later (le_refl _) (fun _ _ hfresh => hfresh.commit) (fun k => ?_)
    (fun k transactions hpc hle => ?_) (le_refl _) fun _ _ _ => rfl
  · rw [hremaining]
    exact Nat.le_add_right _ _
  · have hlt := hread k transactions hpc
    rw [hremaining, if_neg (by omega)]
    exact hle

/-- To a runner with an old clock a new interval is none of its business. -/
theorem Runner.Ok.record (h : r.Ok c g) (hg : g.Ok) (v : Nat) : r.Ok c (g.record v) :=
  h.of_later (le_refl _) (fun _ _ hfresh => hfresh.record v) (fun _ => le_refl _)
    (fun _ _ _ hle => hle.trans hg.start) hg.start
    fun _ hknown hlt => absurd hknown (Nat.not_le_of_lt hlt)

/-- A runner with a clock of the interval that is let through: what was completed when it read
the clock is not too much. It has loaded the interval's start, and a count that is not above
the right one. -/
theorem passed_le {currentSeconds currentTransactions loaded : Nat} (hg : g.Ok)
    (hfresh : Fresh g r.seen currentSeconds) (hseen : r.seen ≤ currentTransactions)
    (hloaded : if c.secondsFirst then g.completedAtStart < r.seen → loaded = g.rateLastSeconds
      else loaded ≤ g.completedAtStart)
    (hlow : exceeds c.txRate currentTransactions
      (if c.secondsFirst then g.rateLastTransactions else loaded) currentSeconds
      (if c.secondsFirst then loaded else g.rateLastSeconds) = false)
    (hlt : g.completedAtStart < r.seen) :
    (r.seen - g.completedAtStart : ℚ) ≤
      c.txRate * (ns2sec currentSeconds - ns2sec g.rateLastSeconds) := by
  have hstarted := hfresh.started hlt
  have hle : ∀ last : Nat, last ≤ g.completedAtStart →
      exceeds c.txRate currentTransactions last currentSeconds g.rateLastSeconds = false →
      (r.seen - g.completedAtStart : ℚ) ≤
        c.txRate * (ns2sec currentSeconds - ns2sec g.rateLastSeconds) := by
    intro last hlast hpass
    have hrate := le_of_not_exceeds hpass (by omega) hstarted
    have hcount : (r.seen : ℚ) ≤ currentTransactions := Nat.cast_le.mpr hseen
    have hcount' : (last : ℚ) ≤ g.completedAtStart := Nat.cast_le.mpr hlast
    linarith
  cases hfirst : c.secondsFirst with
  | true =>
    simp only [hfirst, if_true] at hloaded hlow
    rw [hloaded hlt] at hlow
    exact hle _ hg.last hlow
  | false =>
    simp only [hfirst, Bool.false_eq_true, if_false] at hloaded hlow
    exact hle _ hloaded hlow

/-- **The steps of a runner**: one that concerns nobody else; a transaction; a check that lets
it through; and the two halves of a new interval. -/
theorem act_spec {a : Action} {g' : Shared n} {r' : Runner} (hg : g.Ok) (hr : r.Ok c g)
    (h : act c i a g r = some (g', r')) :
    (g' = g ∧ r'.Ok c g ∧ ∀ Q, Q < g.completed → r'.free Q = true → r.free Q = true) ∨
    (a = .commit ∧ r.pc = .request ∧ g' = g.commit i ∧ r'.pc = .executed) ∨
    (∃ currentSeconds, Fresh g r.seen currentSeconds ∧ (∀ Q, r.seen ≤ Q → r.free Q = true) ∧
      (g.completedAtStart < r.seen → (r.seen - g.completedAtStart : ℚ) ≤
        c.txRate * (ns2sec currentSeconds - ns2sec g.rateLastSeconds)) ∧
      g' = g ∧ r'.pc = .request) ∨
    (∃ currentSeconds, currentSeconds ≤ g.now ∧ g' = g.record currentSeconds ∧
      r'.pc = .recount 0 0) ∨
    (∃ transactions, transactions ≤ g.completedAtStart ∧
      g' = { g with rateLastTransactions := transactions } ∧ r'.pc = .clock) := by
  unfold Runner.Ok at hr
  cases act_moves h with
  | nullRequest => exact Or.inl ⟨rfl, trivial, fun Q _ hfree => by cases hfree⟩
  | commit hpc => exact Or.inr (Or.inl ⟨rfl, hpc, rfl, rfl⟩)
  | finish => exact Or.inl ⟨rfl, trivial, fun Q _ hfree => by cases hfree⟩
  | toInterval => exact Or.inl ⟨rfl, le_refl _, fun Q _ hfree => by cases hfree⟩
  | toClock => exact Or.inl ⟨rfl, trivial, fun Q _ hfree => by cases hfree⟩
  | record hpc =>
    simp only [hpc] at hr
    exact Or.inr (Or.inr (Or.inr (Or.inl ⟨_, hr, rfl, rfl⟩)))
  | recount hpc hk =>
    simp only [hpc] at hr
    refine Or.inl ⟨rfl, ?_, fun Q _ hfree => by cases hfree⟩
    rw [remaining_eq hk, ← Nat.add_assoc] at hr
    exact hr
  | recounted hpc hk =>
    simp only [hpc] at hr
    rw [remaining_of_le hk] at hr
    exact Or.inr (Or.inr (Or.inr (Or.inr ⟨_, hr, rfl, rfl⟩)))
  | look =>
    refine Or.inl ⟨rfl, ⟨⟨le_refl _, le_refl _, fun _ => hg.clock⟩, ?_⟩, fun Q hQ hfree => ?_⟩
    · show g.completed ≤ 0 + remaining 0 g.transactions
      rw [remaining_zero, hg.total, Nat.zero_add]
    · exact absurd (of_decide_eq_true hfree) (Nat.not_le_of_lt hQ)
  | @count currentSeconds k transactions hpc hk =>
    simp only [hpc] at hr
    refine Or.inl ⟨rfl, ⟨hr.1, ?_⟩, fun Q _ hfree => ?_⟩
    · show r.seen ≤ transactions + g.transactions ⟨k, hk⟩ + remaining (k + 1) g.transactions
      rw [Nat.add_assoc, ← remaining_eq hk]
      exact hr.2
    · simp only [Runner.free, hpc]
      exact hfree
  | counted hpc hk =>
    simp only [hpc] at hr
    refine Or.inl ⟨rfl, ⟨hr.1, ?_⟩, fun Q _ hfree => ?_⟩
    · have hcount := hr.2
      rw [remaining_of_le hk] at hcount
      exact hcount
    · simp only [Runner.free, hpc]
      exact hfree
  | load hpc =>
    simp only [hpc] at hr
    refine Or.inl ⟨rfl, ⟨hr.1, hr.2, ?_⟩, fun Q _ hfree => ?_⟩
    · cases c.secondsFirst with
      | true => exact fun _ => rfl
      | false => exact hg.last
    · simp only [Runner.free, hpc]
      exact hfree
  | wait => exact Or.inl ⟨rfl, trivial, fun Q _ hfree => by cases hfree⟩
  | pass hpc hlow =>
    simp only [hpc] at hr
    obtain ⟨hfresh, hseen, hloaded⟩ := hr
    refine Or.inr (Or.inr (Or.inl ⟨_, hfresh, fun Q hQ => ?_,
      passed_le hg hfresh hseen hloaded hlow, rfl, rfl⟩))
    simp only [Runner.free, hpc]
    exact decide_eq_true hQ

end

/-! ## The account -/

/-- Since there were `R` transactions, all that were completed were let through by looks at the
clock before that, and by one such look no runner completes two. -/
structure Credit (g : Shared n) (runner : Fin n → Runner) (R : Nat) : Prop where
  le : R ≤ g.completed
  bound : ∀ Q, R ≤ Q → Q < g.completed →
    g.completed - Q + ∑ i, ((runner i).free Q).toNat ≤ n

section

variable {c : Config} {g : Shared n} {runner : Fin n → Runner} {R : Nat} {i : Fin n} {r' : Runner}

theorem sum_free_le (runner : Fin n → Runner) (Q : Nat) : ∑ i, ((runner i).free Q).toNat ≤ n := by
  have h := Finset.sum_le_card_nsmul Finset.univ (fun i => ((runner i).free Q).toNat) 1
    fun i _ => Bool.toNat_le _
  rw [Finset.card_univ, Fintype.card_fin, smul_eq_mul, Nat.mul_one] at h
  exact h

/-- Nothing was completed since. -/
theorem credit_now (g : Shared n) (runner : Fin n → Runner) : Credit g runner g.completed :=
  ⟨le_refl _, fun _ hR hQ => absurd hQ (Nat.not_lt_of_le hR)⟩

theorem Credit.mono (h : Credit g runner R) {R' : Nat} (hle : R ≤ R') (hle' : R' ≤ g.completed) :
    Credit g runner R' :=
  ⟨hle', fun Q hQ => h.bound Q (hle.trans hQ)⟩

theorem Credit.move (h : Credit g runner R)
    (hfree : ∀ Q, R ≤ Q → Q < g.completed → r'.free Q = true → (runner i).free Q = true) :
    Credit g (Function.update runner i r') R := by
  refine ⟨h.le, fun Q hR hQ => ?_⟩
  have hsum := sum_update (fun r : Runner => (r.free Q).toNat) runner i r'
  have hle : (r'.free Q).toNat ≤ ((runner i).free Q).toNat := by
    cases hnew : r'.free Q with
    | false => exact Nat.zero_le _
    | true => rw [hfree Q hR hQ hnew]
  have hbound := h.bound Q hR hQ
  omega

/-- A runner on its way to a transaction completes it, and has to look at the clock again. -/
theorem Credit.commit (h : Credit g runner R) (hpc : (runner i).pc = .request)
    (hpc' : r'.pc = .executed) : Credit (g.commit i) (Function.update runner i r') R := by
  refine ⟨Nat.le_add_right_of_le h.le, fun Q hR hQ => ?_⟩
  have hsum := sum_update (fun r : Runner => (r.free Q).toNat) runner i r'
  have hold : ((runner i).free Q).toNat = 1 := by simp [Runner.free, hpc]
  have hnew : (r'.free Q).toNat = 0 := by simp [Runner.free, hpc']
  have htotal := sum_free_le runner Q
  show g.completed + 1 - Q + _ ≤ n
  by_cases hlt : Q < g.completed
  · have hbound := h.bound Q hR hlt
    omega
  · omega

end

/-- **What holds of the limiter**: `R` transactions were completed at the clock reading `p` of
a check that let its runner through, or of the interval's start, and behind it the account is
in order. -/
structure Inv (c : Config) (s : State n) : Prop where
  shared : s.shared.Ok
  runners : ∀ i, (s.runner i).Ok c s.shared
  credit : ∃ R p, s.shared.completedAtStart ≤ R ∧ s.shared.rateLastSeconds ≤ p ∧
    p ≤ s.shared.now ∧ (R - s.shared.completedAtStart : ℚ) ≤
      c.txRate * (ns2sec p - ns2sec s.shared.rateLastSeconds) ∧ Credit s.shared s.runner R

theorem inv_start (c : Config) : Inv c (start n) := by
  refine ⟨⟨?_, le_refl _, le_refl _, le_refl _⟩, fun _ => trivial, 0, 0, le_refl _, le_refl _,
    le_refl _, ?_, credit_now _ _⟩
  · simp [start]
  · simp [start]

section

variable {c : Config} {s : State n} {i : Fin n} {a : Action}

/-- A new interval: everything that was completed was completed before it. -/
theorem Inv.record (h : Inv c s) {v : Nat} (hv : v ≤ s.shared.now) {r' : Runner}
    (hpc' : r'.pc = .recount 0 0) :
    Inv c ⟨s.shared.record v, Function.update s.runner i r'⟩ := by
  refine ⟨⟨h.shared.total, le_refl _, h.shared.last.trans h.shared.start, hv⟩, ?_,
    s.shared.completed, v, le_refl _, le_refl _, hv, ?_, credit_now _ _⟩
  · refine forall_update (P := fun _ r => Runner.Ok c (s.shared.record v) r)
      (fun j => (h.runners j).record h.shared v) ?_
    unfold Runner.Ok
    simp only [hpc']
    rw [Nat.zero_add, remaining_zero]
    exact h.shared.total.le
  · simp [Shared.record]

theorem Inv.commit (h : Inv c s) (hpc : (s.runner i).pc = .request)
    (hread : ∀ j k transactions, (s.runner j).pc = .recount k transactions → i.val < k)
    {r' : Runner} (hpc' : r'.pc = .executed) :
    Inv c ⟨s.shared.commit i, Function.update s.runner i r'⟩ := by
  obtain ⟨R, p, hstart, hclock, hnow, hrate, hcredit⟩ := h.credit
  refine ⟨⟨?_, Nat.le_add_right_of_le h.shared.start, h.shared.last, h.shared.clock⟩, ?_,
    R, p, hstart, hclock, hnow, hrate, hcredit.commit hpc hpc'⟩
  · have hsum := remaining_update 0 s.shared.transactions i
    rw [remaining_zero, remaining_zero, h.shared.total] at hsum
    exact hsum
  · refine forall_update (P := fun _ r => Runner.Ok c (s.shared.commit i) r)
      (fun j => (h.runners j).commit (hread j)) ?_
    simp [Runner.Ok, hpc']

/-- A runner is let through: from now on its clock reading counts, if it is the latest. -/
theorem Inv.pass (h : Inv c s) {currentSeconds : Nat}
    (hfresh : Fresh s.shared (s.runner i).seen currentSeconds)
    (hfree : ∀ Q, (s.runner i).seen ≤ Q → (s.runner i).free Q = true)
    (hpassed : s.shared.completedAtStart < (s.runner i).seen →
      ((s.runner i).seen - s.shared.completedAtStart : ℚ) ≤
        c.txRate * (ns2sec currentSeconds - ns2sec s.shared.rateLastSeconds))
    {r' : Runner} (hpc' : r'.pc = .request) :
    Inv c ⟨s.shared, Function.update s.runner i r'⟩ := by
  obtain ⟨R, p, hstart, hclock, hnow, hrate, hcredit⟩ := h.credit
  refine ⟨h.shared, forall_update (P := fun _ r => Runner.Ok c s.shared r) h.runners
    (by simp [Runner.Ok, hpc']), ?_⟩
  by_cases hseen : (s.runner i).seen ≤ R
  · exact ⟨R, p, hstart, hclock, hnow, hrate,
      hcredit.move fun Q hQ _ _ => hfree Q (hseen.trans hQ)⟩
  · have hlt : R < (s.runner i).seen := Nat.lt_of_not_le hseen
    have hafter := hstart.trans_lt hlt
    exact ⟨(s.runner i).seen, currentSeconds, hafter.le, hfresh.started hafter, hfresh.clock,
      hpassed hafter, (hcredit.mono hlt.le hfresh.known).move fun Q hQ _ _ => hfree Q hQ⟩

theorem Inv.act (h : Inv c s) (hsteady : Steady (.run i a) s) {g' : Shared n} {r' : Runner}
    (hact : act c i a s.shared (s.runner i) = some (g', r')) :
    Inv c ⟨g', Function.update s.runner i r'⟩ := by
  rcases act_spec h.shared (h.runners i) hact with ⟨rfl, hok, hfree⟩ | ⟨rfl, hpc, rfl, hpc'⟩ |
    ⟨currentSeconds, hfresh, hfree, hpassed, rfl, hpc'⟩ | ⟨currentSeconds, hle, rfl, hpc'⟩ |
    ⟨transactions, hle, rfl, hpc'⟩
  · obtain ⟨R, p, hstart, hclock, hnow, hrate, hcredit⟩ := h.credit
    exact ⟨h.shared, forall_update (P := fun _ r => Runner.Ok c s.shared r) h.runners hok,
      R, p, hstart, hclock, hnow, hrate, hcredit.move fun Q _ hQ => hfree Q hQ⟩
  · exact h.commit hpc hsteady hpc'
  · exact h.pass hfresh hfree hpassed hpc'
  · exact h.record hle hpc'
  · obtain ⟨R, p, hstart, hclock, hnow, hrate, hcredit⟩ := h.credit
    have hfree : ∀ Q, r'.free Q = false := fun Q => by simp [Runner.free, hpc']
    have hmoved : Credit s.shared (Function.update s.runner i r') R :=
      hcredit.move fun Q _ _ hnew => by rw [hfree] at hnew; cases hnew
    refine ⟨⟨h.shared.total, h.shared.start, hle, h.shared.clock⟩, ?_,
      R, p, hstart, hclock, hnow, hrate, hmoved.le, hmoved.bound⟩
    refine forall_update
      (P := fun _ r => Runner.Ok c { s.shared with rateLastTransactions := transactions } r)
      (fun j => (h.runners j).later (le_refl _) transactions s.shared.error) ?_
    simp [Runner.Ok, hpc']

theorem Inv.step (h : Inv c s) {e : Event n} (hsteady : Steady e s) {s' : State n}
    (hstep : step c e s = some s') : Inv c s' := by
  cases e with
  | run i a =>
    obtain ⟨⟨g', r'⟩, hact, rfl⟩ := Option.map_eq_some_iff.mp hstep
    exact h.act hsteady hact
  | reset i =>
    cases hstep
    have hsame : Function.update s.shared.transactions i 0 = s.shared.transactions := by
      rw [← show s.shared.transactions i = 0 from hsteady]
      exact Function.update_eq_self _ _
    rw [hsame]
    exact h
  | tick ns =>
    cases hstep
    obtain ⟨R, p, hstart, hclock, hnow, hrate, hcredit⟩ := h.credit
    exact ⟨⟨h.shared.total, h.shared.start, h.shared.last, Nat.le_add_right_of_le h.shared.clock⟩,
      fun j => (h.runners j).later (Nat.le_add_right _ _) _ _, R, p, hstart, hclock,
      Nat.le_add_right_of_le hnow, hrate, hcredit.le, hcredit.bound⟩
  | error =>
    cases hstep
    obtain ⟨R, p, hstart, hclock, hnow, hrate, hcredit⟩ := h.credit
    exact ⟨⟨h.shared.total, h.shared.start, h.shared.last, h.shared.clock⟩,
      fun j => (h.runners j).later (le_refl _) _ true, R, p, hstart, hclock, hnow, hrate,
      hcredit.le, hcredit.bound⟩

/-- The account, at the time it is. -/
theorem Inv.within (h : Inv c s) :
    (s.shared.completed - s.shared.completedAtStart : ℚ) ≤
      c.txRate * (ns2sec s.shared.now - ns2sec s.shared.rateLastSeconds) + n := by
  obtain ⟨R, p, hstart, hclock, hnow, hrate, hcredit⟩ := h.credit
  have hbehind : s.shared.completed ≤ R + n := by
    by_cases hlt : R < s.shared.completed
    · have hbound := hcredit.bound R (le_refl _) hlt
      omega
    · omega
  have hbehind' : (s.shared.completed : ℚ) ≤ R + n := by exact_mod_cast hbehind
  have hlater : (c.txRate : ℚ) * (ns2sec p - ns2sec s.shared.rateLastSeconds) ≤
      c.txRate * (ns2sec s.shared.now - ns2sec s.shared.rateLastSeconds) :=
    mul_le_mul_of_nonneg_left (sub_le_sub_right (ns2sec_le hnow) _) (Nat.cast_nonneg _)
  linarith

/-! ## The limiter -/

/-- The way into the tarpit. -/
theorem tarpit_of_act {g g' : Shared n} {r r' : Runner}
    (h : RateLimit.act c i a g r = some (g', r')) (hpc' : r'.pc = .tarpit) :
    a = .go ∧ ∃ currentSeconds currentTransactions loaded,
      r.pc = .compare currentSeconds currentTransactions loaded ∧
      exceeds c.txRate currentTransactions
        (if c.secondsFirst then g.rateLastTransactions else loaded) currentSeconds
        (if c.secondsFirst then loaded else g.rateLastSeconds) = true := by
  cases act_moves h with
  | wait hpc hhigh => exact ⟨rfl, _, _, _, hpc, hhigh⟩
  | _ => cases hpc'

theorem step_idle (hrate : c.txRate = 0) (hout : ∀ j, (s.runner j).pc ≠ .tarpit) {e : Event n}
    (hidle : Idle c e s) {s' : State n} (hstep : step c e s = some s') :
    ∀ j, (s'.runner j).pc ≠ .tarpit := by
  cases e with
  | run i a =>
    obtain ⟨⟨g', r'⟩, hact, rfl⟩ := Option.map_eq_some_iff.mp hstep
    refine forall_update (P := fun _ r => Runner.pc r ≠ .tarpit) hout fun hpc' => ?_
    obtain ⟨rfl, currentSeconds, currentTransactions, loaded, hpc, hexceeds⟩ :=
      tarpit_of_act hact hpc'
    rw [hrate, exceeds_zero.mpr (hidle currentSeconds currentTransactions loaded hpc)] at hexceeds
    cases hexceeds
  | _ =>
    cases hstep
    exact hout

end

/-- What fine steps keep. -/
def Kept (c : Config) (s : State n) : Prop :=
  if c.txRate = 0 then ∀ i, (s.runner i).pc ≠ .tarpit else Inv c s

theorem kept_start (c : Config) : Kept c (start n) := by
  unfold Kept
  split
  · exact fun i hpc => by cases hpc
  · exact inv_start c

theorem Kept.step {c : Config} {e : Event n} {s s' : State n} (h : Kept c s) (hfine : Fine c e s)
    (hstep : step c e s = some s') : Kept c s' := by
  unfold Kept at h ⊢
  unfold Fine at hfine
  split
  · rename_i hrate
    rw [if_pos hrate] at h hfine
    exact step_idle hrate h hfine hstep
  · rename_i hrate
    rw [if_neg hrate] at h hfine
    exact h.step hfine hstep

/-- **The limiter**, in every run of steps that keep it right: without a rate nobody waits, and
with a rate the transactions since the interval's start are within it, up to one for each
runner. -/
theorem limiter_holds (c : Config) {events : List (Event n)} {s : State n}
    (hfine : AllSteps (step c) (Fine c) events (start n))
    (h : run (step c) events (start n) = some s) :
    (c.txRate = 0 → ∀ i, (s.runner i).pc ≠ .tarpit) ∧
      (0 < c.txRate → (s.shared.completed - s.shared.completedAtStart : ℚ) ≤
        c.txRate * (ns2sec s.shared.now - ns2sec s.shared.rateLastSeconds) + n) := by
  have hkept : Kept c s :=
    run_keeps (fun hkept hok hstep => Kept.step hkept hok hstep) (kept_start c) hfine h
  unfold Kept at hkept
  constructor
  · intro hrate
    rw [if_pos hrate] at hkept
    exact hkept
  · intro hrate
    rw [if_neg hrate.ne'] at hkept
    exact hkept.within

/-- A runner with a rate of one, which completes a transaction after two seconds. -/
theorem limiter_holds_one :
    ∃ s, run (step ⟨1, false⟩) [.tick 2000000000, .run 0 .commit] (start 1) = some s ∧
      ((1 = 0 → ∀ i, (s.runner i).pc ≠ .tarpit) ∧
        (0 < 1 → (s.shared.completed - s.shared.completedAtStart : ℚ) ≤
          (1 : Nat) * (ns2sec s.shared.now - ns2sec s.shared.rateLastSeconds) + (1 : Nat))) := by
  have hfine : AllSteps (step ⟨1, false⟩) (Fine ⟨1, false⟩)
      [.tick 2000000000, .run 0 .commit] (start 1) := by
    refine ⟨trivial, fun s' hs' => ?_⟩
    cases hs'
    exact ⟨fun j k transactions hpc => (by cases hpc), fun _ _ => trivial⟩
  exact ⟨_, rfl, limiter_holds ⟨1, false⟩ hfine rfl⟩

/-- Steps of the only runner. -/
def goes (k : Nat) : List (Event 1) := List.replicate k (.run 0 .go)

/-- Without a rate the first transaction, after a second, leads into the tarpit. With a rate of
one, and the counters reset when the interval has begun, there are three transactions in its
first instant. -/
theorem limiter_fails :
    (∃ s, run (step ⟨0, false⟩) ([.tick 1000000000, .run 0 .commit] ++ goes 7) (start 1) = some s ∧
      (s.runner 0).pc = .tarpit) ∧
    ∃ s, run (step ⟨1, false⟩)
        ([.tick 11000000000, .run 0 .commit] ++ goes 9 ++ [.run 0 .commit] ++ goes 7 ++
          [.reset 0] ++ goes 6 ++ [.run 0 .commit] ++ goes 7 ++ [.run 0 .commit]) (start 1) =
        some s ∧
      ¬ (s.shared.completed - s.shared.completedAtStart : ℚ) ≤
        (1 : Nat) * (ns2sec s.shared.now - ns2sec s.shared.rateLastSeconds) + (1 : Nat) := by
  constructor
  · have hrun : (run (step ⟨0, false⟩) ([.tick 1000000000, .run 0 .commit] ++ goes 7)
        (start 1)).map (fun s => (s.runner 0).pc) = some .tarpit := by decide +kernel
    exact Option.map_eq_some_iff.mp hrun
  · have hrun : (run (step ⟨1, false⟩)
        ([.tick 11000000000, .run 0 .commit] ++ goes 9 ++ [.run 0 .commit] ++ goes 7 ++
          [.reset 0] ++ goes 6 ++ [.run 0 .commit] ++ goes 7 ++ [.run 0 .commit]) (start 1)).map
        (fun s => (s.shared.completed, s.shared.completedAtStart, s.shared.now,
          s.shared.rateLastSeconds)) = some (4, 1, 11000000000, 11000000000) := by decide +kernel
    obtain ⟨s, hs, hvalues⟩ := Option.map_eq_some_iff.mp hrun
    simp only [Prod.mk.injEq] at hvalues
    obtain ⟨hcompleted, hatStart, hnow, hlast⟩ := hvalues
    refine ⟨s, hs, ?_⟩
    rw [hcompleted, hatStart, hnow, hlast, sub_self]
    norm_num

end TokuQa.Sysbench.RateLimit
