import Mathlib.Algebra.Order.BigOperators.Group.Finset
import Mathlib.Algebra.Order.Field.Basic
import Mathlib.Algebra.Order.Field.Rat
import Mathlib.Tactic.Linarith
import Mathlib.Tactic.NormNum
import Mathlib.Tactic.Positivity
import TokuQa.Lib.Run
import TokuQa.Lib.Threads

/-!
# The rate limiter of `driver.c`

Before each transaction a thread compares the new orders in `success[0]` since the last interval
began with the seconds since then, and waits while they are too many. Thread 0 begins an interval
when the last is more than ten seconds old: it writes `rate_last_seconds`, reads `success[0]` and
writes that to `rate_last_transactions`. There is no lock, so a step here is an access to one of the
shared variables or to the clock.

Who has been let through may count one more order, and so may who has read the clock or
`success[0]` before an interval began (`Pc.mayCount`). Behind the last check there are never more
orders and threads that may count one than there are threads (`Room`), unless an increment of
`success[0]` is lost or a new interval has no room for the orders of the last one, which it has
for as long as `rate_last_transactions` is not rewritten (`Fine`).

The seconds are whole: `tv_usec/1000000` is 0. `double` is exact.
-/

set_option autoImplicit false

namespace TokuQa.Tpcc.RateLimit

open TokuQa.Lib

def transactionInterval : Nat := 10

/-- What `current_tps` is computed from. -/
structure Rate where
  currentSeconds : Nat
  currentTransactions : Nat
  lastTransactions : Nat
  lastSeconds : Nat
deriving DecidableEq

namespace Rate

def transactions (r : Rate) : ℚ := r.currentTransactions - r.lastTransactions

def seconds (r : Rate) : ℚ := r.currentSeconds - r.lastSeconds

/-- `current_tps > num_neword_per_10_sec`. A quotient by zero is infinite, or no number, which is
not greater than anything. -/
def exceeds (numNewordPer10Sec : Nat) (r : Rate) : Bool :=
  if r.seconds = 0 then 0 < r.transactions
  else numNewordPer10Sec < r.transactions / r.seconds * transactionInterval

/-- The count is within the limit. -/
def Within (numNewordPer10Sec : Nat) (r : Rate) : Prop :=
  r.transactions ≤ numNewordPer10Sec / 10 * r.seconds

end Rate

/-- Where a thread is. -/
inductive Pc where
  /-- At the head of the loop. -/
  | top
  /-- Thread 0, which has read the clock. -/
  | interval (currentSeconds : Nat)
  /-- Before the write of `rate_last_seconds`. -/
  | record (currentSeconds : Nat)
  | recount
  /-- Before the write of `rate_last_transactions`. -/
  | rewrite (currentTransactions : Nat)
  /-- At the clock of the check. -/
  | clock
  | count (currentSeconds : Nat)
  /-- At the quotient, of which one of the interval's variables is loaded first: the compiler says
  which. -/
  | load (currentSeconds currentTransactions : Nat)
  | loadSeconds (currentSeconds currentTransactions lastTransactions : Nat)
  | loadTransactions (currentSeconds currentTransactions lastSeconds : Nat)
  /-- In the loop that waits, because of this rate. -/
  | tarpit (rate : Rate)
  /-- In the transaction. -/
  | work
  /-- In the middle of `success[0]++`. -/
  | increment (success : Nat)
  | returned
deriving DecidableEq

/-- The shared variables and the threads. `recorded` is read by no step: an interval has begun. -/
structure State (numConn : Nat) where
  now : Nat
  rateLastSeconds : Nat
  rateLastTransactions : Nat
  success : Nat
  recorded : Bool
  pc : Fin numConn → Pc

def start (numConn now : Nat) : State numConn := ⟨now, 0, 0, 0, false, fun _ => .top⟩

variable {numConn : Nat}

def State.at (s : State numConn) (i : Fin numConn) (pc : Pc) : State numConn :=
  { s with pc := Function.update s.pc i pc }

/-- What a thread's step needs to know from outside. -/
inductive Action where
  | go
  /-- `rate_last_seconds` is loaded first. -/
  | secondsFirst
  /-- The transaction is a new order in time, and `counting_on` is set. -/
  | newOrder
  /-- `activate_transaction` is 0. -/
  | stop
deriving DecidableEq

/-- The loop that waits. -/
def tarpit (numNewordPer10Sec : Nat) (r : Rate) : Pc :=
  if r.exceeds numNewordPer10Sec then .tarpit r else .work

def act (numNewordPer10Sec : Nat) (i : Fin numConn) (a : Action) (s : State numConn) :
    Option (State numConn) :=
  match s.pc i, a with
  | .top, .stop => some (s.at i .returned)
  | .top, .go => some (s.at i (if i.val = 0 then .interval s.now else .clock))
  | .interval currentSeconds, .go =>
    if s.rateLastSeconds + transactionInterval < currentSeconds then
      some (s.at i (.record currentSeconds))
    else some (s.at i .clock)
  | .record currentSeconds, .go => some ({ s with rateLastSeconds := currentSeconds }.at i .recount)
  | .recount, .go => some (s.at i (.rewrite s.success))
  | .rewrite currentTransactions, .go =>
    some ({ s with rateLastTransactions := currentTransactions, recorded := true }.at i .clock)
  | .clock, .go => some (s.at i (.count s.now))
  | .count currentSeconds, .go => some (s.at i (.load currentSeconds s.success))
  | .load currentSeconds currentTransactions, .go =>
    some (s.at i (.loadSeconds currentSeconds currentTransactions s.rateLastTransactions))
  | .load currentSeconds currentTransactions, .secondsFirst =>
    some (s.at i (.loadTransactions currentSeconds currentTransactions s.rateLastSeconds))
  | .loadSeconds currentSeconds currentTransactions lastTransactions, .go =>
    some (s.at i (tarpit numNewordPer10Sec
      ⟨currentSeconds, currentTransactions, lastTransactions, s.rateLastSeconds⟩))
  | .loadTransactions currentSeconds currentTransactions lastSeconds, .go =>
    some (s.at i (tarpit numNewordPer10Sec
      ⟨currentSeconds, currentTransactions, s.rateLastTransactions, lastSeconds⟩))
  | .tarpit _, .go => some (s.at i .clock)
  | .work, .go => some (s.at i .top)
  | .work, .newOrder => some (s.at i (.increment s.success))
  | .increment success, .go => some ({ s with success := success + 1 }.at i .top)
  | _, _ => none

inductive Event (numConn : Nat) where
  | run (i : Fin numConn) (a : Action)
  | tick (seconds : Nat)

def step (numNewordPer10Sec : Nat) (e : Event numConn) (s : State numConn) :
    Option (State numConn) :=
  match e with
  | .run i a => act numNewordPer10Sec i a s
  | .tick seconds => some { s with now := s.now + seconds }

/-! ## What is asked of the limiter -/

/-- The new orders of the interval are within the limit, up to one for each connection, and
nobody waits who has found them within the limit. -/
structure Limited (numNewordPer10Sec : Nat) (s : State numConn) : Prop where
  bound : s.recorded = true → (s.success - s.rateLastTransactions : ℚ) ≤
    numNewordPer10Sec / 10 * (s.now - s.rateLastSeconds) + numConn
  passes : ∀ i r, s.pc i = .tarpit r → ¬ r.Within numNewordPer10Sec

/-! ## The condition -/

/-- A thread that may count an order before its next check, if the interval's variables stay as
they are given. -/
def Pc.mayCount (numNewordPer10Sec lastTransactions lastSeconds : Nat) : Pc → Bool
  | .work => true
  | .increment _ => true
  -- the clock was read before the interval began
  | .count currentSeconds => currentSeconds < lastSeconds
  | .load currentSeconds currentTransactions =>
    currentSeconds < lastSeconds || !Rate.exceeds numNewordPer10Sec
      ⟨currentSeconds, currentTransactions, lastTransactions, lastSeconds⟩
  | .loadSeconds currentSeconds currentTransactions lastTransactions' =>
    currentSeconds < lastSeconds || !Rate.exceeds numNewordPer10Sec
      ⟨currentSeconds, currentTransactions, lastTransactions', lastSeconds⟩
  | .loadTransactions currentSeconds currentTransactions lastSeconds' =>
    lastSeconds' ≠ lastSeconds || currentSeconds < lastSeconds || !Rate.exceeds numNewordPer10Sec
      ⟨currentSeconds, currentTransactions, lastTransactions, lastSeconds⟩
  | _ => false

def State.mayCount (numNewordPer10Sec lastTransactions lastSeconds : Nat) (s : State numConn) :
    Nat :=
  ∑ i, ((s.pc i).mayCount numNewordPer10Sec lastTransactions lastSeconds).toNat

/-- An interval with these variables has room for the orders that are counted and may be. -/
def Room (numNewordPer10Sec lastTransactions lastSeconds : Nat) (s : State numConn) : Prop :=
  (s.success + s.mayCount numNewordPer10Sec lastTransactions lastSeconds : ℚ) ≤
    lastTransactions + numNewordPer10Sec / 10 * (s.now - lastSeconds) + numConn

/-- A clock that is behind the interval's start makes the quotient's sign the other one: no more
orders are missing then than the seconds that are missing allow. -/
def Rate.Fair (numNewordPer10Sec : Nat) (r : Rate) : Prop :=
  r.currentSeconds < r.lastSeconds → numNewordPer10Sec / 10 * r.seconds ≤ r.transactions

/-- **The steps that keep the limiter right.** -/
def Fine (numNewordPer10Sec : Nat) (e : Event numConn) (s : State numConn) : Prop :=
  match e with
  | .run i .go =>
    match s.pc i with
    -- the old count is left beside the new start
    | .record currentSeconds => s.recorded = true →
      Room numNewordPer10Sec s.rateLastTransactions currentSeconds s
    -- no other increment came in between
    | .increment success => s.success = success
    | .loadSeconds currentSeconds currentTransactions lastTransactions =>
      Rate.Fair numNewordPer10Sec
        ⟨currentSeconds, currentTransactions, lastTransactions, s.rateLastSeconds⟩
    | .loadTransactions currentSeconds currentTransactions lastSeconds =>
      Rate.Fair numNewordPer10Sec
        ⟨currentSeconds, currentTransactions, s.rateLastTransactions, lastSeconds⟩
    | _ => True
  | _ => True

/-! ## The comparison -/

namespace Rate

variable {numNewordPer10Sec : Nat} {r : Rate}

theorem interval_cast : ((transactionInterval : Nat) : ℚ) = 10 := rfl

theorem exceeds_of_le (h : r.lastSeconds ≤ r.currentSeconds) :
    r.exceeds numNewordPer10Sec = true ↔ ¬ r.Within numNewordPer10Sec := by
  have hseconds : 0 ≤ r.seconds := sub_nonneg.mpr (Nat.cast_le.mpr h)
  unfold exceeds Within
  by_cases hzero : r.seconds = 0
  · simp [hzero]
  · have hpos : 0 < r.seconds := lt_of_le_of_ne hseconds (Ne.symm hzero)
    simp only [hzero, if_false, decide_eq_true_eq, not_le]
    rw [interval_cast, ← div_lt_iff₀ (by norm_num : (0 : ℚ) < 10), lt_div_iff₀ hpos]

theorem exceeds_of_lt (h : r.currentSeconds < r.lastSeconds) :
    r.exceeds numNewordPer10Sec = true ↔ r.transactions < numNewordPer10Sec / 10 * r.seconds := by
  have hneg : r.seconds < 0 := sub_neg.mpr (Nat.cast_lt.mpr h)
  simp only [exceeds, hneg.ne, if_false, decide_eq_true_eq]
  rw [interval_cast, ← div_lt_iff₀ (by norm_num : (0 : ℚ) < 10), lt_div_iff_of_neg hneg]

/-- Nobody waits who has found the count within the limit. -/
theorem Fair.not_within (h : r.Fair numNewordPer10Sec)
    (hexceeds : r.exceeds numNewordPer10Sec = true) : ¬ r.Within numNewordPer10Sec := by
  rcases Nat.lt_or_ge r.currentSeconds r.lastSeconds with hlt | hle
  · exact absurd ((exceeds_of_lt hlt).mp hexceeds) (not_lt.mpr (h hlt))
  · exact (exceeds_of_le hle).mp hexceeds

/-- The more orders were counted when the interval began, the fewer are in it. -/
theorem exceeds_anti {currentSeconds currentTransactions last last' lastSeconds : Nat}
    (hlast : last ≤ last') (hseconds : lastSeconds ≤ currentSeconds)
    (h : exceeds numNewordPer10Sec
      ⟨currentSeconds, currentTransactions, last', lastSeconds⟩ = true) :
    exceeds numNewordPer10Sec ⟨currentSeconds, currentTransactions, last, lastSeconds⟩ = true := by
  rw [exceeds_of_le hseconds, Within, not_le] at h ⊢
  have hcast : (last : ℚ) ≤ last' := Nat.cast_le.mpr hlast
  simp only [transactions, seconds] at h ⊢
  linarith

end Rate

/-! ## Room -/

section

variable {numNewordPer10Sec lastTransactions lastSeconds : Nat} {s : State numConn}

theorem State.mayCount_le (numNewordPer10Sec lastTransactions lastSeconds : Nat)
    (s : State numConn) : s.mayCount numNewordPer10Sec lastTransactions lastSeconds ≤ numConn := by
  have hcard := Finset.sum_le_card_nsmul Finset.univ
    (fun i => ((s.pc i).mayCount numNewordPer10Sec lastTransactions lastSeconds).toNat) 1
    fun i _ => Bool.toNat_le _
  simp only [Finset.card_univ, Fintype.card_fin, smul_eq_mul, mul_one] at hcard
  exact hcard

/-- There is room while the count itself is within the limit. -/
theorem room_of_le (h : (s.success : ℚ) ≤
    lastTransactions + numNewordPer10Sec / 10 * (s.now - lastSeconds)) :
    Room numNewordPer10Sec lastTransactions lastSeconds s := by
  have hcast : (s.mayCount numNewordPer10Sec lastTransactions lastSeconds : ℚ) ≤ numConn :=
    Nat.cast_le.mpr (State.mayCount_le _ _ _ s)
  unfold Room
  linarith

/-- A thread moves, and there are no more counted orders and threads that may count one. -/
theorem Room.move (h : Room numNewordPer10Sec lastTransactions lastSeconds s) {s' : State numConn}
    {i : Fin numConn} {pc : Pc} (hpcs : s'.pc = Function.update s.pc i pc) (hnow : s'.now = s.now)
    (hle : s'.success + (pc.mayCount numNewordPer10Sec lastTransactions lastSeconds).toNat ≤
      s.success + ((s.pc i).mayCount numNewordPer10Sec lastTransactions lastSeconds).toNat) :
    Room numNewordPer10Sec lastTransactions lastSeconds s' := by
  have hsum := sum_update
    (fun pc => (Pc.mayCount numNewordPer10Sec lastTransactions lastSeconds pc).toNat) s.pc i pc
  have htotal : s'.success + s'.mayCount numNewordPer10Sec lastTransactions lastSeconds ≤
      s.success + s.mayCount numNewordPer10Sec lastTransactions lastSeconds := by
    simp only [State.mayCount, hpcs]
    omega
  have hcast : (s'.success + s'.mayCount numNewordPer10Sec lastTransactions lastSeconds : ℚ) ≤
      s.success + s.mayCount numNewordPer10Sec lastTransactions lastSeconds := by
    exact_mod_cast htotal
  unfold Room at h ⊢
  rw [hnow]
  exact hcast.trans h

theorem Room.at (h : Room numNewordPer10Sec lastTransactions lastSeconds s) {i : Fin numConn}
    {pc : Pc} (hmay : pc.mayCount numNewordPer10Sec lastTransactions lastSeconds = true →
      (s.pc i).mayCount numNewordPer10Sec lastTransactions lastSeconds = true) :
    Room numNewordPer10Sec lastTransactions lastSeconds (s.at i pc) :=
  h.move rfl rfl (Nat.add_le_add_left (Bool.toNat_le_toNat (Bool.le_iff_imp.mpr hmay)) _)

end

/-! ## The invariant -/

/-- What only thread 0 does. -/
def Pc.Recording : Pc → Prop
  | .interval _ | .record _ | .recount | .rewrite _ => True
  | _ => False

/-- The clock as it was read, until it is compared. -/
def Pc.seconds? : Pc → Option Nat
  | .interval currentSeconds | .record currentSeconds | .count currentSeconds => some currentSeconds
  | _ => none

/-- Where neither of the two is the case, and nobody waits. -/
def Pc.Quiet : Pc → Prop
  | .interval _ | .record _ | .recount | .rewrite _ | .count _ | .tarpit _ => False
  | _ => True

/-- What will be written to `rate_last_transactions`. -/
structure Pending (numNewordPer10Sec : Nat) (s : State numConn) (currentTransactions : Nat) :
    Prop where
  last_le : s.rateLastTransactions ≤ currentTransactions
  le_success : currentTransactions ≤ s.success
  room : Room numNewordPer10Sec currentTransactions s.rateLastSeconds s

structure Inv (numNewordPer10Sec : Nat) (s : State numConn) : Prop where
  alone : ∀ i, (s.pc i).Recording → i.val = 0
  last_le : s.rateLastSeconds ≤ s.now
  read_le : ∀ i t, (s.pc i).seconds? = some t → t ≤ s.now
  count_le : s.rateLastTransactions ≤ s.success
  room : s.recorded = true →
    Room numNewordPer10Sec s.rateLastTransactions s.rateLastSeconds s
  rewrite : ∀ i k, s.pc i = .rewrite k → Pending numNewordPer10Sec s k
  passes : ∀ i r, s.pc i = .tarpit r → ¬ r.Within numNewordPer10Sec

theorem inv_start (numNewordPer10Sec now : Nat) :
    Inv numNewordPer10Sec (start numConn now) where
  alone _ h := h.elim
  last_le := Nat.zero_le _
  read_le _ _ h := nomatch h
  count_le := Nat.le_refl _
  room h := nomatch h
  rewrite _ _ h := nomatch h
  passes _ _ h := nomatch h

section

variable {numNewordPer10Sec : Nat} {s s' : State numConn} {i : Fin numConn}

theorem Inv.limited (h : Inv numNewordPer10Sec s) : Limited numNewordPer10Sec s where
  bound hrecorded := by
    have hroom := h.room hrecorded
    have hcount : (0 : ℚ) ≤
        s.mayCount numNewordPer10Sec s.rateLastTransactions s.rateLastSeconds := Nat.cast_nonneg _
    unfold Room at hroom
    linarith
  passes := h.passes

variable (numNewordPer10Sec) in
/-- The limit grows with the time. -/
theorem allowance_le {t now : Nat} (h : t ≤ now) (start : Nat) :
    (numNewordPer10Sec / 10 * (t - start) : ℚ) ≤ numNewordPer10Sec / 10 * (now - start) := by
  have hcast : (t : ℚ) ≤ now := Nat.cast_le.mpr h
  have hrate : (0 : ℚ) ≤ numNewordPer10Sec / 10 := by positivity
  exact mul_le_mul_of_nonneg_left (by linarith) hrate

theorem Room.tick {last start : Nat} (h : Room numNewordPer10Sec last start s) (seconds : Nat) :
    Room numNewordPer10Sec last start { s with now := s.now + seconds } := by
  have hle := allowance_le numNewordPer10Sec (Nat.le_add_right s.now seconds) start
  unfold Room at h ⊢
  exact h.trans (by linarith)

/-- A thread moves that leaves the interval as it is. -/
theorem Inv.move (h : Inv numNewordPer10Sec s) {pc : Pc} {success : Nat}
    (hsuccess : s.success ≤ success) (hrecording : pc.Recording → i.val = 0)
    (hread : ∀ t, pc.seconds? = some t → t ≤ s.now)
    (hrewrite : ∀ k, pc = .rewrite k → Pending numNewordPer10Sec ({ s with success }.at i pc) k)
    (hpasses : ∀ r, pc = .tarpit r → ¬ r.Within numNewordPer10Sec)
    (hroom : ∀ last, s.rateLastTransactions ≤ last →
      Room numNewordPer10Sec last s.rateLastSeconds s →
      Room numNewordPer10Sec last s.rateLastSeconds ({ s with success }.at i pc)) :
    Inv numNewordPer10Sec ({ s with success }.at i pc) where
  alone := forall_update (P := fun (i : Fin numConn) (pc : Pc) => pc.Recording → i.val = 0) h.alone
    hrecording
  last_le := h.last_le
  read_le := forall_update (P := fun _ (pc : Pc) => ∀ t, pc.seconds? = some t → t ≤ s.now) h.read_le
    hread
  count_le := h.count_le.trans hsuccess
  room hrecorded := hroom _ (Nat.le_refl _) (h.room hrecorded)
  rewrite := by
    refine forall_update (P := fun (_ : Fin numConn) (pc' : Pc) => ∀ k, pc' = .rewrite k →
      Pending numNewordPer10Sec ({ s with success }.at i pc) k) ?_ hrewrite
    intro j k hk
    have hold := h.rewrite j k hk
    exact ⟨hold.last_le, hold.le_success.trans hsuccess, hroom k hold.last_le hold.room⟩
  passes := forall_update (P := fun _ (pc : Pc) => ∀ r, pc = .tarpit r →
    ¬ r.Within numNewordPer10Sec) h.passes hpasses

/-- A thread moves to where it says nothing of the interval. -/
theorem Inv.quiet (h : Inv numNewordPer10Sec s) {pc : Pc} {success : Nat} (hquiet : pc.Quiet)
    (hsuccess : s.success ≤ success) (hroom : ∀ last, s.rateLastTransactions ≤ last →
      Room numNewordPer10Sec last s.rateLastSeconds s →
      Room numNewordPer10Sec last s.rateLastSeconds ({ s with success }.at i pc)) :
    Inv numNewordPer10Sec ({ s with success }.at i pc) := by
  refine h.move hsuccess (fun hrecording => ?_) (fun t ht => ?_) (fun k hk => ?_) (fun r hr => ?_)
    hroom
  · cases pc <;> first | exact hquiet.elim | exact hrecording.elim
  · cases pc <;> first | exact hquiet.elim | cases ht
  · subst hk
    exact hquiet.elim
  · subst hr
    exact hquiet.elim

/-- It may count an order there only if it might before. -/
theorem Inv.goes (h : Inv numNewordPer10Sec s) {pc : Pc} (hquiet : pc.Quiet)
    (hmay : ∀ last, s.rateLastTransactions ≤ last →
      pc.mayCount numNewordPer10Sec last s.rateLastSeconds = true →
      (s.pc i).mayCount numNewordPer10Sec last s.rateLastSeconds = true) :
    Inv numNewordPer10Sec (s.at i pc) :=
  h.quiet hquiet (Nat.le_refl _) fun last hlast hroom => hroom.at (hmay last hlast)

/-- A thread has the clock as it was read, which lets nobody count an order. -/
theorem Inv.look (h : Inv numNewordPer10Sec s) {pc : Pc} {seconds : Nat}
    (hseconds : pc.seconds? = some seconds) (hle : seconds ≤ s.now)
    (hrecording : pc.Recording → i.val = 0)
    (hmay : ∀ last, pc.mayCount numNewordPer10Sec last s.rateLastSeconds = false) :
    Inv numNewordPer10Sec (s.at i pc) := by
  refine h.move (Nat.le_refl _) hrecording (fun t ht => ?_) (fun k hk => ?_) (fun r hr => ?_)
    fun last _ hroom => hroom.at fun hcounts => ?_
  · rw [hseconds] at ht
    cases ht
    exact hle
  · subst hk
    cases hseconds
  · subst hr
    cases hseconds
  · rw [hmay last] at hcounts
    cases hcounts

/-- There is but one thread that records. -/
theorem Inv.one (h : Inv numNewordPer10Sec s) {j : Fin numConn} (hi : (s.pc i).Recording)
    (hj : (s.pc j).Recording) : j = i :=
  Fin.ext ((h.alone j hj).trans (h.alone i hi).symm)

/-- No other thread is about to write `rate_last_transactions`. -/
theorem Inv.rewrite_of_at (h : Inv numNewordPer10Sec s) (hi : (s.pc i).Recording) {pc : Pc}
    (hpc : ∀ k, pc ≠ .rewrite k) {j : Fin numConn} {k : Nat} :
    Function.update s.pc i pc j ≠ .rewrite k := by
  intro hk
  by_cases hj : j = i
  · subst hj
    rw [Function.update_self] at hk
    exact hpc k hk
  · rw [Function.update_of_ne hj] at hk
    refine hj (h.one hi ?_)
    rw [hk]
    trivial

/-! ## One step -/

/-- The interval's start is written. -/
theorem Inv.record (h : Inv numNewordPer10Sec s) {currentSeconds : Nat}
    (hpc : s.pc i = .record currentSeconds) (hroom : s.recorded = true →
      Room numNewordPer10Sec s.rateLastTransactions currentSeconds s) :
    Inv numNewordPer10Sec ({ s with rateLastSeconds := currentSeconds }.at i .recount) where
  alone := forall_update (P := fun (i : Fin numConn) (pc : Pc) => pc.Recording → i.val = 0) h.alone
    fun _ => h.alone i (by rw [hpc]; trivial)
  last_le := h.read_le i _ (by rw [hpc]; rfl)
  read_le := forall_update (P := fun _ (pc : Pc) => ∀ t, pc.seconds? = some t → t ≤ s.now) h.read_le
    fun _ ht => nomatch ht
  count_le := h.count_le
  room hrecorded := by
    refine (hroom hrecorded).move rfl rfl ?_
    rw [hpc]
    rfl
  rewrite _ _ hk := absurd hk (h.rewrite_of_at (by rw [hpc]; trivial) (by simp))
  passes := forall_update (P := fun _ (pc : Pc) => ∀ r, pc = .tarpit r →
    ¬ r.Within numNewordPer10Sec) h.passes fun _ hr => nomatch hr

/-- The interval's count is read. -/
theorem Inv.recount (h : Inv numNewordPer10Sec s) (hpc : s.pc i = .recount) :
    Inv numNewordPer10Sec (s.at i (.rewrite s.success)) := by
  have hnone : ∀ last, (s.pc i).mayCount numNewordPer10Sec last s.rateLastSeconds = false := by
    intro last
    rw [hpc]
    rfl
  refine h.move (Nat.le_refl _) (fun _ => h.alone i (by rw [hpc]; trivial)) (fun _ ht => nomatch ht)
    ?_ (fun _ hr => nomatch hr) fun last _ hroom => hroom.move rfl rfl ?_
  · intro k hk
    cases hk
    have hallowance := allowance_le numNewordPer10Sec h.last_le s.rateLastSeconds
    refine ⟨h.count_le, Nat.le_refl _, room_of_le ?_⟩
    rw [sub_self, mul_zero] at hallowance
    simp only [State.at]
    linarith
  · rw [hnone]
    rfl

/-- The interval's count is written. -/
theorem Inv.rewritten (h : Inv numNewordPer10Sec s) {currentTransactions : Nat}
    (hpc : s.pc i = .rewrite currentTransactions) :
    Inv numNewordPer10Sec
      ({ s with rateLastTransactions := currentTransactions, recorded := true }.at i .clock) where
  alone := forall_update (P := fun (i : Fin numConn) (pc : Pc) => pc.Recording → i.val = 0) h.alone
    fun hrecording => hrecording.elim
  last_le := h.last_le
  read_le := forall_update (P := fun _ (pc : Pc) => ∀ t, pc.seconds? = some t → t ≤ s.now) h.read_le
    fun _ ht => nomatch ht
  count_le := (h.rewrite i _ hpc).le_success
  room _ := by
    refine (h.rewrite i _ hpc).room.move rfl rfl ?_
    rw [hpc]
    rfl
  rewrite _ _ hk := absurd hk (h.rewrite_of_at (by rw [hpc]; trivial) (by simp))
  passes := forall_update (P := fun _ (pc : Pc) => ∀ r, pc = .tarpit r →
    ¬ r.Within numNewordPer10Sec) h.passes fun _ hr => nomatch hr

/-- `success[0]` is read for the check: who may count an order now has found the count within the
limit, or has an old clock. -/
theorem Inv.count (h : Inv numNewordPer10Sec s) {currentSeconds : Nat}
    (hpc : s.pc i = .count currentSeconds) :
    Inv numNewordPer10Sec (s.at i (.load currentSeconds s.success)) := by
  refine h.quiet trivial (Nat.le_refl _) fun last _ hroom => ?_
  rcases Nat.lt_or_ge currentSeconds s.rateLastSeconds with hlt | hle
  · refine hroom.move rfl rfl ?_
    simp [hpc, Pc.mayCount, hlt, State.at]
  · cases hexceeds : Rate.exceeds numNewordPer10Sec
      ⟨currentSeconds, s.success, last, s.rateLastSeconds⟩ with
    | true =>
      refine hroom.move rfl rfl ?_
      simp [Pc.mayCount, hexceeds, not_lt.mpr hle, State.at]
    | false =>
      have hwithin : Rate.Within numNewordPer10Sec
          ⟨currentSeconds, s.success, last, s.rateLastSeconds⟩ := by
        by_contra hnot
        rw [(Rate.exceeds_of_le hle).mpr hnot] at hexceeds
        cases hexceeds
      have hread := h.read_le i currentSeconds (by rw [hpc]; rfl)
      have hallowance := allowance_le numNewordPer10Sec hread s.rateLastSeconds
      refine room_of_le ?_
      simp only [Rate.Within, Rate.transactions, Rate.seconds] at hwithin
      simp only [State.at]
      linarith

/-- The rate is compared, which makes nobody pass who could not before. -/
theorem Inv.compare (h : Inv numNewordPer10Sec s) {r : Rate} (hfair : r.Fair numNewordPer10Sec)
    (hmay : r.exceeds numNewordPer10Sec = false → ∀ last, s.rateLastTransactions ≤ last →
      (s.pc i).mayCount numNewordPer10Sec last s.rateLastSeconds = true) :
    Inv numNewordPer10Sec (s.at i (tarpit numNewordPer10Sec r)) := by
  cases hexceeds : r.exceeds numNewordPer10Sec with
  | true =>
    rw [tarpit, hexceeds, if_pos rfl]
    refine h.move (Nat.le_refl _) (fun hrecording => hrecording.elim) (fun _ ht => nomatch ht)
      (fun _ hk => nomatch hk) (fun _ hr => ?_) fun _ _ hroom => hroom.at fun hmay => nomatch hmay
    cases hr
    exact hfair.not_within hexceeds
  | false =>
    rw [tarpit, hexceeds, if_neg nofun]
    exact h.goes trivial fun last hlast _ => hmay hexceeds last hlast

/-- An order is counted. -/
theorem Inv.increment (h : Inv numNewordPer10Sec s) (hpc : s.pc i = .increment s.success) :
    Inv numNewordPer10Sec ({ s with success := s.success + 1 }.at i .top) := by
  refine h.quiet trivial (Nat.le_succ _) fun last _ hroom => hroom.move rfl rfl ?_
  rw [hpc]
  exact Nat.le_refl _

/-- Who finds fewer orders when the interval began could count one with more of them. -/
theorem may_of_may {currentSeconds currentTransactions last last' lastSeconds : Nat}
    (hlast : last ≤ last') (h : (decide (currentSeconds < lastSeconds) || !Rate.exceeds
      numNewordPer10Sec ⟨currentSeconds, currentTransactions, last, lastSeconds⟩) = true) :
    (decide (currentSeconds < lastSeconds) || !Rate.exceeds numNewordPer10Sec
      ⟨currentSeconds, currentTransactions, last', lastSeconds⟩) = true := by
  rcases Nat.lt_or_ge currentSeconds lastSeconds with hlt | hle
  · rw [decide_eq_true hlt, Bool.true_or]
  · rw [decide_eq_false (not_lt.mpr hle), Bool.false_or, Bool.not_eq_true'] at h ⊢
    by_contra hexceeds
    rw [Bool.not_eq_false] at hexceeds
    rw [Rate.exceeds_anti hlast hle hexceeds] at h
    cases h

/-- Whose rate does not exceed the limit, with the start loaded first, may count an order. -/
theorem mayCount_loaded {currentSeconds currentTransactions last last' lastSeconds loaded : Nat}
    (hlast : last ≤ last') (h : Rate.exceeds numNewordPer10Sec
      ⟨currentSeconds, currentTransactions, last, loaded⟩ = false) :
    (Pc.loadTransactions currentSeconds currentTransactions loaded).mayCount numNewordPer10Sec
      last' lastSeconds = true := by
  by_cases hloaded : loaded = lastSeconds
  · subst hloaded
    have hmay : (decide (currentSeconds < loaded) || !Rate.exceeds numNewordPer10Sec
        ⟨currentSeconds, currentTransactions, last', loaded⟩) = true :=
      may_of_may hlast (by rw [h, Bool.not_false, Bool.or_true])
    simpa [Pc.mayCount] using hmay
  · simp [Pc.mayCount, hloaded]

theorem Inv.act (h : Inv numNewordPer10Sec s) {a : Action}
    (hfine : Fine numNewordPer10Sec (.run i a) s) (hstep : act numNewordPer10Sec i a s = some s') :
    Inv numNewordPer10Sec s' := by
  cases hpc : s.pc i with
  | top =>
    cases a with
    | stop =>
      simp only [RateLimit.act, hpc, Option.some.injEq] at hstep
      subst hstep
      exact h.goes trivial fun _ _ hmay => nomatch hmay
    | go =>
      simp only [RateLimit.act, hpc, Option.some.injEq] at hstep
      subst hstep
      split
      case isTrue hzero =>
        exact h.look rfl (Nat.le_refl _) (fun _ => hzero) fun _ => rfl
      case isFalse => exact h.goes trivial fun _ _ hmay => nomatch hmay
    | _ => simp [RateLimit.act, hpc] at hstep
  | interval currentSeconds =>
    cases a with
    | go =>
      simp only [RateLimit.act, hpc] at hstep
      split at hstep
      case isTrue =>
        cases hstep
        exact h.look rfl (h.read_le i currentSeconds (by rw [hpc]; rfl))
          (fun _ => h.alone i (by rw [hpc]; trivial)) fun _ => rfl
      case isFalse =>
        cases hstep
        exact h.goes trivial fun _ _ hmay => nomatch hmay
    | _ => simp [RateLimit.act, hpc] at hstep
  | record currentSeconds =>
    cases a with
    | go =>
      simp only [RateLimit.act, hpc, Option.some.injEq] at hstep
      subst hstep
      simp only [Fine, hpc] at hfine
      exact h.record hpc hfine
    | _ => simp [RateLimit.act, hpc] at hstep
  | recount =>
    cases a with
    | go =>
      simp only [RateLimit.act, hpc, Option.some.injEq] at hstep
      subst hstep
      exact h.recount hpc
    | _ => simp [RateLimit.act, hpc] at hstep
  | rewrite currentTransactions =>
    cases a with
    | go =>
      simp only [RateLimit.act, hpc, Option.some.injEq] at hstep
      subst hstep
      exact h.rewritten hpc
    | _ => simp [RateLimit.act, hpc] at hstep
  | clock =>
    cases a with
    | go =>
      simp only [RateLimit.act, hpc, Option.some.injEq] at hstep
      subst hstep
      -- the clock was read in this interval
      exact h.look rfl (Nat.le_refl _) (fun hrecording => hrecording.elim) fun _ =>
        decide_eq_false (not_lt.mpr h.last_le)
    | _ => simp [RateLimit.act, hpc] at hstep
  | count currentSeconds =>
    cases a with
    | go =>
      simp only [RateLimit.act, hpc, Option.some.injEq] at hstep
      subst hstep
      exact h.count hpc
    | _ => simp [RateLimit.act, hpc] at hstep
  | load currentSeconds currentTransactions =>
    cases a with
    | go =>
      simp only [RateLimit.act, hpc, Option.some.injEq] at hstep
      subst hstep
      refine h.goes trivial fun last hlast hmay => ?_
      rw [hpc]
      exact may_of_may hlast hmay
    | secondsFirst =>
      simp only [RateLimit.act, hpc, Option.some.injEq] at hstep
      subst hstep
      refine h.goes trivial fun last _ hmay => ?_
      rw [hpc]
      simpa [Pc.mayCount] using hmay
    | _ => simp [RateLimit.act, hpc] at hstep
  | loadSeconds currentSeconds currentTransactions lastTransactions =>
    cases a with
    | go =>
      simp only [RateLimit.act, hpc, Option.some.injEq] at hstep
      subst hstep
      simp only [Fine, hpc] at hfine
      refine h.compare hfine fun hnot last _ => ?_
      rw [hpc]
      simp [Pc.mayCount, hnot]
    | _ => simp [RateLimit.act, hpc] at hstep
  | loadTransactions currentSeconds currentTransactions lastSeconds =>
    cases a with
    | go =>
      simp only [RateLimit.act, hpc, Option.some.injEq] at hstep
      subst hstep
      simp only [Fine, hpc] at hfine
      refine h.compare hfine fun hnot last hlast => ?_
      rw [hpc]
      exact mayCount_loaded hlast hnot
    | _ => simp [RateLimit.act, hpc] at hstep
  | tarpit r =>
    cases a with
    | go =>
      simp only [RateLimit.act, hpc, Option.some.injEq] at hstep
      subst hstep
      exact h.goes trivial fun _ _ hmay => nomatch hmay
    | _ => simp [RateLimit.act, hpc] at hstep
  | work =>
    cases a with
    | go =>
      simp only [RateLimit.act, hpc, Option.some.injEq] at hstep
      subst hstep
      exact h.goes trivial fun _ _ hmay => nomatch hmay
    | newOrder =>
      simp only [RateLimit.act, hpc, Option.some.injEq] at hstep
      subst hstep
      refine h.goes trivial fun _ _ _ => ?_
      rw [hpc]
      rfl
    | _ => simp [RateLimit.act, hpc] at hstep
  | increment success =>
    cases a with
    | go =>
      simp only [RateLimit.act, hpc, Option.some.injEq] at hstep
      subst hstep
      simp only [Fine, hpc] at hfine
      subst hfine
      exact h.increment hpc
    | _ => simp [RateLimit.act, hpc] at hstep
  | returned =>
    cases a with
    | _ => simp [RateLimit.act, hpc] at hstep

theorem Inv.step (h : Inv numNewordPer10Sec s) {e : Event numConn}
    (hfine : Fine numNewordPer10Sec e s) (hstep : step numNewordPer10Sec e s = some s') :
    Inv numNewordPer10Sec s' := by
  cases e with
  | run i a => exact h.act hfine hstep
  | tick seconds =>
    cases hstep
    have hlater := Nat.le_add_right s.now seconds
    exact {
      alone := h.alone
      last_le := h.last_le.trans hlater
      read_le := fun i t ht => (h.read_le i t ht).trans hlater
      count_le := h.count_le
      room := fun hrecorded => (h.room hrecorded).tick seconds
      rewrite := fun i k hk =>
        have hold := h.rewrite i k hk
        ⟨hold.last_le, hold.le_success, hold.room.tick seconds⟩
      passes := h.passes }

end

/-- **The limiter**, in every state of every run of steps that keep it right. -/
theorem limited_run (numNewordPer10Sec now : Nat) {events : List (Event numConn)}
    {s : State numConn}
    (hfine : AllSteps (step numNewordPer10Sec) (Fine numNewordPer10Sec) events (start numConn now))
    (hrun : run (step numNewordPer10Sec) events (start numConn now) = some s) :
    Limited numNewordPer10Sec s := by
  have hinv : Inv numNewordPer10Sec s :=
    run_keeps (fun h hok hstep => Inv.step h hok hstep) (inv_start numNewordPer10Sec now) hfine hrun
  exact hinv.limited

/-- Steps of a thread. -/
def goes (k : Nat) (i : Fin numConn) : List (Event numConn) := List.replicate k (.run i .go)

/-- A new order, from the head of the loop on to the write of `success[0]`. -/
def order (i : Fin numConn) : List (Event numConn) := goes 5 i ++ [.run i .newOrder]

/-- The first interval begins. -/
theorem limited_run_first :
    AllSteps (step 10) (Fine 10) (goes 5 (0 : Fin 1)) (start 1 11) ∧
      ∃ s, run (step 10) (goes 5 (0 : Fin 1)) (start 1 11) = some s ∧ s.recorded = true ∧
        Limited 10 s := by
  have hfine : AllSteps (step 10) (Fine 10) (goes 5 (0 : Fin 1)) (start 1 11) :=
    .cons trivial rfl (.cons trivial rfl (.cons nofun rfl
      (.cons trivial rfl (.cons trivial rfl trivial))))
  exact ⟨hfine, _, rfl, rfl, limited_run 10 11 hfine rfl⟩

/-- The numbers of an interval that break the limit. -/
theorem not_limited_of {numNewordPer10Sec success last now start : Nat} {s : State numConn}
    (h : (s.recorded, s.success, s.rateLastTransactions, s.now, s.rateLastSeconds) =
      (true, success, last, now, start))
    (hover : (numNewordPer10Sec / 10 * (now - start) + numConn : ℚ) < success - last) :
    ¬ Limited numNewordPer10Sec s := by
  simp only [Prod.mk.injEq] at h
  obtain ⟨hrecorded, rfl, rfl, rfl, rfl⟩ := h
  exact fun hlimited => absurd (hlimited.bound hrecorded) (not_le.mpr hover)

/-- One connection counts two orders in the first interval; the second begins. -/
def secondInterval (i : Fin numConn) : List (Event numConn) :=
  goes 4 i ++ order i ++ goes 1 i ++ [.tick 10] ++ goes 1 i ++ order i ++ goes 1 i ++ [.tick 1] ++
    goes 3 i

/-- Thread `i` counts its order as the first, though three were counted in between, and begins an
interval; then the other thread counts its fourth. -/
def lostIncrements (i j : Fin numConn) : List (Event numConn) :=
  goes 4 i ++ order i ++ [.tick 10] ++ order j ++ goes 1 j ++ order j ++ goes 1 j ++ order j ++
    goes 1 j ++ order j ++ goes 1 i ++ [.tick 1] ++ goes 5 i ++ goes 1 j

/-- A thread has read the clock and `success[0]` before three orders are counted and an interval
begins. -/
def oldClock (i j : Fin numConn) : List (Event numConn) :=
  goes 4 i ++ order i ++ [.tick 10] ++ goes 3 j ++ goes 2 i ++ order i ++ goes 2 i ++ order i ++
    goes 1 i ++ [.tick 1] ++ goes 5 i ++ goes 2 j

/-- Between the two writes of an interval, behind lost increments, and for a thread with an old
clock. -/
theorem not_limited :
    (∃ s, run (step 10) (secondInterval 0) (start 1 11) = some s ∧ ¬ Limited 10 s) ∧
      (∃ s, run (step 10) (lostIncrements 0 1) (start 2 11) = some s ∧ ¬ Limited 10 s) ∧
      ∃ s, run (step 10) (oldClock 0 1) (start 2 11) = some s ∧ ¬ Limited 10 s := by
  refine ⟨?_, ?_, ?_⟩
  · have hrun : (run (step 10) (secondInterval 0) (start 1 11)).map
        (fun s => (s.recorded, s.success, s.rateLastTransactions, s.now, s.rateLastSeconds)) =
          some (true, 2, 0, 22, 22) := by decide +kernel
    obtain ⟨s, hs, hvalues⟩ := Option.map_eq_some_iff.mp hrun
    exact ⟨s, hs, not_limited_of hvalues (by norm_num)⟩
  · have hrun : (run (step 10) (lostIncrements 0 1) (start 2 11)).map
        (fun s => (s.recorded, s.success, s.rateLastTransactions, s.now, s.rateLastSeconds)) =
          some (true, 4, 1, 22, 22) := by decide +kernel
    obtain ⟨s, hs, hvalues⟩ := Option.map_eq_some_iff.mp hrun
    exact ⟨s, hs, not_limited_of hvalues (by norm_num)⟩
  · have hrun : (run (step 10) (oldClock 0 1) (start 2 11)).map (fun s => s.pc 1) =
        some (.tarpit ⟨21, 0, 3, 22⟩) := by decide +kernel
    obtain ⟨s, hs, hpc⟩ := Option.map_eq_some_iff.mp hrun
    refine ⟨s, hs, fun h => h.passes 1 _ hpc ?_⟩
    norm_num [Rate.Within, Rate.transactions, Rate.seconds]

end TokuQa.Tpcc.RateLimit
