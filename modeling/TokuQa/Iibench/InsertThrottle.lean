import Mathlib.Algebra.Order.Field.Rat
import Mathlib.Data.Int.ConditionallyCompleteOrder
import Mathlib.Order.Monotone.Defs
import TokuQa.Lib.Binary64
import TokuQa.Lib.Run
import TokuQa.Lib.Throttle

/-!
# The two limits on the inserts a second

`Insert` of `iibench.py` looks at the clock in every round; it resets its reference when more than
a second has passed, or waits for the second to pass if it is `max_ips` rows ahead. `MyWriter` of
`jiibench.java` looks only when it is `maxInsertsPerSecond` rows ahead, and then reads the clock
twice, to see if the second has passed and to set the next one.

A clock is the sequence of its readings, those for other purposes included. What a round does with
them is a parameter: how many of them it reads for other purposes, and how many turns its wait is
given. A run may stop behind any round, at `run_minutes`, at `allDone` or because a wait goes on.
Time is exact. The clock of `time.time()` is a `double`, and the difference of two of them that
have the same last bit is exact, too (`roundDouble_sub`).
-/

set_option autoImplicit false

namespace TokuQa.Iibench

open TokuQa.Lib

theorem roundDouble_sub {a b : Nat} (e : ℤ) (h : b ≤ a) (ha : a < 2 ^ 53) :
    roundDouble (a * 2 ^ e - b * 2 ^ e) = a * 2 ^ e - b * 2 ^ e := by
  have hbits : HasBits 53 ((a - b : Nat) * 2 ^ e) := ⟨a - b, e, by omega, rfl⟩
  have hsub : (a * 2 ^ e - b * 2 ^ e : ℚ) = (a - b : Nat) * 2 ^ e := by
    rw [Nat.cast_sub h, sub_mul]
  rw [hsub]
  exact hbits.roundBits_eq le_rfl

/-- `others` readings come before the limiter's in this round; `turns` is for its wait. -/
structure Round where
  others : Nat
  turns : Nat

/-! ## `Insert` -/

namespace Insert

/-- `reads` is the number of readings so far. -/
structure State where
  reads : Nat
  lastIpsTime : ℚ
  lastIpsRows : Nat
  inserted : Nat
deriving DecidableEq

variable (clock : Nat → ℚ) (maxIps rowsPerCommit : Nat)

def start : State := ⟨1, clock 0, 0, 0⟩

/-- The reference is reset, at the reading before the present one. -/
def State.reset (s : State) (nowIps : ℚ) : List (Event ℚ) × State :=
  ([.reset nowIps nowIps], { s with lastIpsTime := nowIps, lastIpsRows := s.inserted })

/-- The block under `FLAGS.max_ips > 0`. -/
def limit (r : Round) (s : State) : Option (List (Event ℚ) × State) := do
  let nowIps := clock (s.reads + r.others)
  let s := { s with reads := s.reads + r.others + 1 }
  if 1 < nowIps - s.lastIpsTime then
    some (s.reset nowIps)
  else if maxIps ≤ s.inserted - s.lastIpsRows then
    let k ← readUntil (fun nowIps => ! decide (nowIps - s.lastIpsTime < 1)) clock r.turns s.reads
    some ({ s with reads := k + 1 }.reset (clock k))
  else
    some ([], s)

/-- A turn of the loop over the rounds. -/
def round (r : Round) (s : State) : Option (List (Event ℚ) × State) := do
  let (resets, s) ← limit clock maxIps r s
  some (resets ++ [.rows rowsPerCommit], { s with inserted := s.inserted + rowsPerCommit })

/-- What the rounds do; the start is the first reset. -/
def insert (rounds : List Round) : Option (List (Event ℚ)) :=
  (emits (round clock maxIps rowsPerCommit) rounds (start clock)).map fun p =>
    .reset (clock 0) (clock 0) :: p.1

/-- Between two rounds. -/
structure Inv (bound : Nat) (es : List (Event ℚ)) (s : State) : Prop where
  throttle : Throttle 1 bound es s.lastIpsTime
  ahead_eq : Event.ahead es = s.inserted - s.lastIpsRows
  rows_le : s.lastIpsRows ≤ s.inserted
  time_le : ∀ n, s.reads ≤ n → s.lastIpsTime ≤ clock n

variable {clock} {maxIps rowsPerCommit} {bound : Nat} {es out : List (Event ℚ)} {s s' : State}

theorem Inv.start (hclock : Monotone clock) (h : 0 < bound) :
    Inv clock bound [.reset (clock 0) (clock 0)] (start clock) := by
  have hnil : Throttle 1 bound [] (clock 0) := .nil _ h
  exact ⟨hnil.reset (fun hne => absurd rfl hne) le_rfl le_rfl, rfl, le_rfl,
    fun n _ => hclock (Nat.zero_le n)⟩

/-- A reset at a reading that is a second behind the last one. -/
theorem Inv.reset (hclock : Monotone clock) (hinv : Inv clock bound es s) {k : Nat}
    (hk : s.reads ≤ k) (hlate : 1 ≤ clock k - s.lastIpsTime) :
    Inv clock bound (es ++ (State.reset { s with reads := k + 1 } (clock k)).1)
      (State.reset { s with reads := k + 1 } (clock k)).2 := by
  have hlast : s.lastIpsTime + 1 ≤ clock k := by linarith
  refine ⟨hinv.throttle.reset (fun _ => hlast) (hinv.time_le k hk) le_rfl, ?_, le_rfl, ?_⟩
  · rw [State.reset, Event.ahead_concat, Nat.sub_self]
    rfl
  · intro n hn
    exact hclock (Nat.le_of_succ_le hn)

/-- Behind the limiter there are fewer rows than the limit since the last reset. -/
theorem limit_spec (hclock : Monotone clock) (hmax : 0 < maxIps) (hinv : Inv clock bound es s)
    {r : Round} (h : limit clock maxIps r s = some (out, s')) :
    Inv clock bound (es ++ out) s' ∧ s'.inserted - s'.lastIpsRows < maxIps := by
  dsimp only [limit] at h
  split at h
  · next hsecond =>
    cases h
    refine ⟨hinv.reset hclock (Nat.le_add_right _ _) hsecond.le, ?_⟩
    simpa only [State.reset, Nat.sub_self] using hmax
  · split at h
    · obtain ⟨k, hk, hsome⟩ := Option.bind_eq_some_iff.mp h
      obtain ⟨hle, hready⟩ := readUntil_spec hk
      cases hsome
      have hlate : 1 ≤ clock k - s.lastIpsTime := by simpa using hready
      refine ⟨hinv.reset hclock (by omega) hlate, ?_⟩
      simpa only [State.reset, Nat.sub_self] using hmax
    · next hfew =>
      cases h
      rw [List.append_nil]
      refine ⟨⟨hinv.throttle, hinv.ahead_eq, hinv.rows_le, fun n hn => hinv.time_le n ?_⟩, ?_⟩
      · simp only at hn
        omega
      · exact not_le.mp hfew

theorem round_keeps (hclock : Monotone clock) (hmax : 0 < maxIps)
    (hinv : Inv clock (maxIps + rowsPerCommit) es s) {r : Round}
    (h : round clock maxIps rowsPerCommit r s = some (out, s')) :
    Inv clock (maxIps + rowsPerCommit) (es ++ out) s' := by
  obtain ⟨⟨resets, s₁⟩, hlimit, hsome⟩ := Option.bind_eq_some_iff.mp h
  obtain ⟨hinv₁, hfew⟩ := limit_spec hclock hmax hinv hlimit
  cases hsome
  have hrows := hinv₁.rows_le
  rw [← List.append_assoc]
  refine ⟨hinv₁.throttle.rows ?_, ?_, ?_, hinv₁.time_le⟩
  · rw [hinv₁.ahead_eq]
    omega
  · rw [Event.ahead_concat, hinv₁.ahead_eq, Event.count]
    simp only
    omega
  · simp only
    omega

theorem insert_throttled (hclock : Monotone clock) (hmax : 0 < maxIps) {rounds : List Round}
    (h : insert clock maxIps rowsPerCommit rounds = some es) :
    Throttled 1 (maxIps + rowsPerCommit) es := by
  obtain ⟨⟨out, s'⟩, hemits, rfl⟩ := Option.map_eq_some_iff.mp h
  have hstart : Inv clock (maxIps + rowsPerCommit) _ (start clock) :=
    Inv.start hclock (by omega)
  have hinv := emits_keeps (I := Inv clock (maxIps + rowsPerCommit))
    (fun hI hround => round_keeps hclock hmax hI hround) hstart hemits
  exact hinv.throttle.throttled

end Insert

/-! ## `MyWriter` -/

namespace MyWriter

structure State where
  reads : Nat
  numInserts : Nat
  numLastInserts : Nat
  nextMs : Int
deriving DecidableEq

variable (clock : Nat → Int) (maxInsertsPerSecond rowsPerInsert : Nat)

def start : State := ⟨1, 0, 0, clock 0 + 1000⟩

/-- The block under `(numInserts - numLastInserts) >= maxInsertsPerSecond`. -/
def limit (r : Round) (s : State) : Option (List (Event Int) × State) :=
  if maxInsertsPerSecond ≤ s.numInserts - s.numLastInserts then do
    let k ← readUntil (fun ms => ! decide (ms < s.nextMs)) clock r.turns (s.reads + r.others)
    some ([.reset (clock k) (clock (k + 1))],
      { s with reads := k + 2, numLastInserts := s.numInserts, nextMs := clock (k + 1) + 1000 })
  else
    some ([], { s with reads := s.reads + r.others })

/-- A turn of the loop over the rounds; a batch that fails adds no rows. -/
def round (r : Round × Bool) (s : State) : Option (List (Event Int) × State) := do
  let (resets, s) ← limit clock maxInsertsPerSecond r.1 s
  if r.2 then
    some (resets ++ [.rows rowsPerInsert], { s with numInserts := s.numInserts + rowsPerInsert })
  else
    some (resets, s)

/-- What the rounds do, each with whether its batch succeeds; the start is the first reset. -/
def run (rounds : List (Round × Bool)) : Option (List (Event Int)) :=
  (emits (round clock maxInsertsPerSecond rowsPerInsert) rounds (start clock)).map fun p =>
    .reset (clock 0) (clock 0) :: p.1

/-- Between two rounds. -/
structure Inv (bound : Nat) (es : List (Event Int)) (s : State) : Prop where
  throttle : Throttle 1000 bound es (s.nextMs - 1000)
  ahead_eq : Event.ahead es = s.numInserts - s.numLastInserts
  inserts_le : s.numLastInserts ≤ s.numInserts
  time_le : ∀ n, s.reads ≤ n → s.nextMs - 1000 ≤ clock n

variable {clock} {maxInsertsPerSecond rowsPerInsert} {bound : Nat} {es out : List (Event Int)}
  {s s' : State}

theorem Inv.start (hclock : Monotone clock) (h : 0 < bound) :
    Inv clock bound [.reset (clock 0) (clock 0)] (start clock) := by
  have hms : clock 0 + 1000 - 1000 = clock 0 := add_sub_cancel_right _ _
  have hnil : Throttle 1000 bound [] (clock 0) := .nil _ h
  refine ⟨?_, rfl, le_rfl, fun n _ => ?_⟩
  · change Throttle 1000 bound _ (clock 0 + 1000 - 1000)
    rw [hms]
    exact hnil.reset (fun hne => absurd rfl hne) le_rfl le_rfl
  · exact hms.trans_le (hclock (Nat.zero_le n))

theorem limit_spec (hclock : Monotone clock) (hmax : 0 < maxInsertsPerSecond)
    (hinv : Inv clock bound es s) {r : Round}
    (h : limit clock maxInsertsPerSecond r s = some (out, s')) :
    Inv clock bound (es ++ out) s' ∧ s'.numInserts - s'.numLastInserts < maxInsertsPerSecond := by
  unfold limit at h
  split at h
  · obtain ⟨k, hk, hsome⟩ := Option.bind_eq_some_iff.mp h
    obtain ⟨hle, hready⟩ := readUntil_spec hk
    cases hsome
    have hms : clock (k + 1) + 1000 - 1000 = clock (k + 1) := add_sub_cancel_right _ _
    have hlate : s.nextMs ≤ clock k := by simpa using hready
    have hnext : clock k ≤ clock (k + 1) := hclock (Nat.le_succ k)
    refine ⟨⟨?_, ?_, le_rfl, fun n hn => ?_⟩, ?_⟩
    · change Throttle 1000 bound _ (clock (k + 1) + 1000 - 1000)
      rw [hms]
      refine hinv.throttle.reset (fun _ => ?_) (by omega) hnext
      omega
    · rw [Event.ahead_concat, Nat.sub_self]
      rfl
    · exact hms.trans_le (hclock (Nat.le_of_succ_le hn))
    · simpa only [Nat.sub_self] using hmax
  · next hfew =>
    cases h
    rw [List.append_nil]
    refine ⟨⟨hinv.throttle, hinv.ahead_eq, hinv.inserts_le, fun n hn => hinv.time_le n ?_⟩, ?_⟩
    · simp only at hn
      omega
    · exact not_le.mp hfew

theorem round_keeps (hclock : Monotone clock) (hmax : 0 < maxInsertsPerSecond)
    (hinv : Inv clock (maxInsertsPerSecond + rowsPerInsert) es s) {r : Round × Bool}
    (h : round clock maxInsertsPerSecond rowsPerInsert r s = some (out, s')) :
    Inv clock (maxInsertsPerSecond + rowsPerInsert) (es ++ out) s' := by
  obtain ⟨⟨resets, s₁⟩, hlimit, hsome⟩ := Option.bind_eq_some_iff.mp h
  obtain ⟨hinv₁, hfew⟩ := limit_spec hclock hmax hinv hlimit
  have hinserts := hinv₁.inserts_le
  dsimp only at hsome
  split at hsome
  · cases hsome
    rw [← List.append_assoc]
    refine ⟨hinv₁.throttle.rows ?_, ?_, ?_, hinv₁.time_le⟩
    · rw [hinv₁.ahead_eq]
      omega
    · rw [Event.ahead_concat, hinv₁.ahead_eq, Event.count]
      simp only
      omega
    · simp only
      omega
  · cases hsome
    exact hinv₁

theorem run_throttled (hclock : Monotone clock) (hmax : 0 < maxInsertsPerSecond)
    {rounds : List (Round × Bool)}
    (h : run clock maxInsertsPerSecond rowsPerInsert rounds = some es) :
    Throttled 1000 (maxInsertsPerSecond + rowsPerInsert) es := by
  obtain ⟨⟨out, s'⟩, hemits, rfl⟩ := Option.map_eq_some_iff.mp h
  have hstart : Inv clock (maxInsertsPerSecond + rowsPerInsert) _ (start clock) :=
    Inv.start hclock (by omega)
  have hinv := emits_keeps (I := Inv clock (maxInsertsPerSecond + rowsPerInsert))
    (fun hI hround => round_keeps hclock hmax hI hround) hstart hemits
  exact hinv.throttle.throttled

end MyWriter

/-- **Both writers are throttled**, to the limit and one more batch: `Insert` in seconds, `MyWriter`
in milliseconds. -/
theorem inserts_throttled {limit batch : Nat} (hlimit : 0 < limit)
    {seconds : Nat → ℚ} (hseconds : Monotone seconds) {ms : Nat → Int} (hms : Monotone ms)
    (rounds : List Round) (rounds' : List (Round × Bool)) :
    (∀ es, Insert.insert seconds limit batch rounds = some es →
      Throttled 1 (limit + batch) es) ∧
    ∀ es, MyWriter.run ms limit batch rounds' = some es → Throttled 1000 (limit + batch) es :=
  ⟨fun _ h => Insert.insert_throttled hseconds hlimit h,
    fun _ h => MyWriter.run_throttled hms hlimit h⟩

/-- Three rows a second in batches of two, on clocks that are read four times a second: the third
batch has to wait. -/
theorem inserts_throttled_quarters :
    Insert.insert (fun n => (n : ℚ) / 4) 3 2 (List.replicate 3 ⟨0, 9⟩) =
      some [.reset 0 0, .rows 2, .rows 2, .reset 1 1, .rows 2] ∧
    MyWriter.run (fun n => 250 * n) 3 2 [(⟨1, 9⟩, true), (⟨1, 9⟩, true), (⟨1, 9⟩, true)] =
      some [.reset 0 0, .rows 2, .rows 2, .reset 1000 1250, .rows 2] ∧
    (∀ es, Insert.insert (fun n => (n : ℚ) / 4) 3 2 (List.replicate 3 ⟨0, 9⟩) = some es →
      Throttled 1 (3 + 2) es) ∧
    ∀ es, MyWriter.run (fun n => 250 * n) 3 2
        [(⟨1, 9⟩, true), (⟨1, 9⟩, true), (⟨1, 9⟩, true)] = some es →
      Throttled 1000 (3 + 2) es := by
  refine ⟨by decide +kernel, by decide +kernel,
    inserts_throttled (by decide) (fun m n h => ?_) (fun m n h => ?_) _ _⟩
  · have hcast : (m : ℚ) ≤ n := Nat.cast_le.mpr h
    linarith
  · omega

end TokuQa.Iibench
