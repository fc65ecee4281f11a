import TokuQa.Lib.Run
import TokuQa.Lib.Threads

/-!
# The query thread of `jiibench.java`

While the writers insert, one thread queries. The transaction it looks for is a random `long` modulo
`globalInserts`, which the writers count up; it may be zero still, and the remainder has the sign
of the random number. Whatever is thrown in the loop ends the thread, long before `allDone`.

A step is a read or a write of one of the shared variables, or a statement. No statement fails.
`due` says if the time of the next query has come, `draw` what `rand.nextLong()` returns. Between
`password=` and `rewriteBatchedStatements` the thread's URL has no `&`, so whether it gets a
connection is open; without one its statements are `null`.
-/

set_option autoImplicit false

namespace TokuQa.Iibench.QueryThread

open TokuQa.Lib

structure Config where
  numMaxInserts : Nat
  rowsPerInsert : Nat
  queryBeginNumRows : Int
  connected : Bool

/-- Where a writer is; `rounds` are those behind the present one. -/
inductive WriterPc where
  | waiting
  | executeBatch (rounds : Nat)
  | count (rounds : Nat)
  | check (rounds : Nat)
  | exit
  | last
  | stopped
deriving DecidableEq

inductive QueryPc where
  | loop
  | clock
  /-- At the comparison with `queryBeginNumRows`. -/
  | compare
  /-- At the remainder, which reads `globalInserts` again. -/
  | remainder
  | query (id : Int)
  /-- Behind the loop. -/
  | left
deriving DecidableEq

/-- `queried` are the transactions that were queried. -/
structure State (n : Nat) where
  rows : Nat
  globalInserts : Nat
  globalWriterThreads : Nat
  allDone : Bool
  writer : Fin n → WriterPc
  query : QueryPc
  whichQuery : Nat
  queried : List Int

def start (n : Nat) : State n := ⟨0, 0, 0, false, fun _ => .waiting, .loop, 0, []⟩

/-- The steps: `main` starts a writer; a writer's; the query thread's; the reporter finds that the
time is up. -/
inductive Event (n : Nat) where
  | start (i : Fin n)
  | writer (i : Fin n)
  | query (due : Bool) (draw : Int)
  | timeUp

variable {n : Nat}

/-- The head of the loop over the rounds. -/
def nextRound : Nat → WriterPc
  | 0 => .exit
  | rounds + 1 => .executeBatch rounds

def State.at (s : State n) (i : Fin n) (pc : WriterPc) : State n :=
  { s with writer := Function.update s.writer i pc }

def stepWriter (c : Config) (i : Fin n) (s : State n) : Option (State n) :=
  match s.writer i with
  | .waiting => none
  | .executeBatch rounds => some ({ s with rows := s.rows + c.rowsPerInsert }.at i (.count rounds))
  | .count rounds =>
    some ({ s with globalInserts := s.globalInserts + c.rowsPerInsert }.at i (.check rounds))
  | .check rounds => some (s.at i (if s.allDone then .exit else nextRound rounds))
  | .exit =>
    let numWriters := s.globalWriterThreads - 1
    some ({ s with globalWriterThreads := numWriters }.at i
      (if numWriters = 0 then .last else .stopped))
  | .last => some ({ s with allDone := true }.at i .stopped)
  | .stopped => none

def stepQuery (c : Config) (due : Bool) (draw : Int) (s : State n) : Option (State n) :=
  match s.query with
  | .loop => some { s with query := if s.allDone then .left else .clock }
  | .clock => some { s with query := if due then .compare else .loop }
  | .compare =>
    if c.queryBeginNumRows ≤ s.globalInserts then
      some { s with
        whichQuery := if s.whichQuery + 1 > 4 then 1 else s.whichQuery + 1
        query := .remainder }
    else some { s with query := .loop }
  | .remainder =>
    -- `ArithmeticException`
    if s.globalInserts = 0 then some { s with query := .left }
    else some { s with query := .query (draw.tmod s.globalInserts) }
  | .query id =>
    if c.connected then
      some { s with
        queried := if s.whichQuery = 1 then s.queried ++ [id] else s.queried
        query := .loop }
    -- `NullPointerException`
    else some { s with query := .left }
  | .left => none

def step (c : Config) (e : Event n) (s : State n) : Option (State n) :=
  match e with
  | .start i =>
    if s.writer i = .waiting then
      some ({ s with globalWriterThreads := s.globalWriterThreads + 1 }.at i
        (nextRound (c.numMaxInserts / c.rowsPerInsert)))
    else none
  | .writer i => stepWriter c i s
  | .query due draw => stepQuery c due draw s
  | .timeUp => some { s with allDone := true }

/-! ## What should hold -/

/-- A transaction of the rows that have been inserted. -/
def State.Inserted (s : State n) (id : Int) : Prop := 0 ≤ id ∧ id < s.rows

/-- The thread is in its loop until `allDone`, and asks for transactions that are there. -/
structure Survives (s : State n) : Prop where
  inLoop : s.query = .left → s.allDone = true
  asks : ∀ id, s.query = .query id → s.whichQuery = 1 → s.Inserted id
  asked : ∀ id ∈ s.queried, s.Inserted id

/-- The steps that go well: at the remainder something has been counted, and for the query of a
transaction the random number is not negative, or a multiple; at a query there is a connection. -/
def Fine (c : Config) (e : Event n) (s : State n) : Prop :=
  match e with
  | .query _ draw =>
    (s.query = .remainder →
      (s.globalInserts = 0 → s.allDone = true) ∧
      (s.globalInserts ≠ 0 → s.whichQuery = 1 → 0 ≤ draw ∨ (s.globalInserts : Int) ∣ draw)) ∧
    ∀ id, s.query = .query id → c.connected = true ∨ s.allDone = true
  | _ => True

/-- The sign of a remainder. -/
theorem tmod_nonneg_iff {draw : Int} {m : Nat} : 0 ≤ draw.tmod m ↔ 0 ≤ draw ∨ (m : Int) ∣ draw := by
  constructor
  · intro h
    by_contra hneither
    rw [not_or, not_le] at hneither
    have hneg : (-draw).tmod m = -(draw.tmod m) := Int.neg_tmod _ _
    have hpos : 0 ≤ (-draw).tmod m := Int.tmod_nonneg _ (by omega)
    exact hneither.2 (Int.dvd_of_tmod_eq_zero (by omega))
  · rintro (h | h)
    · exact Int.tmod_nonneg _ h
    · exact (Int.tmod_eq_zero_of_dvd h).ge

/-! ## The invariant -/

/-- The rows a writer has inserted and not yet counted. -/
def WriterPc.pending (c : Config) : WriterPc → Nat
  | .count _ => c.rowsPerInsert
  | _ => 0

structure Inv (c : Config) (s : State n) : Prop extends Survives s where
  counted : s.globalInserts + ∑ i, (s.writer i).pending c = s.rows

theorem inv_start (c : Config) : Inv c (start n) where
  inLoop h := nomatch h
  asks _ h := nomatch h
  asked _ h := absurd h (List.not_mem_nil)
  counted := by simp [start, WriterPc.pending]

section

variable {c : Config} {s s' : State n}

theorem pending_nextRound (c : Config) (rounds : Nat) : (nextRound rounds).pending c = 0 := by
  cases rounds <;> rfl

/-- A writer only makes rows, and counts what it has made. -/
theorem Survives.writer (h : Survives s) {rows globalInserts globalWriterThreads : Nat}
    {allDone : Bool} {writer : Fin n → WriterPc} (hrows : s.rows ≤ rows)
    (hdone : s.allDone = true → allDone = true) :
    Survives { s with rows, globalInserts, globalWriterThreads, allDone, writer } := by
  have hlater : ∀ id, s.Inserted id → 0 ≤ id ∧ id < (rows : Int) := by
    intro id hid
    exact ⟨hid.1, lt_of_lt_of_le hid.2 (Int.ofNat_le.mpr hrows)⟩
  exact ⟨fun hleft => hdone (h.inLoop hleft), fun id hid hwhich => hlater id (h.asks id hid hwhich),
    fun id hid => hlater id (h.asked id hid)⟩

/-- A writer moves: what it had pending is counted, or what it makes is pending. -/
theorem Inv.counted_update (h : Inv c s) {i : Fin n} {pc : WriterPc} {rows globalInserts : Nat}
    (hmove : globalInserts + pc.pending c + s.rows =
      s.globalInserts + (s.writer i).pending c + rows) :
    globalInserts + ∑ j, (Function.update s.writer i pc j).pending c = rows := by
  have hsum := sum_update (WriterPc.pending c) s.writer i pc
  have hcounted := h.counted
  omega

theorem Inv.writer (h : Inv c s) {i : Fin n} (hstep : stepWriter c i s = some s') : Inv c s' := by
  unfold stepWriter at hstep
  cases hpc : s.writer i with
  | waiting | stopped => simp [hpc] at hstep
  | executeBatch rounds =>
    simp only [hpc, Option.some.injEq] at hstep
    subst hstep
    refine ⟨h.toSurvives.writer (Nat.le_add_right _ _) id, h.counted_update ?_⟩
    simp only [State.at, hpc, WriterPc.pending]
    omega
  | count rounds =>
    simp only [hpc, Option.some.injEq] at hstep
    subst hstep
    refine ⟨h.toSurvives.writer (le_refl _) id, h.counted_update ?_⟩
    simp only [State.at, hpc, WriterPc.pending]
    omega
  | check rounds =>
    simp only [hpc, Option.some.injEq] at hstep
    subst hstep
    refine ⟨h.toSurvives.writer (le_refl _) id, h.counted_update ?_⟩
    have hnone : (if s.allDone then WriterPc.exit else nextRound rounds).pending c = 0 := by
      split
      · rfl
      · exact pending_nextRound c rounds
    rw [hnone, hpc]
    rfl
  | exit =>
    simp only [hpc, Option.some.injEq] at hstep
    subst hstep
    refine ⟨h.toSurvives.writer (le_refl _) id, h.counted_update ?_⟩
    have hnone : (if s.globalWriterThreads - 1 = 0 then WriterPc.last else .stopped).pending c =
        0 := by
      split <;> rfl
    rw [hnone, hpc]
    rfl
  | last =>
    simp only [hpc, Option.some.injEq] at hstep
    subst hstep
    refine ⟨h.toSurvives.writer (le_refl _) fun _ => rfl, h.counted_update ?_⟩
    rw [hpc]
    rfl

theorem Inv.start (h : Inv c s) {i : Fin n} (hpc : s.writer i = .waiting) :
    Inv c ({ s with globalWriterThreads := s.globalWriterThreads + 1 }.at i
      (nextRound (c.numMaxInserts / c.rowsPerInsert))) := by
  refine ⟨h.toSurvives.writer (le_refl _) id, h.counted_update ?_⟩
  rw [hpc, pending_nextRound]
  rfl

/-- What the query thread reads of the counter is never ahead of the rows. -/
theorem Inv.globalInserts_le (h : Inv c s) : s.globalInserts ≤ s.rows :=
  Nat.le.intro h.counted

/-- The remainder by a counter that is not zero is a transaction exactly when it is not negative. -/
theorem Inv.inserted_iff (h : Inv c s) {draw : Int} (hpos : s.globalInserts ≠ 0) :
    s.Inserted (draw.tmod s.globalInserts) ↔ 0 ≤ draw ∨ (s.globalInserts : Int) ∣ draw := by
  rw [← tmod_nonneg_iff]
  have hlt : draw.tmod s.globalInserts < s.globalInserts :=
    Int.tmod_lt_of_pos _ (Int.natCast_pos.mpr (Nat.pos_of_ne_zero hpos))
  have hle := h.globalInserts_le
  exact ⟨And.left, fun hid => ⟨hid, by omega⟩⟩

/-- A fine step of the query thread. -/
theorem Inv.query (h : Inv c s) {due : Bool} {draw : Int} (hfine : Fine c (.query due draw) s)
    (hstep : stepQuery c due draw s = some s') : Inv c s' := by
  obtain ⟨hremainder, hquery⟩ := hfine
  unfold stepQuery at hstep
  cases hpc : s.query with
  | loop =>
    simp only [hpc, Option.some.injEq] at hstep
    subst hstep
    refine ⟨⟨fun hleft => ?_, fun id hid => ?_, h.asked⟩, h.counted⟩
    · by_contra hdone
      simp only [if_neg hdone] at hleft
      cases hleft
    · dsimp only at hid
      split at hid <;> cases hid
  | clock =>
    simp only [hpc, Option.some.injEq] at hstep
    subst hstep
    refine ⟨⟨fun hleft => ?_, fun id hid => ?_, h.asked⟩, h.counted⟩
    · dsimp only at hleft
      split at hleft <;> cases hleft
    · dsimp only at hid
      split at hid <;> cases hid
  | compare =>
    simp only [hpc] at hstep
    split at hstep <;> cases hstep
    · exact ⟨⟨fun hleft => (nomatch hleft), fun id hid => (nomatch hid), h.asked⟩, h.counted⟩
    · exact ⟨⟨fun hleft => (nomatch hleft), fun id hid => (nomatch hid), h.asked⟩, h.counted⟩
  | remainder =>
    obtain ⟨hzero, hsign⟩ := hremainder hpc
    simp only [hpc] at hstep
    split at hstep
    case isTrue hcount =>
      cases hstep
      exact ⟨⟨fun _ => hzero hcount, fun id hid => (nomatch hid), h.asked⟩, h.counted⟩
    case isFalse hcount =>
      cases hstep
      refine ⟨⟨fun hleft => (nomatch hleft), fun id hid hwhich => ?_, h.asked⟩, h.counted⟩
      cases hid
      exact (h.inserted_iff hcount).mpr (hsign hcount hwhich)
  | query id =>
    simp only [hpc] at hstep
    split at hstep
    case isTrue =>
      cases hstep
      refine ⟨⟨fun hleft => (nomatch hleft), fun _ hid => (nomatch hid), ?_⟩, h.counted⟩
      intro id' hid'
      dsimp only at hid'
      split at hid'
      case isTrue hwhich =>
        rcases List.mem_append.mp hid' with hold | hnew
        · exact h.asked id' hold
        · rw [List.mem_singleton.mp hnew]
          exact h.asks id hpc hwhich
      case isFalse => exact h.asked id' hid'
    case isFalse hconnected =>
      cases hstep
      have hdone := (hquery id hpc).resolve_left hconnected
      exact ⟨⟨fun _ => hdone, fun _ hid => (nomatch hid), h.asked⟩, h.counted⟩
  | left => simp [hpc] at hstep

theorem Inv.step {e : Event n} (h : Inv c s) (hfine : Fine c e s) (hstep : step c e s = some s') :
    Inv c s' := by
  cases e with
  | start i =>
    simp only [QueryThread.step] at hstep
    split at hstep
    case isTrue hpc =>
      cases hstep
      exact h.start hpc
    case isFalse => cases hstep
  | writer i => exact h.writer hstep
  | query due draw => exact h.query hfine hstep
  | timeUp =>
    cases hstep
    exact ⟨h.toSurvives.writer (le_refl _) fun _ => rfl, h.counted⟩

/-- The other steps of the query thread go wrong at once. -/
theorem Inv.break_ {e : Event n} (h : Inv c s) (hbad : ¬ Fine c e s) :
    ∃ s', QueryThread.step c e s = some s' ∧ ¬ Survives s' := by
  cases e with
  | start | writer | timeUp => exact absurd trivial hbad
  | query due draw =>
    cases hpc : s.query with
    | loop | clock | compare | left => simp [Fine, hpc] at hbad
    | remainder =>
      by_cases hcount : s.globalInserts = 0
      · have hdone : s.allDone ≠ true := by
          intro hdone
          simp [Fine, hpc, hcount, hdone] at hbad
        refine ⟨{ s with query := .left }, ?_, fun hlives => hdone (hlives.inLoop rfl)⟩
        simp [QueryThread.step, stepQuery, hpc, hcount]
      · have hneg : s.whichQuery = 1 ∧ ¬ (0 ≤ draw ∨ (s.globalInserts : Int) ∣ draw) := by
          by_contra hok
          refine hbad ⟨fun _ => ⟨fun hzero => absurd hzero hcount, fun _ hwhich => ?_⟩, ?_⟩
          · by_contra hdraw
            exact hok ⟨hwhich, hdraw⟩
          · intro id hid
            rw [hpc] at hid
            cases hid
        refine ⟨{ s with query := .query (draw.tmod s.globalInserts) }, ?_, fun hlives => ?_⟩
        · simp [QueryThread.step, stepQuery, hpc, hcount]
        · exact hneg.2 ((h.inserted_iff hcount).mp (hlives.asks _ rfl hneg.1))
    | query id =>
      have hcut : c.connected ≠ true ∧ s.allDone ≠ true := by
        simpa [Fine, hpc, not_or] using hbad
      refine ⟨{ s with query := .left }, ?_, fun hlives => hcut.2 (hlives.inLoop rfl)⟩
      simp [QueryThread.step, stepQuery, hpc, hcut.1]

end

/-- **The query thread stays in its loop and asks for transactions that are there, all along a run,
exactly when each of its remainders and queries is fine.** -/
theorem survives_iff (c : Config) (es : List (Event n)) :
    (∀ pre s, pre <+: es → run (step c) pre (start n) = some s → Survives s) ↔
      AllSteps (step c) (Fine c) es (start n) :=
  prefixes_iff (W := fun _ => True) (J := Inv c) Inv.toSurvives (fun h _ => Inv.step h)
    (fun h _ => Inv.break_ h) (inv_start c) fun _ _ => trivial

/-- Before the first batch is counted the remainder throws, and the thread is gone; later a negative
random number is asked for as it is. -/
theorem not_survives :
    ((run (step ⟨1, 1, 0, true⟩) [.start 0, .query true 5, .query true 5, .query true 5,
      .query true 5] (start 1)).map fun s => (s.query, s.allDone)) = some (.left, false) ∧
    ((run (step ⟨2, 2, 0, true⟩) [.start 0, .writer 0, .writer 0, .query true (-1),
      .query true (-1), .query true (-1), .query true (-1), .query true (-1)] (start 1)).map
        State.queried) = some [-1] := by
  decide

end TokuQa.Iibench.QueryThread
