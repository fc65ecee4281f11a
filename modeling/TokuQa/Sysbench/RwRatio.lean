import Mathlib.Tactic.NormNum
import TokuQa.Lib.Binary64
import TokuQa.Lib.JavaInt
import TokuQa.Lib.Run
import TokuQa.Sysbench.RndRequests

/-!
# The ratio of reads and writes

In the combined test a request is a read if the reads there have been, with this one, are fewer
than `file-rw-ratio` for each of the writes, with one more. What the counters say is what keeps
the ratio: of `Tracks`, the one bound is left by a read at the wrong time, the other one by a
write.

The requests are those of the fileio test, with the numbers as the machine has them: the
counters are `int`, which wrap around, and their quotient is rounded to a `double`. As long as
they are small that makes no difference (`fileGetRndRequest_eq`). The counters are also what a
cumulative report clears, and then they do not say how many reads and writes there were.

One thread executes each request before it makes the next one up, and no execution fails.
-/

set_option autoImplicit false

namespace TokuQa.Sysbench.RwRatio

open TokuQa.Lib
open FileIo (Config Globals TestMode Request FileRequest FileOp sbMaxRnd fsyncFirst rndData
  rndData_eq_some settings endless)

/-! ## A request -/

section

variable (c : Config) (g : Globals)

/-- `(double)reads / writes < q`. A quotient by zero is infinite, or not a number. -/
def quotientBelow (reads writes : Int) (q : ℚ) : Bool :=
  if writes = 0 then reads < 0 else roundDouble ((reads : ℚ) / writes) < q

/-- The quotient of the counters, each with one more, is less than the ratio. `realReadOps` and
`realWriteOps` are what the counters have counted, and the counters are that, wrapped around. -/
def below (s : FileIo.State) : Bool :=
  quotientBelow (wrap32 (s.realReadOps + 1)) (wrap32 (s.realWriteOps + 1)) c.fileRwRatio

/-- The mode of one request of the combined test. -/
def rndMode (s : FileIo.State) : TestMode :=
  if c.testMode = .rndRw then if below c s then .rndRead else .rndWrite else c.testMode

def rndOperation (s : FileIo.State) : FileOp := if rndMode c s = .rndWrite then .write else .read

def fileGetRndRequest (randnum : Nat) (s : FileIo.State) : Option (Request × FileIo.State) :=
  let operation := rndOperation c s
  fsyncFirst c g (c.testMode = .rndWrite ∨ c.testMode = .rndRw ∨ c.testMode = .mixed) true s <|
    (rndData c operation randnum).map fun fileReq => (.file fileReq, s.performed operation)

/-! ## Runs -/

/-- The static variables, and the reads and writes of the run. -/
structure State where
  vars : FileIo.State
  reads : Nat
  writes : Nat

def start : State := ⟨FileIo.initVars, 0, 0⟩

/-- What `clear_stats` does to the counters. -/
def clearStats (s : FileIo.State) : FileIo.State := { s with realReadOps := 0, realWriteOps := 0 }

/-- A request is executed. -/
def State.executed (operation : FileOp) (s : State) : State :=
  match operation with
  | .read => { s with vars := s.vars.executed .read, reads := s.reads + 1 }
  | .write => { s with vars := s.vars.executed .write, writes := s.writes + 1 }
  | .fsync => s

/-- A turn of the thread, with the next random number, or a cumulative report. -/
inductive Event where
  | turn (randnum : Fin sbMaxRnd)
  | cumulative

def step (e : Event) (s : State) : Option State :=
  match e with
  | .turn randnum =>
    (fileGetRndRequest c g randnum s.vars).map fun
      | (.null, vars) => { s with vars }
      | (.file fileReq, vars) => { s with vars }.executed fileReq.operation
  | .cumulative => some { s with vars := clearStats s.vars }

end

/-- **The ratio is kept**: there is no read too many, and no write too many. -/
def Tracks (q : ℚ) (reads writes : Nat) : Prop :=
  (reads = 0 ∨ (reads : ℚ) < q * (writes + 1)) ∧ (writes = 0 ∨ q * writes ≤ (reads + 1 : ℚ))

/-- The counters are small enough for an `int`, and for a `double` against a ratio of so many
bits. -/
structure Fits (digits : Nat) (s : FileIo.State) : Prop where
  reads : s.realReadOps + 1 < 2 ^ 31
  writes : s.realWriteOps + 1 < 2 ^ 31
  quotient : 2 ^ digits * (s.realWriteOps + 1) < 2 ^ 54

/-- **When a turn keeps the ratio**: the counters have not been cleared since the first read or
write, and they are small. -/
def Fine (digits : Nat) (e : Event) (s : State) : Prop :=
  match e with
  | .turn _ => (s.vars.realReadOps = s.reads ∧ s.vars.realWriteOps = s.writes) ∧
      Fits digits s.vars
  | .cumulative => True

/-! ## The rule -/

section

variable {q : ℚ} {reads writes : Nat}

theorem tracks_zero (q : ℚ) : Tracks q 0 0 := ⟨.inl rfl, .inl rfl⟩

theorem Tracks.read (h : Tracks q reads writes) (hbelow : (reads + 1 : ℚ) / (writes + 1) < q) :
    Tracks q (reads + 1) writes := by
  have hpos : (0 : ℚ) < writes + 1 := by positivity
  rw [div_lt_iff₀ hpos] at hbelow
  refine ⟨.inr ?_, h.2.imp_right fun hwrites => ?_⟩
  · exact_mod_cast hbelow
  · push_cast
    linarith

theorem Tracks.write (h : Tracks q reads writes) (hq : 0 ≤ q)
    (hbelow : ¬ (reads + 1 : ℚ) / (writes + 1) < q) : Tracks q reads (writes + 1) := by
  have hpos : (0 : ℚ) < writes + 1 := by positivity
  rw [not_lt, le_div_iff₀ hpos] at hbelow
  refine ⟨h.1.imp_right fun hreads => ?_, .inr ?_⟩
  · push_cast
    linarith
  · exact_mod_cast hbelow

end

/-! ## Small counters -/

section

variable {c : Config} {g : Globals} {digits : Nat} {s : FileIo.State}

theorem below_iff (hratio : HasBits digits c.fileRwRatio) (hfits : Fits digits s) :
    below c s ↔ (s.realReadOps + 1 : ℚ) / (s.realWriteOps + 1) < c.fileRwRatio := by
  have hreads : wrap32 (s.realReadOps + 1) = (s.realReadOps + 1 : Nat) := by
    have := hfits.reads
    exact wrap_eq_self (by omega) (by omega)
  have hwrites : wrap32 (s.realWriteOps + 1) = (s.realWriteOps + 1 : Nat) := by
    have := hfits.writes
    exact wrap_eq_self (by omega) (by omega)
  have hbound : s.realReadOps + 1 < 2 ^ (52 + 1) := hfits.reads.trans (by decide)
  have hround := roundBits_div_lt_iff hratio (Nat.succ_pos s.realWriteOps) hbound hfits.quotient
  rw [below, hreads, hwrites, quotientBelow, if_neg (by omega), decide_eq_true_iff]
  push_cast at hround ⊢
  exact hround

/-- **With small counters the machine's numbers are as good as any.** -/
theorem fileGetRndRequest_eq (hratio : HasBits digits c.fileRwRatio) (hfits : Fits digits s)
    (randnum : Nat) :
    fileGetRndRequest c g randnum s = FileIo.fileGetRndRequest c g randnum s := by
  have hmode : rndMode c s = FileIo.rndMode c s := by
    unfold rndMode FileIo.rndMode
    split
    · exact if_congr (below_iff hratio hfits) rfl rfl
    · rfl
  have hoperation : rndOperation c s = FileIo.rndOperation c s := by
    rw [rndOperation, FileIo.rndOperation, hmode]
  rw [fileGetRndRequest, FileIo.fileGetRndRequest, hoperation]

end

/-! ## A turn -/

section

variable {c : Config} {g : Globals} {digits : Nat} {s s' : State} {randnum : Fin sbMaxRnd}

/-- What a turn does to the reads and writes. -/
theorem turn_cases (h : step c g (.turn randnum) s = some s') :
    (s'.reads = s.reads ∧ s'.writes = s.writes) ∨
    (rndOperation c s.vars = .read ∧ s'.reads = s.reads + 1 ∧ s'.writes = s.writes) ∨
    (rndOperation c s.vars = .write ∧ s'.reads = s.reads ∧ s'.writes = s.writes + 1) := by
  obtain ⟨⟨req, vars⟩, hget, hstep⟩ := Option.map_eq_some_iff.mp h
  obtain ⟨req', vars', hfirst, hnone, -⟩ | ⟨-, -, hdata⟩ := FileIo.fsyncFirst_cases c g
    (c.testMode = .rndWrite ∨ c.testMode = .rndRw ∨ c.testMode = .mixed) true s.vars
  · -- the end, or an fsync
    rw [fileGetRndRequest, hfirst] at hget
    cases hget
    subst hstep
    cases req with
    | null => exact .inl ⟨rfl, rfl⟩
    | file fileReq =>
      have hfsync : fileReq.operation = .fsync := by
        by_contra hne
        simp [Request.data, hne] at hnone
      dsimp only
      rw [hfsync]
      exact .inl ⟨rfl, rfl⟩
  · rw [fileGetRndRequest, hdata] at hget
    obtain ⟨fileReq, hrnd, heq⟩ := Option.map_eq_some_iff.mp hget
    cases heq
    obtain ⟨-, rfl⟩ := rndData_eq_some.mp hrnd
    subst hstep
    dsimp only
    unfold rndOperation
    split
    · exact .inr (.inr ⟨rfl, rfl, rfl⟩)
    · exact .inr (.inl ⟨rfl, rfl, rfl⟩)

theorem rndOperation_eq_read (hmode : c.testMode = .rndRw) {vars : FileIo.State} :
    rndOperation c vars = .read ↔ below c vars := by
  rw [rndOperation, rndMode, if_pos hmode]
  split <;> simp_all

theorem rndOperation_eq_write (hmode : c.testMode = .rndRw) {vars : FileIo.State} :
    rndOperation c vars = .write ↔ ¬ below c vars := by
  rw [rndOperation, rndMode, if_pos hmode]
  split <;> simp_all

theorem Tracks.step (hmode : c.testMode = .rndRw) (hratio : HasBits digits c.fileRwRatio)
    {e : Event} (h : Tracks c.fileRwRatio s.reads s.writes) (hfine : Fine digits e s)
    (hstep : step c g e s = some s') : Tracks c.fileRwRatio s'.reads s'.writes := by
  cases e with
  | cumulative =>
    cases hstep
    exact h
  | turn randnum =>
    obtain ⟨⟨hreads, hwrites⟩, hfits⟩ := hfine
    have hbelow := below_iff hratio hfits
    rw [hreads, hwrites] at hbelow
    obtain ⟨hr, hw⟩ | ⟨hop, hr, hw⟩ | ⟨hop, hr, hw⟩ := turn_cases hstep
    · rw [hr, hw]
      exact h
    · rw [hr, hw]
      exact h.read (hbelow.mp ((rndOperation_eq_read hmode).mp hop))
    · rw [hr, hw]
      exact h.write c.fileRwRatio_nonneg fun hlt =>
        (rndOperation_eq_write hmode).mp hop (hbelow.mpr hlt)

/-- **The ratio is kept, in every run** whose turns find the counters small, and as the reads and
writes have left them. -/
theorem tracks_of_fine (hmode : c.testMode = .rndRw) (hratio : HasBits digits c.fileRwRatio)
    {events : List Event} (hfine : AllSteps (step c g) (Fine digits) events start)
    (hrun : run (step c g) events start = some s) : Tracks c.fileRwRatio s.reads s.writes :=
  run_keeps (J := fun s => Tracks c.fileRwRatio s.reads s.writes)
    (fun h hfine hstep => h.step hmode hratio hfine hstep) (tracks_zero _) hfine hrun

/-- A turn in which no fsync is due is a read or a write. -/
theorem step_turn (hdue : ¬ s.vars.Due c) (hsize : 0 < c.fileSize) :
    step c endless (.turn randnum) s = some
      ({ s with vars := s.vars.performed (rndOperation c s.vars) }.executed
        (rndOperation c s.vars)) := by
  obtain ⟨fileReq, hrnd, hop⟩ : ∃ fileReq,
      rndData c (rndOperation c s.vars) randnum = some fileReq ∧
        fileReq.operation = rndOperation c s.vars := ⟨_, rndData_eq_some.mpr ⟨hsize, rfl⟩, rfl⟩
  have hget : fileGetRndRequest c endless randnum s.vars =
      some (.file fileReq, s.vars.performed (rndOperation c s.vars)) := by
    rw [fileGetRndRequest, fsyncFirst, if_neg (FileIo.not_done s.vars), if_neg fun h => hdue h.2,
      hrnd]
    rfl
  rw [step, hget, ← hop]
  rfl

end

/-! ## One read, and one too many -/

theorem rndRw_ne_mixed : TestMode.rndRw ≠ .mixed := by decide

/-- One block in one file, and the ratio at its default. -/
def defaultRatio : Config :=
  settings 1 1 1 0 .rndRw (by decide) (by decide) (by decide) (by decide) rndRw_ne_mixed

/-- The first random number of all. -/
def turn₀ : Event := .turn ⟨0, FileIo.sbMaxRnd_pos⟩

theorem hasBits_default : HasBits 2 defaultRatio.fileRwRatio :=
  ⟨3, -1, by decide, by norm_num [defaultRatio, settings]⟩

/-- Counters of zero ask for a read. -/
theorem turn_default {s : State} (hzero : s.vars.realReadOps = 0 ∧ s.vars.realWriteOps = 0)
    (hclean : s.vars.isDirty = false) : step defaultRatio endless turn₀ s =
      some ({ s with vars := s.vars.performed .read }.executed .read) := by
  have hfits : Fits 2 s.vars := ⟨by omega, by omega, by omega⟩
  have hread : rndOperation defaultRatio s.vars = .read := by
    refine (rndOperation_eq_read rfl).mpr ((below_iff hasBits_default hfits).mpr ?_)
    rw [hzero.1, hzero.2]
    norm_num [defaultRatio, settings]
  have hdue : ¬ s.vars.Due defaultRatio := fun h => Bool.noConfusion (hclean.symm.trans h.2.1)
  have hturn : step defaultRatio endless turn₀ s = _ := step_turn hdue (by decide)
  rw [hread] at hturn
  exact hturn

theorem tracks_firstRead : ∃ s, run (step defaultRatio endless) [turn₀] start = some s ∧
    (s.reads, s.writes) = (1, 0) ∧ Tracks defaultRatio.fileRwRatio s.reads s.writes := by
  have hturn := turn_default (s := start) ⟨rfl, rfl⟩ rfl
  have hfine : Fine 2 turn₀ start := ⟨⟨rfl, rfl⟩, by decide, by decide, by decide⟩
  have hall : AllSteps (step defaultRatio endless) (Fine 2) [turn₀] start :=
    .cons hfine hturn trivial
  have hrun := run_singleton hturn
  exact ⟨_, hrun, rfl, tracks_of_fine rfl hasBits_default hall hrun⟩

/-- A checkpoint after the first read makes the next request a read again, which is one too
many. -/
theorem checkpoint_loses : ∃ s,
    run (step defaultRatio endless) [turn₀, .cumulative, turn₀] start = some s ∧
      (s.reads, s.writes) = (2, 0) ∧ ¬ Tracks defaultRatio.fileRwRatio s.reads s.writes := by
  have hfirst := turn_default (s := start) ⟨rfl, rfl⟩ rfl
  refine ⟨_, run_cons_eq_some.mpr ⟨_, hfirst, run_cons_eq_some.mpr ⟨_, rfl,
    run_cons_eq_some.mpr ⟨_, turn_default ⟨rfl, rfl⟩ rfl, rfl⟩⟩⟩, rfl, ?_⟩
  rintro ⟨hreads | hreads, -⟩
  · cases hreads
  · norm_num [State.executed, start, defaultRatio, settings] at hreads

/-! ## Too many writes to count -/

/-- One block in one file, with writes only and no fsync. -/
def writesOnly : Config :=
  { defaultRatio with
    fileRwRatio := 0
    fileRwRatio_nonneg := le_rfl
    fileFsyncFreq := 0
    fileFsyncFreq_lt := Nat.two_pow_pos 31
    fileFsyncAll_only := nofun }

theorem turn_writesOnly (s : State) : step writesOnly endless turn₀ s = some
    ({ s with vars := s.vars.performed (rndOperation writesOnly s.vars) }.executed
      (rndOperation writesOnly s.vars)) :=
  step_turn (fun h => h.1 rfl) (by decide)

/-- No quotient of counters that have not wrapped around is negative. -/
theorem not_quotientBelow_zero (reads writes : Nat) :
    ¬ quotientBelow reads ((writes : Int) + 1) 0 := by
  have hnonneg : 0 ≤ roundDouble ((reads : Int) / ((writes : Int) + 1 : Int) : ℚ) :=
    roundBits_nonneg (div_nonneg (by exact_mod_cast reads.zero_le)
      (by exact_mod_cast (writes + 1).zero_le))
  rw [quotientBelow, if_neg (by omega), decide_eq_true_iff]
  exact not_lt.mpr hnonneg

/-- As long as the writes can be counted. -/
theorem writes_counted {n : Nat} (hn : n < 2 ^ 31) : ∃ s,
    run (step writesOnly endless) (List.replicate n turn₀) start = some s ∧
      (s.reads, s.writes) = (0, n) ∧ (s.vars.realReadOps, s.vars.realWriteOps) = (0, n) := by
  induction n with
  | zero => exact ⟨start, rfl, rfl, rfl⟩
  | succ n ih =>
    obtain ⟨s, hrun, hdone, hcounted⟩ := ih (Nat.lt_of_succ_lt hn)
    obtain ⟨hreads, hwrites⟩ := Prod.mk.inj hcounted
    have hone : wrap32 (s.vars.realReadOps + 1) = 1 := by
      rw [hreads]
      decide
    have hmore : wrap32 (s.vars.realWriteOps + 1) = (n : Int) + 1 := by
      rw [hwrites]
      exact wrap_eq_self (by omega) (by omega)
    have hbelow : ¬ below writesOnly s.vars := by
      rw [below, hone, hmore]
      exact not_quotientBelow_zero 1 n
    have hwrite : rndOperation writesOnly s.vars = .write :=
      (rndOperation_eq_write rfl).mpr hbelow
    have hturn := turn_writesOnly s
    rw [hwrite] at hturn
    refine ⟨State.executed .write { s with vars := s.vars.performed .write }, ?_, ?_, ?_⟩
    · rw [List.replicate_succ', run_append, hrun, Option.bind_some, run_singleton hturn]
    · obtain ⟨hr, hw⟩ := Prod.mk.inj hdone
      exact Prod.ext hr (congrArg (· + 1) hw)
    · exact Prod.ext hreads (congrArg (· + 1) hwrites)

/-- The next request is a read, though there may be none. -/
theorem overflow_loses {n : Nat} (hn : n + 1 = 2 ^ 31) : ∃ s,
    run (step writesOnly endless) (List.replicate (n + 1) turn₀) start = some s ∧
      (s.reads, s.writes) = (1, n) ∧ ¬ Tracks writesOnly.fileRwRatio s.reads s.writes := by
  obtain ⟨s, hrun, hdone, hcounted⟩ := writes_counted (n := n) (by omega)
  obtain ⟨hreads, hwrites⟩ := Prod.mk.inj hcounted
  have hone : wrap32 (s.vars.realReadOps + 1) = 1 := by
    rw [hreads]
    decide
  have hnegative : wrap32 (s.vars.realWriteOps + 1) = -2 ^ 31 := by
    rw [hwrites]
    have hwrap := wrap_of_overflow (w := 31) (x := n + 1) (by omega) (by omega)
    rw [wrap32, hwrap]
    omega
  have hbelow : below writesOnly s.vars := by
    rw [below, hone, hnegative, quotientBelow, if_neg (by decide), decide_eq_true_iff]
    exact roundBits_neg 52 (by norm_num)
  have hread : rndOperation writesOnly s.vars = .read := (rndOperation_eq_read rfl).mpr hbelow
  have hturn := turn_writesOnly s
  rw [hread] at hturn
  obtain ⟨hr, hw⟩ := Prod.mk.inj hdone
  refine ⟨State.executed .read { s with vars := s.vars.performed .read }, ?_, ?_, ?_⟩
  · rw [List.replicate_succ', run_append, hrun, Option.bind_some, run_singleton hturn]
  · exact Prod.ext (congrArg (· + 1) hr) hw
  · rintro ⟨hreads | hreads, -⟩
    · cases hreads
    · have hzero : writesOnly.fileRwRatio = 0 := rfl
      rw [hzero, zero_mul] at hreads
      exact absurd hreads (not_lt.mpr (Nat.cast_nonneg _))

/-- **The ratio is lost** to a checkpoint, and, without one, to the writes that an `int` cannot
count. -/
theorem ratio_lost :
    (∃ s, run (step defaultRatio endless) [turn₀, .cumulative, turn₀] start = some s ∧
      (s.reads, s.writes) = (2, 0) ∧ ¬ Tracks defaultRatio.fileRwRatio s.reads s.writes) ∧
    ∃ s, run (step writesOnly endless) (List.replicate (2147483647 + 1) turn₀) start = some s ∧
      (s.reads, s.writes) = (1, 2147483647) ∧
        ¬ Tracks writesOnly.fileRwRatio s.reads s.writes :=
  ⟨checkpoint_loses, overflow_loses (by norm_num)⟩

end TokuQa.Sysbench.RwRatio
