import TokuQa.MongoIibench.Machine

/-!
# The end of a run

A writer over its threshold waits for the delete thread, and does not look at `allDone` while it
waits. The delete thread leaves when it sees `allDone`, or dies; no one subtracts then, and a writer
that waits, waits for good, and `main` with it.
-/

set_option autoImplicit false

namespace TokuQa.MongoIibench

open TokuQa.Lib

variable {n : Nat} {c : Config} {s s' : State n}

/-- The delete thread subtracts no more. -/
def Deleter.Gone (d : Deleter) : Prop := d.pc = .finished ∨ d.pc = .dead

def State.Pausing (s : State n) : Prop := ∃ i rounds, s.writer i = .pause rounds

/-- A writer waits for rows to be subtracted. -/
def Waits (c : Config) (s : State n) : Prop :=
  c.writerDeleteAt < s.globalEstimatedRows ∧ s.Pausing

structure Hangs (c : Config) (s : State n) : Prop where
  allDone : s.allDone = true
  gone : s.deleter.Gone
  waits : Waits c s

namespace Shutdown

/-- The delete thread leaves its loop with the next step, or dies. -/
def Leaving (c : Config) (s : State n) : Prop :=
  s.deleter.pc = .loop ∨ ∃ thisEstimatedRows, s.deleter.pc = .dropLoop thisEstimatedRows ∧
    c.deleteAtRows < thisEstimatedRows ∧
      findKey Prod.fst s.deleter.dropPartitionNumber s.deleter.mapPartitions = none

/-- What a writer must not do when the delete thread is gone: start to wait, or take the rows over
the threshold while another waits. -/
def Behaves (c : Config) (s : State n) : WriterPc → Prop
  | .readRows _ => s.globalEstimatedRows ≤ c.writerDeleteAt
  | .countRows _ => s.Pausing → s.globalEstimatedRows + c.documentsPerInsert ≤ c.writerDeleteAt
  | _ => True

/-- The steps that go well: the delete thread does not leave while a writer waits, nor is the end
reached while one waits and the delete thread is dead; and with the thread gone and the end reached
no writer makes one wait. -/
def Fine (c : Config) (e : Event n) (s : State n) : Prop :=
  match e with
  | .start _ => True
  | .writer i _ =>
    (s.writer i = .last → s.deleter.pc = .dead → ¬ Waits c s) ∧
      (s.allDone = true → s.deleter.Gone → Behaves c s (s.writer i))
  | .delete _ => s.allDone = true → Leaving c s → ¬ Waits c s
  | .timeUp => s.deleter.pc = .dead → ¬ Waits c s

structure Inv (c : Config) (s : State n) : Prop where
  runs : ¬ Hangs c s
  finished : s.deleter.pc = .finished → s.allDone = true

theorem inv_start (c : Config) : Inv c (start c n) where
  runs h := nomatch h.allDone
  finished h := nomatch h

/-- A writer that does not wait where it gets to was not the one that waited. -/
theorem pausing_of_at {i : Fin n} {pc : WriterPc} (hpc : ∀ rounds, pc ≠ .pause rounds)
    (h : (s.at i pc).Pausing) : s.Pausing := by
  obtain ⟨j, rounds, hj⟩ := h
  by_cases hji : j = i
  · subst hji
    simp only [State.at, Function.update_self] at hj
    exact absurd hj (hpc rounds)
  · simp only [State.at, Function.update_of_ne hji] at hj
    exact ⟨j, rounds, hj⟩

theorem nextRound_ne (rounds rounds' : Nat) : nextRound rounds ≠ .pause rounds' := by
  cases rounds <;> nofun

/-- A writer moves on, and there is no more to wait for than before. -/
theorem not_hangs_at (h : ¬ Hangs c s) {i : Fin n} {pc : WriterPc}
    (hpc : ∀ rounds, pc ≠ .pause rounds) (hdone : s'.allDone = s.allDone)
    (hdeleter : s'.deleter = s.deleter) (hrows : s'.globalEstimatedRows = s.globalEstimatedRows)
    (hwriter : s'.writer = s.writer) : ¬ Hangs c (s'.at i pc) := by
  intro hhangs
  obtain ⟨hdone', hgone, hover, hpausing⟩ := hhangs
  obtain ⟨j, rounds, hj⟩ := pausing_of_at hpc hpausing
  rw [hwriter] at hj
  refine h ⟨hdone ▸ hdone', ?_, ?_, j, rounds, hj⟩
  · rw [← hdeleter]
    exact hgone
  · rw [← hrows]
    exact hover

/-- A writer at the head of the loop that waits. -/
theorem not_hangs_waitOn {i : Fin n} {rounds : Nat}
    (hmay : s.allDone = true → s.deleter.Gone → s.globalEstimatedRows ≤ c.writerDeleteAt) :
    ¬ Hangs c (s.at i (waitOn c s.globalEstimatedRows rounds)) := by
  intro hhangs
  have hle := hmay hhangs.allDone hhangs.gone
  exact absurd hhangs.waits.1 (not_lt.mpr hle)

theorem Inv.writer (h : Inv c s) {i : Fin n} {throws : Bool} (hfine : Fine c (.writer i throws) s)
    (hstep : stepWriter c i throws s = some s') : ¬ Hangs c s' := by
  obtain ⟨hlast, hbehaves⟩ := hfine
  unfold stepWriter at hstep
  cases hpc : s.writer i with
  | waiting | stopped => simp [hpc] at hstep
  | readRows rounds =>
    simp only [hpc, Option.some.injEq] at hstep
    subst hstep
    rw [hpc] at hbehaves
    exact not_hangs_waitOn hbehaves
  | pause rounds =>
    simp only [hpc, Option.some.injEq] at hstep
    subst hstep
    refine not_hangs_waitOn fun hdone hgone => ?_
    -- it waits already
    by_contra hover
    exact h.runs ⟨hdone, hgone, not_le.mp hover, i, rounds, hpc⟩
  | takeId | countInserts =>
    simp only [hpc, Option.some.injEq] at hstep
    subst hstep
    exact not_hangs_at h.runs nofun rfl rfl rfl rfl
  | insert rounds thisId =>
    simp only [hpc] at hstep
    split at hstep <;> cases hstep <;> exact not_hangs_at h.runs nofun rfl rfl rfl rfl
  | countRows rounds =>
    simp only [hpc, Option.some.injEq] at hstep
    subst hstep
    intro hhangs
    have hpausing := pausing_of_at (by nofun) hhangs.waits.2
    rw [hpc] at hbehaves
    have hle := hbehaves hhangs.allDone hhangs.gone hpausing
    exact absurd hhangs.waits.1 (not_lt.mpr hle)
  | check rounds =>
    simp only [hpc, Option.some.injEq] at hstep
    subst hstep
    split
    · exact not_hangs_at h.runs nofun rfl rfl rfl rfl
    · exact not_hangs_at h.runs (nextRound_ne rounds) rfl rfl rfl rfl
  | exit =>
    simp only [hpc, Option.some.injEq] at hstep
    subst hstep
    split <;> exact not_hangs_at h.runs nofun rfl rfl rfl rfl
  | last =>
    simp only [hpc, Option.some.injEq] at hstep
    subst hstep
    intro hhangs
    have hwaits : Waits c s := ⟨hhangs.waits.1, pausing_of_at (by nofun) hhangs.waits.2⟩
    rcases hhangs.gone with hfinished | hdead
    · exact h.runs ⟨h.finished hfinished, hhangs.gone, hwaits⟩
    · exact hlast hpc hdead hwaits

/-- A step of the delete thread after which it is there still. -/
theorem inv_of_pc (hfinished : s'.deleter.pc ≠ .finished) (hdead : s'.deleter.pc ≠ .dead) :
    Inv c s' where
  runs hhangs := hhangs.gone.elim hfinished hdead
  finished hpc := absurd hpc hfinished

theorem inv_delete {throws : Bool} (hfine : Fine c (.delete throws) s)
    (hstep : stepDelete c throws s = some s') : Inv c s' := by
  unfold stepDelete at hstep
  cases hpc : s.deleter.pc with
  | loop =>
    simp only [hpc, Option.some.injEq] at hstep
    subst hstep
    split
    case isTrue hdone =>
      exact ⟨fun hhangs => hfine hdone (.inl hpc) hhangs.waits, fun _ => hdone⟩
    case isFalse => exact inv_of_pc (by simp) (by simp)
  | readRows =>
    simp only [hpc] at hstep
    split at hstep <;> cases hstep
    · exact inv_of_pc (by simp) (by simp)
    · split
      · exact inv_of_pc (by simp) (by simp)
      · exact inv_of_pc (by simp) (by simp)
  | remove =>
    simp only [hpc] at hstep
    split at hstep <;> cases hstep <;> exact inv_of_pc (by simp) (by simp)
  | subtractRemoved | addPartition | subtractDropped =>
    simp only [hpc, Option.some.injEq] at hstep
    subst hstep
    exact inv_of_pc (by simp) (by simp)
  | readInserts =>
    simp only [hpc, Option.some.injEq] at hstep
    subst hstep
    split
    · exact inv_of_pc (by simp) (by simp)
    · exact inv_of_pc (by simp) (by simp)
  | dropLoop thisEstimatedRows =>
    simp only [hpc] at hstep
    split at hstep
    case isFalse =>
      cases hstep
      exact inv_of_pc (by simp) (by simp)
    case isTrue hover =>
      split at hstep
      case h_1 hnone =>
        cases hstep
        refine ⟨fun hhangs => ?_, by simp⟩
        exact hfine hhangs.allDone (.inr ⟨_, hpc, hover, hnone⟩) hhangs.waits
      case h_2 =>
        cases hstep
        exact inv_of_pc (by simp) (by simp)
  | finished | dead => simp [hpc] at hstep

/-- A writer does not make the delete thread finish, and does not take `allDone` back. -/
theorem stepWriter_allDone {i : Fin n} {throws : Bool} (hstep : stepWriter c i throws s = some s')
    (hdone : s.allDone = true) : s'.allDone = true := by
  unfold stepWriter at hstep
  cases hpc : s.writer i with
  | waiting | stopped => simp [hpc] at hstep
  | last =>
    simp only [hpc, Option.some.injEq] at hstep
    subst hstep
    rfl
  | insert =>
    simp only [hpc] at hstep
    split at hstep <;> cases hstep <;> exact hdone
  | readRows | pause | takeId | countInserts | countRows | check | exit =>
    simp only [hpc, Option.some.injEq] at hstep
    subst hstep
    exact hdone

theorem Inv.step {e : Event n} (h : Inv c s) (hfine : Fine c e s) (hstep : step c e s = some s') :
    Inv c s' := by
  cases e with
  | start i =>
    simp only [MongoIibench.step] at hstep
    split at hstep <;> cases hstep
    exact ⟨not_hangs_at h.runs (nextRound_ne _) rfl rfl rfl rfl, h.finished⟩
  | writer i throws =>
    refine ⟨h.writer hfine hstep, fun hfinished => ?_⟩
    rw [stepWriter_deleter hstep] at hfinished
    exact stepWriter_allDone hstep (h.finished hfinished)
  | delete throws => exact inv_delete hfine hstep
  | timeUp =>
    cases hstep
    refine ⟨fun hhangs => ?_, fun _ => rfl⟩
    rcases hhangs.gone with hfinished | hdead
    · exact h.runs ⟨h.finished hfinished, hhangs.gone, hhangs.waits⟩
    · exact hfine hdead hhangs.waits

/-- A writer that waits, waits still when another moves. -/
theorem pausing_at {i : Fin n} {pc : WriterPc} (hpc : ∀ rounds, s.writer i ≠ .pause rounds)
    (hwriter : s'.writer = s.writer) (h : s.Pausing) : (s'.at i pc).Pausing := by
  obtain ⟨j, rounds, hj⟩ := h
  have hji : j ≠ i := by
    intro he
    rw [he] at hj
    exact hpc rounds hj
  refine ⟨j, rounds, ?_⟩
  simp only [State.at, hwriter, Function.update_of_ne hji]
  exact hj

/-- A writer that does not behave leaves one waiting. -/
theorem break_writer {i : Fin n} {throws : Bool} (hdone : s.allDone = true) (hgone : s.deleter.Gone)
    (hbad : ¬ Behaves c s (s.writer i)) : ∃ s', stepWriter c i throws s = some s' ∧ Hangs c s' := by
  cases hpc : s.writer i with
  | readRows rounds =>
    rw [hpc] at hbad
    have hover : c.writerDeleteAt < s.globalEstimatedRows := not_le.mp hbad
    refine ⟨s.at i (.pause rounds), ?_, hdone, hgone, hover, i, rounds, ?_⟩
    · simp [stepWriter, hpc, waitOn, hover]
    · simp [State.at]
  | countRows rounds =>
    rw [hpc, Behaves, Classical.not_imp, not_le] at hbad
    refine ⟨_, by simp only [stepWriter, hpc]; rfl, ?_⟩
    exact ⟨hdone, hgone, hbad.2, pausing_at (by rw [hpc]; nofun) rfl hbad.1⟩
  | waiting | pause | takeId | insert | countInserts | check | exit | last | stopped =>
    rw [hpc] at hbad
    exact absurd trivial hbad

/-- The other steps leave a writer waiting. -/
theorem break_ {e : Event n} (hbad : ¬ Fine c e s) :
    ∃ s', MongoIibench.step c e s = some s' ∧ Hangs c s' := by
  cases e with
  | start => exact absurd trivial hbad
  | writer i throws =>
    by_cases hlast : s.writer i = .last → s.deleter.pc = .dead → ¬ Waits c s
    · have hrest : ¬ (s.allDone = true → s.deleter.Gone → Behaves c s (s.writer i)) :=
        fun h => hbad ⟨hlast, h⟩
      simp only [Classical.not_imp] at hrest
      obtain ⟨hdone, hgone, hbehaves⟩ := hrest
      exact break_writer hdone hgone hbehaves
    · simp only [Classical.not_imp, not_not] at hlast
      obtain ⟨hpc, hdead, hover, hpausing⟩ := hlast
      refine ⟨_, by simp only [MongoIibench.step, stepWriter, hpc]; rfl, ?_⟩
      exact ⟨rfl, .inr hdead, hover, pausing_at (by rw [hpc]; nofun) rfl hpausing⟩
  | delete throws =>
    simp only [Fine, Classical.not_imp, not_not] at hbad
    obtain ⟨hdone, hleaving, hwaits⟩ := hbad
    rcases hleaving with hpc | ⟨thisEstimatedRows, hpc, hover, hnone⟩
    · refine ⟨s.delete .finished, ?_, hdone, .inl rfl, hwaits⟩
      simp [MongoIibench.step, stepDelete, hpc, hdone]
    · refine ⟨s.delete .dead, ?_, hdone, .inr rfl, hwaits⟩
      simp [MongoIibench.step, stepDelete, hpc, hover, hnone]
  | timeUp =>
    simp only [Fine, Classical.not_imp, not_not] at hbad
    obtain ⟨hdead, hwaits⟩ := hbad
    exact ⟨{ s with allDone := true }, rfl, rfl, .inr hdead, hwaits⟩

/-! ## For good -/

theorem Hangs.writer (h : Hangs c s) {i : Fin n} {throws : Bool}
    (hstep : stepWriter c i throws s = some s') : Hangs c s' := by
  have hdeleter := stepWriter_deleter hstep
  have hdone := stepWriter_allDone hstep h.allDone
  obtain ⟨-, hgone, hover, hpausing⟩ := h
  rw [← hdeleter] at hgone
  refine ⟨hdone, hgone, ?_⟩
  unfold stepWriter at hstep
  cases hpc : s.writer i with
  | waiting | stopped => simp [hpc] at hstep
  | pause rounds =>
    simp only [hpc, Option.some.injEq] at hstep
    subst hstep
    refine ⟨hover, i, rounds, ?_⟩
    simp [State.at, waitOn, hover]
  | insert rounds thisId =>
    simp only [hpc] at hstep
    split at hstep <;> cases hstep <;> exact ⟨hover, pausing_at (by rw [hpc]; nofun) rfl hpausing⟩
  | countRows rounds =>
    simp only [hpc, Option.some.injEq] at hstep
    subst hstep
    refine ⟨?_, pausing_at (by rw [hpc]; nofun) rfl hpausing⟩
    simp only [State.at]
    omega
  | readRows | takeId | countInserts | check | exit | last =>
    simp only [hpc, Option.some.injEq] at hstep
    subst hstep
    exact ⟨hover, pausing_at (by rw [hpc]; nofun) rfl hpausing⟩

theorem Hangs.step {e : Event n} (h : Hangs c s) (hstep : step c e s = some s') : Hangs c s' := by
  cases e with
  | start i =>
    simp only [MongoIibench.step] at hstep
    split at hstep
    case isFalse => cases hstep
    case isTrue hpc =>
      cases hstep
      exact ⟨h.allDone, h.gone, h.waits.1, pausing_at (by rw [hpc]; nofun) rfl h.waits.2⟩
  | writer i throws => exact Hangs.writer h hstep
  | delete throws =>
    simp only [MongoIibench.step, stepDelete] at hstep
    rcases h.gone with hpc | hpc <;> simp [hpc] at hstep
  | timeUp =>
    cases hstep
    exact ⟨rfl, h.gone, h.waits⟩

end Shutdown

/-- A writer that is left waiting waits in every state from there on. -/
theorem hangs_forever {es : List (Event n)} (h : Hangs c s) (hrun : run (step c) es s = some s') :
    Hangs c s' :=
  run_invariant Shutdown.Hangs.step h hrun

/-- **No writer is left waiting, all along a run, exactly when its steps go well.** -/
theorem not_hangs_iff (c : Config) (es : List (Event n)) :
    AllAlong c (fun s => ¬ Hangs c s) es ↔ AllSteps (step c) (Shutdown.Fine c) es (start c n) :=
  prefixes_iff (W := fun _ => True) (J := Shutdown.Inv c) Shutdown.Inv.runs (fun h _ => h.step)
    (fun _ _ hbad => (Shutdown.break_ hbad).imp fun _ h => ⟨h.1, not_not.mpr h.2⟩)
    (Shutdown.inv_start c) fun _ _ => trivial

/-- The time is up when the writer has begun to wait and the delete thread is at the head of its
loop. -/
theorem hangs_timeUp : ¬ AllAlong ⟨2, 1, false, 1, 0, 100, 0⟩
    (fun s : State 1 => ¬ Hangs ⟨2, 1, false, 1, 0, 100, 0⟩ s)
    (.start 0 :: List.replicate 7 (.writer 0 false) ++ [.timeUp, .delete false]) := by
  intro h
  exact h _ _ List.prefix_rfl rfl ⟨by decide, .inl (by decide), by decide, 0, 0, by decide⟩

end TokuQa.MongoIibench
