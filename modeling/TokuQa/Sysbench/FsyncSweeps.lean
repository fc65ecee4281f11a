import TokuQa.Sysbench.FileIo

/-!
# The fsync requests of the fileio test

With writes, the requests of a run contain sweeps: an fsync on each file, in order, with nothing
in between. The counter of requests does not move during a sweep, so a sweep that has begun goes
on; the flag is cleared by its last fsync, so it is not repeated before the next write. From a
write on, the next multiple of file-fsync-freq is the end of the data requests before the next
sweep, and a counter that wraps around only comes to one sooner.

What the sweeps do depends on four of the variables, and on where the data is not at all
(`SweepStep`). Each of the three parts of the protocol is an invariant of its steps.
-/

set_option autoImplicit false

namespace TokuQa.Sysbench.FileIo

open TokuQa.Lib

/-- An fsync on each of so many files in order, from one on. -/
def fsyncs (fileId count : Nat) : List Request :=
  (List.range' fileId count).map fun i => .file (fsyncRequest i)

theorem fsyncs_succ (fileId count : Nat) :
    fsyncs fileId (count + 1) = fsyncs fileId count ++ [.file (fsyncRequest (fileId + count))] := by
  rw [fsyncs, List.range'_concat, List.map_append, Nat.one_mul]
  rfl

theorem fsyncs_cons (fileId count : Nat) :
    fsyncs fileId (count + 1) = .file (fsyncRequest fileId) :: fsyncs (fileId + 1) count := by
  rw [fsyncs, List.range'_succ]
  rfl

theorem null_notMem_fsyncs (fileId count : Nat) : .null ∉ fsyncs fileId count := by
  intro h
  obtain ⟨i, -, hi⟩ := List.mem_map.mp h
  cases hi

/-- One step, as far as the sweeps are concerned. -/
inductive SweepStep (c : Config) (g : Globals) (s : State) : List Request → State → Prop where
  | executed {s' : State} (file : s'.fsyncedFile = s.fsyncedFile)
      (file2 : s'.fsyncedFile2 = s.fsyncedFile2) (dirty : s'.isDirty = s.isDirty)
      (performed : s'.reqPerformed = s.reqPerformed) : SweepStep c g s [] s'
  | null (done : s.Done g) (last : c.fileFsyncEnd = true → c.numFiles ≤ s.fsyncedFile2) :
      SweepStep c g s [.null] s
  | final (done : s.Done g) (last : s.fsyncedFile2 < c.numFiles) :
      SweepStep c g s [.file (fsyncRequest s.fsyncedFile2)]
        { s with fsyncedFile2 := s.fsyncedFile2 + 1 }
  | periodic (done : ¬ s.Done g) (due : s.Due c) :
      SweepStep c g s [.file (fsyncRequest s.fsyncedFile)] (s.fsynced c)
  | data {fileReq : FileRequest} {s' : State} (done : ¬ s.Done g) (due : ¬ s.Due c)
      (operation : fileReq.operation ≠ .fsync) (file : s'.fsyncedFile = s.fsyncedFile)
      (file2 : s'.fsyncedFile2 = s.fsyncedFile2)
      (dirty : s'.isDirty = (s.isDirty || fileReq.operation == .write))
      (performed : s'.reqPerformed = (s.reqPerformed + 1) % 2 ^ 32) :
      SweepStep c g s [.file fileReq] s'

variable {c : Config} {g : Globals} {s s' : State}

/-- **The steps of a test with writes are steps of the sweeps.** -/
theorem sweepStep_of_given (hwrites : c.Writes) {randnum : Nat} {req : Request}
    (h : Given c g randnum s req s') : SweepStep c g s [req] s' := by
  cases h with
  | null done last => exact .null done fun hend => last hend hwrites
  | final done _ _ last => exact .final done last
  | periodic done due => exact .periodic done due
  | seq done sequential due data =>
    obtain ⟨hop, hfile, hfile2, hdirty, hperformed⟩ := seqData_frame data
    refine .data done (due hwrites) ?_ hfile hfile2 ?_ hperformed
    · rw [hop]
      exact seqOperation_ne_fsync c
    · rw [hdirty, hop]
      rfl
  | rnd done random due data =>
    obtain ⟨-, rfl⟩ := rndData_eq_some.mp data
    exact .data done due (rndOperation_ne_fsync c s) rfl rfl rfl rfl

theorem sweepStep_of_step (hwrites : c.Writes) {e : Event} {out : List Request}
    (h : step c g e s = some (out, s')) : SweepStep c g s out s' := by
  cases e with
  | executed operation =>
    cases h
    cases operation <;> exact .executed rfl rfl rfl rfl
  | request randnum =>
    obtain ⟨⟨req, s₁⟩, hget, heq⟩ := Option.map_eq_some_iff.mp h
    cases heq
    exact sweepStep_of_given hwrites (given_of_fileGetRequest hget)

/-! ## The protocol -/

/-- A periodic fsync stands in a sweep: the ones on the files before it are right before it,
and behind it come the ones on the other files, as far as the run goes. -/
def PeriodicSweeps (c : Config) (g : Globals) : Prop :=
  ∀ events reqs s, requests c g events initVars = some (reqs, s) →
    ∀ randnum fileReq s', fileGetRequest c g randnum s = some (.file fileReq, s') →
      fileReq.operation = .fsync → ¬ s.Done g →
      (fileReq = fsyncRequest fileReq.fileId ∧ fileReq.fileId < c.numFiles) ∧
      (∃ earlier, reqs = earlier ++ fsyncs 0 fileReq.fileId) ∧
      ∀ events' reqs' s'', requests c g events' s' = some (reqs', s'') →
        let others := fsyncs (fileReq.fileId + 1) (c.numFiles - (fileReq.fileId + 1))
        reqs' <+: others ∨ others <+: reqs'

/-- From a write on, there are at most file-fsync-freq data requests before a sweep is complete. -/
def SweepsInTime (c : Config) (g : Globals) : Prop :=
  0 < c.fileFsyncFreq →
  ∀ events reqs s, requests c g events initVars = some (reqs, s) →
    ∀ randnum fileReq s', fileGetRequest c g randnum s = some (.file fileReq, s') →
      fileReq.operation = .write →
      ∀ events' reqs' s'', requests c g events' s' = some (reqs', s'') →
        ¬ fsyncs 0 c.numFiles <:+: reqs' → (dataRequests reqs').length ≤ c.fileFsyncFreq

/-- With file-fsync-end and a limit, nothing is between the last data request and the first null
request but one fsync on each file, and nothing is behind it but null requests. -/
def FinalSweep (c : Config) (g : Globals) : Prop :=
  c.fileFsyncEnd = true → 0 < g.maxRequests →
  ∀ events reqs s, requests c g events initVars = some (reqs, s) → .null ∈ reqs →
    ∃ earlier fileReq count,
      reqs = earlier ++ .file fileReq :: (fsyncs 0 c.numFiles ++ List.replicate count .null) ∧
      .null ∉ earlier ∧ fileReq.operation ≠ .fsync

/-! ## A sweep that has begun -/

/-- What the requests so far say about the periodic sweep. -/
structure InSweep (c : Config) (g : Globals) (before : List Request) (s : State) : Prop where
  file_lt : s.fsyncedFile < c.numFiles
  begun : 0 < s.fsyncedFile → s.Due c ∧ ¬ s.Done g
  swept : ∃ earlier, before = earlier ++ fsyncs 0 s.fsyncedFile

/-- Between two sweeps. -/
theorem inSweep_of_zero (before : List Request) (h : s.fsyncedFile = 0) :
    InSweep c g before s := by
  have hpos := c.numFiles_pos
  refine ⟨by omega, fun hlt => by omega, before, ?_⟩
  rw [h]
  exact (List.append_nil before).symm

theorem due_congr (hdirty : s'.isDirty = s.isDirty) (hperformed : s'.reqPerformed = s.reqPerformed) :
    s'.Due c ↔ s.Due c := by
  unfold State.Due
  rw [hdirty, hperformed]

theorem done_congr (hperformed : s'.reqPerformed = s.reqPerformed) : s'.Done g ↔ s.Done g := by
  unfold State.Done
  rw [hperformed]

theorem InSweep.keep {before out : List Request} (h : InSweep c g before s)
    (hstep : SweepStep c g s out s') : InSweep c g (before ++ out) s' := by
  obtain ⟨hlt, hbegun, earlier, rfl⟩ := h
  -- no request but the next fsync is given out before the sweep is complete
  have hnone : (¬ s.Due c ∨ s.Done g) → s.fsyncedFile = 0 := by
    intro h
    by_contra hpos
    obtain ⟨hdue, hdone⟩ := hbegun (Nat.pos_of_ne_zero hpos)
    exact h.elim (absurd hdue) (absurd · hdone)
  cases hstep with
  | executed file file2 dirty performed =>
    rw [← file] at hlt
    refine ⟨hlt, fun hpos => ?_, earlier, ?_⟩
    · rw [file] at hpos
      exact ⟨(due_congr dirty performed).mpr (hbegun hpos).1,
        fun hdone => (hbegun hpos).2 ((done_congr performed).mp hdone)⟩
    · rw [file, List.append_nil]
  | null done last => exact inSweep_of_zero _ (hnone (.inr done))
  | final done last => exact inSweep_of_zero _ (hnone (.inr done))
  | periodic done due =>
    unfold State.fsynced
    split
    · exact inSweep_of_zero _ rfl
    · refine ⟨by dsimp only; omega, fun _ => ⟨due, done⟩, earlier, ?_⟩
      dsimp only
      rw [fsyncs_succ, Nat.zero_add, List.append_assoc]
  | data done due operation file file2 dirty performed =>
    exact inSweep_of_zero _ (file.trans (hnone (.inl due)))

theorem inSweep_of_requests (hwrites : c.Writes) {events : List Event} {reqs : List Request}
    (h : requests c g events initVars = some (reqs, s)) : InSweep c g reqs s :=
  emits_keeps (I := InSweep c g) (fun hI hstep => hI.keep (sweepStep_of_step hwrites hstep))
    (inSweep_of_zero [] rfl) h

/-- **A sweep that has begun goes on** to its end before anything else. -/
theorem sweep_goes_on (hwrites : c.Writes) (hlt : s.fsyncedFile < c.numFiles) (hdue : s.Due c)
    (hdone : ¬ s.Done g) {events : List Event} {reqs : List Request}
    (h : requests c g events s = some (reqs, s')) :
    reqs <+: fsyncs s.fsyncedFile (c.numFiles - s.fsyncedFile) ∨
      fsyncs s.fsyncedFile (c.numFiles - s.fsyncedFile) <+: reqs := by
  induction events generalizing s reqs with
  | nil =>
    cases h
    exact .inl List.nil_prefix
  | cons e events ih =>
    obtain ⟨out, s₁, rest, hstep, hrest, rfl⟩ := emits_cons_eq_some.mp h
    cases sweepStep_of_step hwrites hstep with
    | executed file file2 dirty performed =>
      rw [← file] at hlt ⊢
      exact ih hlt ((due_congr dirty performed).mpr hdue)
        (fun h => hdone ((done_congr performed).mp h)) hrest
    | null done last => exact absurd done hdone
    | final done last => exact absurd done hdone
    | data done due => exact absurd hdue due
    | periodic done due =>
      have hcons : fsyncs s.fsyncedFile (c.numFiles - s.fsyncedFile) =
          .file (fsyncRequest s.fsyncedFile) ::
            fsyncs (s.fsyncedFile + 1) (c.numFiles - (s.fsyncedFile + 1)) := by
        rw [← fsyncs_cons]
        congr 1
        omega
      rw [hcons, List.singleton_append, List.cons_prefix_cons, List.cons_prefix_cons]
      simp only [true_and]
      by_cases hlast : s.fsyncedFile + 1 = c.numFiles
      · rw [hlast, Nat.sub_self]
        exact .inr List.nil_prefix
      · have hnext : s.fsynced c = { s with fsyncedFile := s.fsyncedFile + 1 } := if_neg hlast
        rw [hnext] at hrest
        exact ih (s := { s with fsyncedFile := s.fsyncedFile + 1 }) (by dsimp only; omega) hdue
          hdone hrest

theorem periodicSweeps (hwrites : c.Writes) (g : Globals) : PeriodicSweeps c g := by
  intro events reqs s hrun randnum fileReq s' hget hop hdone
  obtain ⟨hlt, -, hswept⟩ := inSweep_of_requests hwrites hrun
  cases sweepStep_of_given hwrites (given_of_fileGetRequest hget) with
  | final done => exact absurd done hdone
  | data _ _ operation => exact absurd hop operation
  | periodic done due =>
    refine ⟨⟨rfl, hlt⟩, hswept, fun events' reqs' s'' hrun' => ?_⟩
    by_cases hlast : s.fsyncedFile + 1 = c.numFiles
    · refine .inr ?_
      change fsyncs (s.fsyncedFile + 1) (c.numFiles - (s.fsyncedFile + 1)) <+: reqs'
      rw [hlast, Nat.sub_self]
      exact List.nil_prefix
    · have hnext : s.fsynced c = { s with fsyncedFile := s.fsyncedFile + 1 } := if_neg hlast
      rw [hnext] at hrun'
      exact sweep_goes_on hwrites (s := { s with fsyncedFile := s.fsyncedFile + 1 })
        (by dsimp only; omega) due hdone hrun'

/-! ## From a write to the next sweep -/

/-- The data requests that are left until it is time to fsync. -/
def distance (c : Config) (s : State) : Nat :=
  if s.reqPerformed % c.fileFsyncFreq = 0 then 0
  else c.fileFsyncFreq - s.reqPerformed % c.fileFsyncFreq

/-- One more data request brings the sweep nearer, also where the counter wraps around. -/
theorem distance_succ (hfreq : 0 < c.fileFsyncFreq) (hlt : s.reqPerformed < 2 ^ 32)
    (hdue : s.reqPerformed % c.fileFsyncFreq ≠ 0)
    (hperformed : s'.reqPerformed = (s.reqPerformed + 1) % 2 ^ 32) :
    distance c s' + 1 ≤ distance c s := by
  have hmod := Nat.mod_lt s.reqPerformed hfreq
  have hdist : distance c s = c.fileFsyncFreq - s.reqPerformed % c.fileFsyncFreq := if_neg hdue
  rw [hdist, distance, hperformed]
  split
  · omega
  · next hnot =>
    have hnowrap : (s.reqPerformed + 1) % 2 ^ 32 = s.reqPerformed + 1 := by
      refine Nat.mod_eq_of_lt ?_
      by_contra hwrap
      rw [show s.reqPerformed + 1 = 2 ^ 32 by omega, Nat.mod_self] at hnot
      exact hnot (Nat.zero_mod _)
    have hsucc : (s.reqPerformed + 1) % c.fileFsyncFreq =
        (s.reqPerformed % c.fileFsyncFreq + 1) % c.fileFsyncFreq := (Nat.mod_add_mod _ _ _).symm
    rw [hnowrap, hsucc] at hnot ⊢
    have hless : s.reqPerformed % c.fileFsyncFreq + 1 < c.fileFsyncFreq := by
      refine lt_of_le_of_ne hmod fun hfull => hnot ?_
      rw [hfull, Nat.mod_self]
    rw [Nat.mod_eq_of_lt hless]
    omega

/-- What the requests since a write say. -/
def SinceWrite (c : Config) (g : Globals) (before : List Request) (s : State) : Prop :=
  fsyncs 0 c.numFiles <:+: before ∨
    (InSweep c g before s ∧ (s.isDirty = true ∧ s.reqPerformed < 2 ^ 32) ∧
      (dataRequests before).length + distance c s ≤ c.fileFsyncFreq)

theorem SinceWrite.keep (hfreq : 0 < c.fileFsyncFreq) {before out : List Request}
    (h : SinceWrite c g before s) (hstep : SweepStep c g s out s') :
    SinceWrite c g (before ++ out) s' := by
  obtain hcomplete | ⟨hin, ⟨hdirty, hlt⟩, hcount⟩ := h
  · exact .inl (hcomplete.trans (List.prefix_append _ _).isInfix)
  have hin' := hin.keep hstep
  cases hstep with
  | executed file file2 dirty performed =>
    refine .inr ⟨hin', ⟨dirty.trans hdirty, performed ▸ hlt⟩, ?_⟩
    rw [List.append_nil, distance, performed]
    exact hcount
  | null done last =>
    refine .inr ⟨hin', ⟨hdirty, hlt⟩, ?_⟩
    simpa using hcount
  | final done last =>
    refine .inr ⟨hin', ⟨hdirty, hlt⟩, ?_⟩
    simpa [distance] using hcount
  | periodic done due =>
    by_cases hlast : s.fsyncedFile + 1 = c.numFiles
    · obtain ⟨earlier, rfl⟩ := hin.swept
      refine .inl ⟨earlier, [], ?_⟩
      rw [← hlast, fsyncs_succ, Nat.zero_add]
      simp
    · have hnext : s.fsynced c = { s with fsyncedFile := s.fsyncedFile + 1 } := if_neg hlast
      refine .inr ⟨hin', by rw [hnext]; exact ⟨hdirty, hlt⟩, ?_⟩
      rw [hnext]
      simpa [distance] using hcount
  | data done due operation file file2 dirty performed =>
    have hlt' : s'.reqPerformed < 2 ^ 32 := performed ▸ Nat.mod_lt _ (Nat.two_pow_pos 32)
    refine .inr ⟨hin', ⟨by rw [dirty, hdirty, Bool.true_or], hlt'⟩, ?_⟩
    have hnear := distance_succ hfreq hlt (fun hzero => due ⟨hfreq.ne', hdirty, hzero⟩) performed
    simp only [dataRequests_append, dataRequests_cons, data_file operation, dataRequests_nil,
      Option.toList_some, List.append_nil, List.length_append, List.length_singleton]
    omega

theorem sweepsInTime (hwrites : c.Writes) (g : Globals) : SweepsInTime c g := by
  intro hfreq events reqs s hrun randnum fileReq s₁ hget hop events' reqs' s' hrun' hnone
  have hin := inSweep_of_requests hwrites hrun
  have hstart : SinceWrite c g [] s₁ := by
    cases sweepStep_of_given hwrites (given_of_fileGetRequest hget) with
    | final => cases hop
    | periodic => cases hop
    | data done due operation file file2 dirty performed =>
      have hzero : s.fsyncedFile = 0 := by
        by_contra hpos
        exact due (hin.begun (Nat.pos_of_ne_zero hpos)).1
      refine .inr ⟨inSweep_of_zero [] (file.trans hzero), ⟨?_, ?_⟩, ?_⟩
      · rw [dirty, hop]
        exact Bool.or_true _
      · exact performed ▸ Nat.mod_lt _ (Nat.two_pow_pos 32)
      · rw [distance]
        split <;> simp
  have hend := emits_keeps (I := SinceWrite c g)
    (fun hI hstep => hI.keep hfreq (sweepStep_of_step hwrites hstep)) hstart hrun'
  obtain hcomplete | ⟨-, -, hcount⟩ := hend
  · exact absurd hcomplete hnone
  · exact le_trans (Nat.le_add_right _ _) hcount

/-! ## The final sweep -/

/-- What the requests say about the end of the test. -/
def AtEnd (c : Config) (g : Globals) (before : List Request) (s : State) : Prop :=
  (¬ s.Done g ∧ .null ∉ before ∧ s.fsyncedFile2 = 0) ∨
    (s.Done g ∧ s.fsyncedFile2 ≤ c.numFiles ∧ ∃ earlier fileReq count,
      before = earlier ++
        .file fileReq :: (fsyncs 0 s.fsyncedFile2 ++ List.replicate count .null) ∧
      .null ∉ earlier ∧ fileReq.operation ≠ .fsync ∧
      (0 < count → s.fsyncedFile2 = c.numFiles))

theorem AtEnd.keep (hend : c.fileFsyncEnd = true) {before out : List Request}
    (h : AtEnd c g before s) (hstep : SweepStep c g s out s') : AtEnd c g (before ++ out) s' := by
  obtain ⟨hdone, hnull, hzero⟩ | ⟨hdone, hle, earlier, fileReq, count, rfl, hnull, hop, hlast⟩ := h
  · cases hstep with
    | executed file file2 dirty performed =>
      refine .inl ⟨fun h => hdone ((done_congr performed).mp h), ?_, file2.trans hzero⟩
      rw [List.append_nil]
      exact hnull
    | null done => exact absurd done hdone
    | final done => exact absurd done hdone
    | periodic done due =>
      refine .inl ⟨?_, by simpa using hnull, ?_⟩
      · unfold State.fsynced
        split <;> exact hdone
      · unfold State.fsynced
        split <;> exact hzero
    | data done due operation file file2 dirty performed =>
      by_cases hdone' : s'.Done g
      · refine .inr ⟨hdone', ?_, before, _, 0, ?_, hnull, operation, fun h => absurd h (by decide)⟩
        · rw [file2, hzero]
          exact Nat.zero_le _
        · rw [file2, hzero]
          rfl
      · exact .inl ⟨hdone', by simpa using hnull, file2.trans hzero⟩
  · cases hstep with
    | executed file file2 dirty performed =>
      rw [← file2] at hle hlast ⊢
      refine .inr ⟨(done_congr performed).mpr hdone, hle, earlier, fileReq, count, ?_, hnull, hop,
        hlast⟩
      exact List.append_nil _
    | null done last =>
      refine .inr ⟨done, hle, earlier, fileReq, count + 1, ?_, hnull, hop, fun _ =>
        le_antisymm hle (last hend)⟩
      rw [List.replicate_succ']
      simp
    | final done last =>
      have hcount : count = 0 := by
        by_contra hpos
        have := hlast (Nat.pos_of_ne_zero hpos)
        omega
      subst hcount
      refine .inr ⟨done, last, earlier, fileReq, 0, ?_, hnull, hop, fun h => absurd h (by decide)⟩
      dsimp only
      rw [fsyncs_succ, Nat.zero_add]
      simp
    | periodic done => exact absurd hdone done
    | data done => exact absurd hdone done

theorem finalSweep (hwrites : c.Writes) (g : Globals) : FinalSweep c g := by
  intro hend hmax events reqs s hrun hnull
  have hstart : AtEnd c g [] initVars :=
    .inl ⟨fun hdone => absurd hdone.2 (Nat.not_le_of_lt hmax), List.not_mem_nil, rfl⟩
  have hat := emits_keeps (I := AtEnd c g)
    (fun hI hstep => hI.keep hend (sweepStep_of_step hwrites hstep)) hstart hrun
  rw [List.nil_append] at hat
  obtain ⟨-, hnone, -⟩ | ⟨-, -, earlier, fileReq, count, rfl, hearlier, hop, hlast⟩ := hat
  · exact absurd hnull hnone
  · have hpos : 0 < count := by
      by_contra hzero
      simp [Nat.eq_zero_of_not_pos hzero, hearlier, null_notMem_fsyncs] at hnull
    exact ⟨earlier, fileReq, count, by rw [hlast hpos], hearlier, hop⟩

/-- **The fsync protocol** of a test with writes. -/
theorem fsync_protocol (c : Config) (g : Globals) (hwrites : c.Writes) :
    PeriodicSweeps c g ∧ SweepsInTime c g ∧ FinalSweep c g :=
  ⟨periodicSweeps hwrites g, sweepsInTime hwrites g, finalSweep hwrites g⟩

theorem fsync_protocol_rndRw :
    PeriodicSweeps (settings 3 16 2 0 .rndRw) ⟨5, false, by decide⟩ ∧
      SweepsInTime (settings 3 16 2 0 .rndRw) ⟨5, false, by decide⟩ ∧
      FinalSweep (settings 3 16 2 0 .rndRw) ⟨5, false, by decide⟩ :=
  fsync_protocol (settings 3 16 2 0 .rndRw) ⟨5, false, by decide⟩ (.inr (.inr (.inr rfl)))

end TokuQa.Sysbench.FileIo
