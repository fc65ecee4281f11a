import Mathlib.Algebra.Order.Ring.Int
import Mathlib.Tactic.Ring
import TokuQa.Sysbench.FileIo

/-!
# Sequential requests and the files

A sequential test should go through the files once after the other, with nothing between its
requests and nothing twice (`Tiles`). The position is compared with the size of the file for
equality only. A request with file-merged-requests set is cut at the end of the file, so the
position arrives there; without, the position steps over the end if the block size does not
divide the size of the file, and no file but the first one is ever reached.

The other way to get lost is a number that does not fit: the product of block size and
file-merged-requests is an `int`, and the request that is cut is tried in full first.
-/

set_option autoImplicit false

namespace TokuQa.Sysbench.FileIo

open TokuQa.Lib

namespace Config

variable (c : Config)

/-- The size of a request that is not cut. -/
def unit : Nat :=
  if 0 < c.fileMergedRequests then c.fileBlockSize * c.fileMergedRequests else c.fileBlockSize

/-- The sizes with which requests stay on the files. -/
def Fits : Prop :=
  (c.fileMergedRequests = 0 ∧ c.fileBlockSize ∣ c.fileSize) ∨
    (0 < c.fileMergedRequests ∧ c.fileBlockSize * c.fileMergedRequests < 2 ^ 31 ∧
      c.fileBlockSize * c.fileMergedRequests *
        ((c.fileSize - 1) / (c.fileBlockSize * c.fileMergedRequests) + 1) < 2 ^ 63)

theorem unit_pos : 0 < c.unit := by
  unfold unit
  split
  · next h => exact Nat.mul_pos c.fileBlockSize_pos h
  · exact c.fileBlockSize_pos

theorem fileSize_lt : c.fileSize < 2 ^ 63 :=
  lt_of_le_of_lt (Nat.div_le_self _ _) c.totalSize_lt

end Config

/-- The requests go on at a place, end to end: each is not empty, on the file and begins where
the one before it ended, which behind the end of a file is the start of the next one and
behind the last file the start of the first. -/
def Tiles (c : Config) : Nat → Int → List FileRequest → Prop
  | _, _, [] => True
  | file, pos, r :: rest =>
    (r.fileId = file ∧ r.pos = pos) ∧
    (r.fileId < c.numFiles ∧ 0 < r.size ∧ r.pos + r.size ≤ c.fileSize) ∧
    if pos + r.size = c.fileSize then Tiles c ((file + 1) % c.numFiles) 0 rest
    else Tiles c file (pos + r.size) rest

theorem Tiles.inside {c : Config} {file : Nat} {pos : Int} {reqs : List FileRequest}
    (h : Tiles c file pos reqs) :
    ∀ r ∈ reqs, r.fileId < c.numFiles ∧ 0 < r.size ∧ r.pos + r.size ≤ c.fileSize := by
  induction reqs generalizing file pos with
  | nil => simp
  | cons r reqs ih =>
    obtain ⟨-, hinside, hrest⟩ := h
    rintro x (_ | ⟨_, hx⟩)
    · exact hinside
    · split at hrest
      · exact ih hrest x hx
      · exact ih hrest x hx

variable {c : Config} {g : Globals}

/-! ## The size of a request -/

/-- **A request does not leave the file**: where the position is a multiple of the unit, the
size is the unit, or what is left of the file. -/
theorem seqSize_of_fits (hfits : c.Fits) {k : Nat} (hk : c.unit * k < c.fileSize) :
    ∃ size : Int, seqSize c (c.unit * k : Nat) = some size ∧ (0 < size ∧ size ≤ c.unit) ∧
      ((c.unit * k : Nat) + size = c.fileSize ∨
        (c.unit * k : Nat) + size = (c.unit * (k + 1) : Nat) ∧ c.unit * (k + 1) < c.fileSize) := by
  have hpos := c.unit_pos
  rw [Nat.mul_succ]
  obtain ⟨hmerged, hdvd⟩ | ⟨hmerged, hint, hlong⟩ := hfits
  · have hunit : c.unit = c.fileBlockSize := if_neg (by omega)
    rw [seqSize, if_neg (by omega), ← hunit]
    refine ⟨c.unit, rfl, ⟨by omega, le_rfl⟩, ?_⟩
    rw [← hunit] at hdvd
    obtain ⟨m, hm⟩ := hdvd
    rw [hm] at hk ⊢
    -- one more unit fits, as the size of the file is a multiple of it
    have hle : c.unit * (k + 1) ≤ c.unit * m :=
      Nat.mul_le_mul_left _ (Nat.lt_of_mul_lt_mul_left hk)
    rw [Nat.mul_succ] at hle
    push_cast
    omega
  · have hunit : c.unit = c.fileBlockSize * c.fileMergedRequests := if_pos hmerged
    rw [← hunit] at hint hlong
    have hmax : c.fileMaxRequestSize = some c.unit := by
      rw [Config.fileMaxRequestSize, if_pos hmerged, ← hunit, if_pos hint]
    have hlast : c.unit * k + c.unit < 2 ^ 63 := by
      have hle : k ≤ (c.fileSize - 1) / c.unit := by
        rw [Nat.le_div_iff_mul_le hpos, Nat.mul_comm]
        omega
      have hmul : c.unit * (k + 1) ≤ c.unit * ((c.fileSize - 1) / c.unit + 1) :=
        Nat.mul_le_mul_left _ (by omega)
      rw [Nat.mul_succ] at hmul
      omega
    have hsum : addLong (c.unit * k : Nat) c.unit = some ((c.unit * k : Nat) + (c.unit : Int)) :=
      addLong_eq_some.mpr ⟨by omega, rfl⟩
    rw [seqSize, if_pos hmerged]
    refine ⟨_, Option.bind_eq_some_iff.mpr ⟨_, hmax, Option.bind_eq_some_iff.mpr
      ⟨_, hsum, rfl⟩⟩, ?_⟩
    split <;> omega

/-- What has to fit for a request to have a size at all, and the size. -/
theorem size_of_seqSize {position size : Int} (h : seqSize c position = some size) :
    (0 < c.fileMergedRequests → c.fileBlockSize * c.fileMergedRequests < 2 ^ 31 ∧
      position + c.unit < 2 ^ 63) ∧
    (c.fileMergedRequests = 0 ∨ position + c.unit ≤ c.fileSize → size = c.unit) := by
  by_cases hmerged : 0 < c.fileMergedRequests
  · have hunit : c.unit = c.fileBlockSize * c.fileMergedRequests := if_pos hmerged
    rw [seqSize, if_pos hmerged] at h
    obtain ⟨maxSize, hmax, hrest⟩ := Option.bind_eq_some_iff.mp h
    rw [Config.fileMaxRequestSize, if_pos hmerged, ← hunit] at hmax
    split at hmax
    · next hint =>
      cases hmax
      obtain ⟨stop, hstop, hsize⟩ := Option.bind_eq_some_iff.mp hrest
      obtain ⟨⟨-, hlong⟩, rfl⟩ := addLong_eq_some.mp hstop
      rw [hunit] at hint
      refine ⟨fun _ => ⟨hint, hlong⟩, fun hle => ?_⟩
      have hle' : position + c.unit ≤ c.fileSize := by omega
      rw [if_pos hle'] at hsize
      exact (Option.some.inj hsize).symm
    · cases hmax
  · have hunit : c.unit = c.fileBlockSize := if_neg hmerged
    rw [seqSize, if_neg hmerged] at h
    rw [hunit]
    exact ⟨fun h => absurd h hmerged, fun _ => (Option.some.inj h).symm⟩

/-- A merged request is cut at the end of the file. -/
theorem seqSize_merged (hmerged : 0 < c.fileMergedRequests) {position size : Int}
    (h : seqSize c position = some size) :
    size = if position + c.unit ≤ c.fileSize then (c.unit : Int) else c.fileSize - position := by
  obtain ⟨hnumbers, -⟩ := size_of_seqSize h
  obtain ⟨hint, hlong⟩ := hnumbers hmerged
  have hmax : c.fileMaxRequestSize = some c.unit := by
    rw [Config.fileMaxRequestSize, if_pos hmerged, if_pos hint, Config.unit, if_pos hmerged]
  rw [seqSize, if_pos hmerged, hmax] at h
  obtain ⟨_, heq, hrest⟩ := Option.bind_eq_some_iff.mp h
  cases heq
  obtain ⟨stop, hstop, hsize⟩ := Option.bind_eq_some_iff.mp hrest
  obtain ⟨-, rfl⟩ := addLong_eq_some.mp hstop
  exact (Option.some.inj hsize).symm

/-! ## The place of the next request -/

/-- The next data request is the one behind `k` requests on a file. -/
structure On (c : Config) (file k : Nat) (s : State) : Prop where
  currentFile : (s.rewound c).currentFile = file
  position : (s.rewound c).position = (c.unit * k : Nat)
  file_lt : file < c.numFiles
  position_lt : c.unit * k < c.fileSize

theorem On.congr {file k : Nat} {s s' : State} (h : On c file k s)
    (hposition : s'.position = s.position) (hfile : s'.currentFile = s.currentFile) :
    On c file k s' := by
  have hrewound : (s'.rewound c).currentFile = (s.rewound c).currentFile ∧
      (s'.rewound c).position = (s.rewound c).position := by
    unfold State.rewound
    rw [hfile]
    split <;> simp [hposition, hfile]
  exact ⟨hrewound.1.trans h.currentFile, hrewound.2.trans h.position, h.file_lt, h.position_lt⟩

theorem on_of_lt {file k : Nat} {s : State} (hfile : s.currentFile = file)
    (hposition : s.position = (c.unit * k : Nat)) (hlt : file < c.numFiles)
    (hk : c.unit * k < c.fileSize) : On c file k s := by
  have hrewound : s.rewound c = s := if_neg (by omega)
  refine ⟨?_, ?_, hlt, hk⟩ <;> rw [hrewound]
  · exact hfile
  · exact hposition

theorem on_of_eq {s : State} (hfile : s.currentFile = c.numFiles) (hsize : 0 < c.fileSize) :
    On c 0 0 s := by
  have hrewound : s.rewound c = { s with position := 0, currentFile := 0 } := if_pos hfile
  refine ⟨?_, ?_, c.numFiles_pos, by omega⟩
  · rw [hrewound]
  · rw [hrewound]
    rfl

theorem on_initVars (hsize : 0 < c.fileSize) : On c 0 0 initVars :=
  on_of_lt rfl rfl c.numFiles_pos hsize

/-- Behind the last request on a file the next one begins, or the first one. -/
theorem on_next {file : Nat} {s : State} (hsize : 0 < c.fileSize) (hlt : file < c.numFiles)
    (hfile : s.currentFile = file + 1) (hposition : s.position = 0) :
    On c ((file + 1) % c.numFiles) 0 s := by
  by_cases hlast : file + 1 = c.numFiles
  · rw [hlast, Nat.mod_self]
    exact on_of_eq (hfile.trans hlast) hsize
  · rw [Nat.mod_eq_of_lt (by omega)]
    exact on_of_lt hfile hposition (by omega) hsize

/-- **One data request**, and the place it leaves. -/
theorem seqData_of_fits (hfits : c.Fits) (operation : FileOp) {file k : Nat} {s : State}
    (hon : On c file k s) :
    ∃ (size : Int) (s' : State),
      seqData c operation s = some (⟨file, (c.unit * k : Nat), size, operation⟩, s') ∧
      (0 < size ∧ size ≤ c.unit) ∧ (c.unit * k : Nat) + size ≤ c.fileSize ∧
      if (c.unit * k : Nat) + size = c.fileSize then On c ((file + 1) % c.numFiles) 0 s'
      else (c.unit * k : Nat) + size = (c.unit * (k + 1) : Nat) ∧ On c file (k + 1) s' := by
  have hlt := c.fileSize_lt
  obtain ⟨size, hsize, hpos, hend⟩ := seqSize_of_fits hfits hon.position_lt
  have hle : (c.unit * k : Nat) + size ≤ c.fileSize := by omega
  have hsum : addLong (c.unit * k : Nat) size = some ((c.unit * k : Nat) + size) :=
    addLong_eq_some.mpr ⟨by omega, rfl⟩
  refine ⟨size, (s.rewound c).scrolled c ((c.unit * k : Nat) + size), ?_, hpos, hle, ?_⟩
  · rw [← hon.position] at hsize hsum ⊢
    exact seqData_eq_some.mpr ⟨size, _, hsize, hsum, by rw [hon.currentFile], rfl⟩
  · unfold State.scrolled
    split
    · exact on_next (by omega) hon.file_lt (by rw [hon.currentFile]) rfl
    · next hrest =>
      obtain hend | ⟨hnext, hlt⟩ := hend
      · exact absurd hend hrest
      · exact ⟨hnext, on_of_lt hon.currentFile hnext hon.file_lt hlt⟩

/-! ## Runs -/

theorem executed_position (operation : FileOp) (s : State) :
    (s.executed operation).position = s.position ∧
      (s.executed operation).currentFile = s.currentFile := by
  cases operation <;> exact ⟨rfl, rfl⟩

/-- **One call** gives out the next data request, or leaves the place as it is. -/
theorem request_of_fits (g : Globals) (hseq : c.Sequential) (hfits : c.Fits) (randnum : Nat)
    {file k : Nat} {s : State} (hon : On c file k s) :
    ∃ req s', fileGetRequest c g randnum s = some (req, s') ∧
      ((req.data = none ∧ On c file k s') ∨ ∃ r : FileRequest, req.data = some r ∧
        (r.fileId = file ∧ r.pos = (c.unit * k : Nat)) ∧
        ((0 < r.size ∧ r.size ≤ c.unit) ∧ r.pos + r.size ≤ c.fileSize) ∧
        r.operation = seqOperation c ∧
        if (c.unit * k : Nat) + r.size = c.fileSize then On c ((file + 1) % c.numFiles) 0 s'
        else (c.unit * k : Nat) + r.size = (c.unit * (k + 1) : Nat) ∧ On c file (k + 1) s') := by
  let write := seqOperation c == .write
  rw [fileGetRequest, if_pos hseq, fileGetSeqRequest]
  obtain ⟨req, s', hfirst, hdata, hposition, hfile⟩ | ⟨-, -, hfirst⟩ :=
    fsyncFirst_cases c g write write s
  · exact ⟨req, s', hfirst _, .inl ⟨hdata, hon.congr hposition hfile⟩⟩
  · have hon' : On c file k (s.performed (seqOperation c)) := hon.congr rfl rfl
    obtain ⟨size, s', hdata, hpos, hle, hnext⟩ := seqData_of_fits hfits (seqOperation c) hon'
    refine ⟨.file ⟨file, (c.unit * k : Nat), size, seqOperation c⟩, s', ?_, .inr ?_⟩
    · rw [hfirst, hdata]
      rfl
    · exact ⟨_, data_file (seqOperation_ne_fsync c), ⟨rfl, rfl⟩, ⟨hpos, hle⟩, rfl, hnext⟩

/-- **A run goes over the files**, from a place it can be at. -/
theorem tiles_of_fits (g : Globals) (hseq : c.Sequential) (hfits : c.Fits) (events : List Event)
    {file k : Nat} {s : State} (hon : On c file k s) :
    ∃ reqs s', requests c g events s = some (reqs, s') ∧
      Tiles c file (c.unit * k : Nat) (dataRequests reqs) := by
  induction events generalizing file k s with
  | nil => exact ⟨[], s, rfl, trivial⟩
  | cons e events ih =>
    cases e with
    | executed operation =>
      obtain ⟨hposition, hfile⟩ := executed_position operation s
      obtain ⟨reqs, s', hrun, htiles⟩ := ih (hon.congr hposition hfile)
      exact ⟨reqs, s', emits_cons_eq_some.mpr ⟨[], _, reqs, rfl, hrun, rfl⟩, htiles⟩
    | request randnum =>
      obtain ⟨req, s₁, hget, hnext⟩ := request_of_fits g hseq hfits randnum hon
      have hstep : step c g (.request randnum) s = some ([req], s₁) := by
        rw [step, hget]
        rfl
      obtain ⟨hdata, hon'⟩ | ⟨r, hdata, ⟨hfile, hpos⟩, ⟨hsize, hend⟩, -, hnext⟩ := hnext
      · obtain ⟨reqs, s', hrun, htiles⟩ := ih hon'
        refine ⟨req :: reqs, s', emits_cons_eq_some.mpr ⟨_, s₁, reqs, hstep, hrun, rfl⟩, ?_⟩
        rw [dataRequests_cons, hdata]
        exact htiles
      · -- the rest tiles from where this request ends
        suffices hrest : ∃ reqs s', requests c g events s₁ = some (reqs, s') ∧
            if (c.unit * k : Nat) + r.size = c.fileSize then
              Tiles c ((file + 1) % c.numFiles) 0 (dataRequests reqs)
            else Tiles c file ((c.unit * k : Nat) + r.size) (dataRequests reqs) by
          obtain ⟨reqs, s', hrun, htiles⟩ := hrest
          refine ⟨req :: reqs, s', emits_cons_eq_some.mpr ⟨_, s₁, reqs, hstep, hrun, rfl⟩, ?_⟩
          rw [dataRequests_cons, hdata]
          exact ⟨⟨hfile, hpos⟩, ⟨hfile ▸ hon.file_lt, hsize.1, hend⟩, htiles⟩
        split at hnext
        · obtain ⟨reqs, s', hrun, htiles⟩ := ih hnext
          refine ⟨reqs, s', hrun, ?_⟩
          rw [if_pos ‹_›]
          exact htiles
        · obtain ⟨hend, hon'⟩ := hnext
          obtain ⟨reqs, s', hrun, htiles⟩ := ih hon'
          refine ⟨reqs, s', hrun, ?_⟩
          rw [if_neg ‹_›, hend]
          exact htiles

/-! ## What a run without an end finds -/

/-- States that a run without an end goes through: it does not get stuck, and without merged
requests it does not go beyond the end of a file. -/
structure GoesOn (c : Config) (g : Globals) (R : State → Prop) : Prop where
  endless : g.maxRequests = 0
  start : R initVars
  next : ∀ {s}, R s → ∃ req s' operation, fileGetRequest c g 0 s = some (req, s') ∧
    R (s'.executed operation) ∧ (c.fileMergedRequests = 0 →
      ∀ r, req.data = some r → r.pos + r.size ≤ c.fileSize)

/-- A place on the first file that is reached, with the sweep of fsyncs as it should be. -/
structure ReachedOn (c : Config) (R : State → Prop) (k : Nat) (s : State) : Prop where
  reached : R s
  on : On c 0 k s
  fsyncedFile_lt : s.fsyncedFile < c.numFiles

section

variable {R : State → Prop} {s : State}

theorem GoesOn.not_done (hgo : GoesOn c g R) (s : State) : ¬ s.Done g := fun h => by
  have hpos := h.1
  rw [hgo.endless] at hpos
  exact Nat.lt_irrefl 0 hpos

theorem reachedOn_executed {k : Nat} {operation : FileOp} (hreached : R (s.executed operation))
    (hon : On c 0 k s) (hlt : s.fsyncedFile < c.numFiles) :
    ReachedOn c R k (s.executed operation) := by
  obtain ⟨hposition, hfile⟩ := executed_position operation s
  refine ⟨hreached, hon.congr hposition hfile, ?_⟩
  cases operation <;> exact hlt

theorem executed_due {operation : FileOp} : (s.executed operation).Due c ↔ s.Due c := by
  cases operation <;> exact Iff.rfl

/-- A sweep of fsyncs comes to its end. -/
theorem GoesOn.not_due (hgo : GoesOn c g R) (hseq : c.Sequential) {k m : Nat}
    (hs : ReachedOn c R k s) (hm : c.numFiles ≤ s.fsyncedFile + m) :
    ∃ s', ReachedOn c R k s' ∧ ¬ ((seqOperation c == .write) = true ∧ s'.Due c) := by
  induction m generalizing s with
  | zero => exact absurd hs.fsyncedFile_lt (by omega)
  | succ m ih =>
    by_cases hdue : (seqOperation c == .write) = true ∧ s.Due c
    · obtain ⟨req, s', operation, hget, hreached, -⟩ := hgo.next hs.reached
      rw [fileGetRequest, if_pos hseq, fileGetSeqRequest, fsyncFirst, if_neg (hgo.not_done s),
        if_pos hdue] at hget
      cases hget
      have hlt := hs.fsyncedFile_lt
      by_cases hlast : s.fsyncedFile + 1 = c.numFiles
      · have hnext : s.fsynced c = { s with fsyncedFile := 0, isDirty := false } := if_pos hlast
        rw [hnext] at hreached
        refine ⟨_, reachedOn_executed hreached (hs.on.congr rfl rfl) c.numFiles_pos, fun h => ?_⟩
        exact Bool.noConfusion (executed_due.mp h.2).2.1
      · have hnext : s.fsynced c = { s with fsyncedFile := s.fsyncedFile + 1 } := if_neg hlast
        rw [hnext] at hreached
        refine ih (reachedOn_executed hreached (hs.on.congr rfl rfl) (by dsimp only; omega)) ?_
        cases operation <;> simp only [State.executed] <;> omega
    · exact ⟨s, hs, hdue⟩

/-- **The request at a place that is reached** has a size, and leads to where it ends. -/
theorem GoesOn.data (hgo : GoesOn c g R) (hseq : c.Sequential) {k : Nat}
    (hs : ReachedOn c R k s) :
    ∃ size : Int, seqSize c (c.unit * k : Nat) = some size ∧
      (c.fileMergedRequests = 0 → (c.unit * k : Nat) + size ≤ c.fileSize) ∧
      ((c.unit * k : Nat) + size = (c.unit * (k + 1) : Nat) → c.unit * (k + 1) < c.fileSize →
        ∃ s', ReachedOn c R (k + 1) s') := by
  obtain ⟨s₁, hs₁, hdue⟩ := hgo.not_due hseq hs (m := c.numFiles) (by omega)
  obtain ⟨req, s', operation, hget, hreached, hinside⟩ := hgo.next hs₁.reached
  rw [fileGetRequest, if_pos hseq, fileGetSeqRequest, fsyncFirst, if_neg (hgo.not_done s₁),
    if_neg hdue] at hget
  obtain ⟨⟨fileReq, s₂⟩, hdata, heq⟩ := Option.map_eq_some_iff.mp hget
  cases heq
  have hon : On c 0 k (s₁.performed (seqOperation c)) := hs₁.on.congr rfl rfl
  obtain ⟨size, position, hsize, hposition, hreq, hnext⟩ := seqData_eq_some.mp hdata
  rw [hon.position] at hsize hposition hreq
  rw [hon.currentFile] at hreq
  obtain ⟨-, hsum⟩ := addLong_eq_some.mp hposition
  refine ⟨size, hsize, fun hmerged => ?_, fun hunit hlt => ⟨_, reachedOn_executed hreached ?_ ?_⟩⟩
  · have hend := hinside hmerged _ (data_file (by rw [hreq]; exact seqOperation_ne_fsync c))
    rwa [hreq] at hend
  · rw [hnext, State.scrolled, if_neg (by omega)]
    exact on_of_lt hon.currentFile (hsum.symm.trans hunit) c.numFiles_pos hlt
  · rw [(seqData_frame hdata).2.1]
    exact hs₁.fsyncedFile_lt

/-- The places on the first file are reached one after another. -/
theorem GoesOn.reachedOn (hgo : GoesOn c g R) (hseq : c.Sequential) {k : Nat}
    (hk : c.unit * k < c.fileSize) : ∃ s, ReachedOn c R k s := by
  induction k with
  | zero => exact ⟨initVars, hgo.start, on_initVars (by omega), c.numFiles_pos⟩
  | succ k ih =>
    have hmul : c.unit * (k + 1) = c.unit * k + c.unit := Nat.mul_succ c.unit k
    obtain ⟨s, hs⟩ := ih (by omega)
    obtain ⟨size, hsize, -, hnext⟩ := hgo.data hseq hs
    have hunit : size = c.unit := (size_of_seqSize hsize).2 (.inr (by omega))
    exact hnext (by omega) hk

/-- **The sizes fit** if a run without an end goes on: the request at the last multiple of the
unit shows it. -/
theorem GoesOn.fits (hgo : GoesOn c g R) (hseq : c.Sequential) (hsize : 1 ≤ c.fileSize) :
    c.Fits := by
  have hpos := c.unit_pos
  have hlast : c.unit * ((c.fileSize - 1) / c.unit) ≤ c.fileSize - 1 := Nat.mul_div_le _ _
  have hover : c.fileSize - 1 < c.unit * ((c.fileSize - 1) / c.unit + 1) :=
    Nat.lt_mul_div_succ _ hpos
  obtain ⟨s, hs⟩ := hgo.reachedOn hseq (k := (c.fileSize - 1) / c.unit) (by omega)
  obtain ⟨size, hseqSize, hend, -⟩ := hgo.data hseq hs
  obtain ⟨hnumbers, hunit⟩ := size_of_seqSize hseqSize
  rw [Nat.mul_succ] at hover
  by_cases hmerged : c.fileMergedRequests = 0
  · have hbs : c.unit = c.fileBlockSize := if_neg (by omega)
    refine .inl ⟨hmerged, hbs ▸ ⟨(c.fileSize - 1) / c.unit + 1, ?_⟩⟩
    have hle := hend hmerged
    rw [hunit (.inl hmerged)] at hle
    rw [Nat.mul_succ]
    omega
  · have hbs : c.unit = c.fileBlockSize * c.fileMergedRequests := if_pos (by omega)
    obtain ⟨hint, hlong⟩ := hnumbers (by omega)
    refine .inr ⟨by omega, hint, ?_⟩
    rw [← hbs, Nat.mul_succ]
    omega

end

/-- The states of runs whose requests tile the files. -/
theorem goesOn_of_tiles (h : ∀ (g : Globals) (events : List Event), ∃ reqs s,
      requests c g events initVars = some (reqs, s) ∧ Tiles c 0 0 (dataRequests reqs)) :
    GoesOn c endless fun s =>
      ∃ events reqs, requests c endless events initVars = some (reqs, s) := by
  refine ⟨rfl, ⟨[], [], rfl⟩, fun {s} hs => ?_⟩
  obtain ⟨events, reqs, hrun⟩ := hs
  obtain ⟨reqs', s', hrun', htiles⟩ := h endless (events ++ [.request ⟨0, by decide⟩])
  obtain ⟨before, s₁, rest, hbefore, hlast, rfl⟩ := emits_append_eq_some.mp hrun'
  have heq : (before, s₁) = (reqs, s) := Option.some.inj (hbefore.symm.trans hrun)
  cases heq
  obtain ⟨out, s₂, outs, hstep, hnil, rfl⟩ := emits_cons_eq_some.mp hlast
  cases hnil
  obtain ⟨⟨req, s₃⟩, hget, hout⟩ := Option.map_eq_some_iff.mp hstep
  cases hout
  refine ⟨req, _, .fsync, hget, ⟨_, _, hrun'⟩, fun _ r hr => (htiles.inside r ?_).2.2⟩
  rw [dataRequests_append, List.mem_append]
  exact .inr (by simp [hr])

/-- **Sequential requests tile the files** exactly if the sizes fit. -/
theorem seqRequests_tile_iff (c : Config) (hseq : c.Sequential) (hsize : 1 ≤ c.fileSize) :
    (∀ (g : Globals) (events : List Event), ∃ reqs s,
      requests c g events initVars = some (reqs, s) ∧ Tiles c 0 0 (dataRequests reqs)) ↔
    c.Fits :=
  ⟨fun h => (goesOn_of_tiles h).fits hseq hsize,
    fun hfits g events => tiles_of_fits g hseq hfits events (on_initVars hsize)⟩

/-- Blocks that divide the files. -/
theorem seqRequests_tile_blocks : (settings 2 8 2 0 .write).Sequential ∧
    ∀ (g : Globals) (events : List Event), ∃ reqs s,
      requests (settings 2 8 2 0 .write) g events initVars = some (reqs, s) ∧
        Tiles (settings 2 8 2 0 .write) 0 0 (dataRequests reqs) :=
  ⟨by decide, (seqRequests_tile_iff (settings 2 8 2 0 .write) (by decide) (by decide)).mpr
    (.inl ⟨rfl, by decide⟩)⟩

/-- One file of three bytes, in blocks of two: the second request goes from 2 to 4, and the
position never comes back. -/
theorem seqRequests_step_over :
    ¬ ∀ (g : Globals) (events : List Event), ∃ reqs s,
      requests (settings 1 3 2 0 .read) g events initVars = some (reqs, s) ∧
        Tiles (settings 1 3 2 0 .read) 0 0 (dataRequests reqs) := by
  intro h
  obtain ⟨reqs, s, hrun, htiles⟩ := h endless [.request ⟨0, by decide⟩, .request ⟨0, by decide⟩]
  have hreqs : requests (settings 1 3 2 0 .read) endless
      [.request ⟨0, by decide⟩, .request ⟨0, by decide⟩] initVars =
        some ([.file ⟨0, 0, 2, .read⟩, .file ⟨0, 2, 2, .read⟩],
          ⟨4, 0, 0, 0, false, 2, 0, 0⟩) := by rfl
  rw [hreqs] at hrun
  cases hrun
  exact absurd (htiles.inside ⟨0, 2, 2, .read⟩ (by decide)).2.2 (by decide)

end TokuQa.Sysbench.FileIo
