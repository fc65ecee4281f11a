import Mathlib.Algebra.Order.Field.Basic
import Mathlib.Algebra.Order.Field.Rat
import Mathlib.Tactic.NormNum
import TokuQa.Lib.Fallible
import TokuQa.Lib.JavaInt
import TokuQa.Lib.Run

/-!
# The requests of the fileio test

`parse_arguments` turns the options into the settings of the test, and `file_get_request` gives
out one request after another: data in a sequence or at random, a sweep of fsyncs over all
files after so many of them, and one more sweep when all are done. What the settings are worth
is part of their type (`Config`).

A request is made up under a mutex, so the calls of all threads are one list, in the order in
which they take the lock (`Event`). Between them the threads execute their requests, which is
seen by the next call in the numbers of reads and writes only.

`none` is undefined behaviour, an `int` or a `long long` that overflows or a division by zero.
`float` and `double` are exact, and the numbers of reads and writes are not bounded. `prev_req`
and `check_seq_req`, which only warns, are left out.
-/

set_option autoImplicit false

namespace TokuQa.Sysbench.FileIo

open TokuQa.Lib

/-- `file_test_mode_t`. -/
inductive TestMode where
  | read
  | write
  | rewrite
  | rndRead
  | rndWrite
  | rndRw
  | mixed
deriving DecidableEq

/-- `file_io_mode_t`. -/
inductive IoMode where
  | sync
  | async
  | mmap
deriving DecidableEq

/-- `file_flags_t`. -/
inductive Flags where
  | normal
  | sync
  | dsync
  | directio
deriving DecidableEq

/-- `file_fsync_mode_t`. -/
inductive FsyncMode where
  | all
  | data
deriving DecidableEq

/-! ## The settings -/

/-- What the build found on the system. -/
structure Build where
  haveLibaio : Bool
  haveMmap : Bool
  haveFdatasync : Bool

/-- The values of the options, as `sb_get_value_int`, `sb_get_value_size` and so on return them;
`run` is the command. -/
structure Args where
  run : Bool
  fileNum : Int32
  fileBlockSize : UInt64
  fileTotalSize : UInt64
  fileTestMode : Option String
  fileIoMode : Option String
  fileExtraFlags : Option String
  fileFsyncFreq : Int32
  fileFsyncAll : Bool
  fileFsyncEnd : Bool
  fileFsyncMode : Option String
  fileMergedRequests : Int32
  fileRwRatio : ℚ

/-- The settings of the test, with what `parse_arguments` has checked. -/
@[ext] structure Config where
  numFiles : Nat
  totalSize : Nat
  testMode : TestMode
  fileIoMode : IoMode
  fileMergedRequests : Nat
  fileBlockSize : Nat
  fileExtraFlags : Flags
  fileFsyncFreq : Nat
  fileFsyncEnd : Bool
  fileFsyncAll : Bool
  fileFsyncMode : FsyncMode
  fileRwRatio : ℚ
  numFiles_pos : 0 < numFiles
  numFiles_lt : numFiles < 2 ^ 32
  totalSize_pos : 0 < totalSize
  totalSize_lt : totalSize < 2 ^ 63
  testMode_ne : testMode ≠ .mixed
  fileMergedRequests_lt : fileMergedRequests < 2 ^ 31
  fileBlockSize_pos : 0 < fileBlockSize
  fileBlockSize_lt : fileBlockSize < 2 ^ 31
  fileFsyncFreq_lt : fileFsyncFreq < 2 ^ 31
  fileFsyncAll_only : fileFsyncAll = true → fileFsyncEnd = false ∧ fileFsyncFreq = 0
  fileRwRatio_nonneg : 0 ≤ fileRwRatio

/-- An argument of `log_text`. -/
inductive LogArg where
  | int (n : Int)
  | str (s : String)
  | real (x : ℚ)
deriving DecidableEq

/-- How `parse_arguments` does not succeed: what it logs before it returns 1, or the
`strcmp(NULL, ..)` for the mode of fsync. -/
inductive Failure where
  | fatal (format : String) (args : List LogArg)
  | undefined
deriving DecidableEq

/-- `file-test-mode`, which is necessary for `run` only: a static variable is zero. -/
def parseTestMode (a : Args) : Except Failure {mode : TestMode // mode ≠ .mixed} :=
  if a.run then
    match a.fileTestMode with
    | none => .error (.fatal "Missing required argument: --file-test-mode" [])
    | some mode =>
      if mode = "seqwr" then .ok ⟨.write, by decide⟩
      else if mode = "seqrewr" then .ok ⟨.rewrite, by decide⟩
      else if mode = "seqrd" then .ok ⟨.read, by decide⟩
      else if mode = "rndrd" then .ok ⟨.rndRead, by decide⟩
      else if mode = "rndwr" then .ok ⟨.rndWrite, by decide⟩
      else if mode = "rndrw" then .ok ⟨.rndRw, by decide⟩
      else .error (.fatal "Invalid IO operations mode: %s." [.str mode])
  else .ok ⟨.read, by decide⟩

/-- `file-io-mode`. -/
def parseIoMode (b : Build) (a : Args) : Except Failure IoMode :=
  let mode := a.fileIoMode.getD "sync"
  if mode = "sync" then .ok .sync
  else if mode = "async" then
    if b.haveLibaio then .ok .async
    else .error (.fatal "asynchronous I/O mode is unsupported on this platform." [])
  else if mode = "mmap" then
    if b.haveMmap then .ok .mmap
    else .error (.fatal "mmap'ed I/O mode is unsupported on this platform." [])
  else .error (.fatal "unknown I/O mode: %s" [.str mode])

/-- `file-extra-flags`. -/
def parseExtraFlags (a : Args) : Except Failure Flags :=
  let mode := a.fileExtraFlags.getD ""
  if mode = "" then .ok .normal
  else if mode = "sync" then .ok .sync
  else if mode = "dsync" then .ok .dsync
  else if mode = "direct" then .ok .directio
  else .error (.fatal "Invalid value for file-extra-flags: %s" [.str mode])

/-- `file-fsync-mode`. -/
def parseFsyncMode (b : Build) (a : Args) : Except Failure FsyncMode :=
  match a.fileFsyncMode with
  | none => .error .undefined
  | some mode =>
    if mode = "fsync" then .ok .all
    else if mode = "fdatasync" then
      if b.haveFdatasync then .ok .data
      else .error (.fatal "fdatasync() is unavailable on this platform" [])
    else .error (.fatal "Invalid fsync mode: %s." [.str mode])

/-- A check of `parse_arguments`. -/
def check (bad : Prop) [Decidable bad] (format : String) (args : List LogArg) :
    Except Failure (PLift (¬ bad)) :=
  if h : bad then .error (.fatal format args) else .ok ⟨h⟩

/-- `parse_arguments`. `num_files` is unsigned, so zero is the only number that is not positive. -/
def parseArguments (b : Build) (a : Args) : Except Failure Config := do
  let numFiles : Nat := (a.fileNum.toInt % 2 ^ 32).toNat
  let ⟨hfiles⟩ ← check (numFiles = 0) "Invalid value for file-num: %d" [.int numFiles]
  let totalSize := wrap64 a.fileTotalSize.toNat
  let ⟨htotal⟩ ← check (totalSize ≤ 0) "Invalid value for file-total-size: %lld" [.int totalSize]
  let testMode ← parseTestMode a
  let fileIoMode ← parseIoMode b a
  let merged := a.fileMergedRequests.toInt
  let ⟨hmerged⟩ ← check (merged < 0) "Invalid value for file-merged-requests: %d." [.int merged]
  let blockSize := wrap32 a.fileBlockSize.toNat
  let ⟨hblock⟩ ← check (blockSize ≤ 0) "Invalid value for file-block-size: %d." [.int blockSize]
  let fileExtraFlags ← parseExtraFlags a
  let freq := a.fileFsyncFreq.toInt
  let ⟨hfreq⟩ ← check (freq < 0) "Invalid value for file-fsync-freq: %d." [.int freq]
  let fileFsyncMode ← parseFsyncMode b a
  let ⟨hratio⟩ ← check (a.fileRwRatio < 0) "Invalid value file file-rw-ratio: %f." [.real a.fileRwRatio]
  return {
    numFiles
    totalSize := totalSize.toNat
    testMode := testMode.val
    fileIoMode
    fileMergedRequests := merged.toNat
    fileBlockSize := blockSize.toNat
    fileExtraFlags
    -- file-fsync-all overrides file-fsync-end and file-fsync-freq
    fileFsyncFreq := if a.fileFsyncAll then 0 else freq.toNat
    fileFsyncEnd := if a.fileFsyncAll then false else a.fileFsyncEnd
    fileFsyncAll := a.fileFsyncAll
    fileFsyncMode
    fileRwRatio := a.fileRwRatio
    numFiles_pos := Nat.pos_of_ne_zero hfiles
    numFiles_lt := by omega
    totalSize_pos := by omega
    totalSize_lt := by
      have hlt : totalSize < 2 ^ 63 := wrap_lt 63 _
      omega
    testMode_ne := testMode.property
    fileMergedRequests_lt := by
      have hlt := a.fileMergedRequests.toInt_lt
      omega
    fileBlockSize_pos := by omega
    fileBlockSize_lt := by
      have hlt : blockSize < 2 ^ 31 := wrap_lt 31 _
      omega
    fileFsyncFreq_lt := by
      have hlt := a.fileFsyncFreq.toInt_lt
      split <;> omega
    fileFsyncAll_only := by
      intro hall
      simp [hall]
    fileRwRatio_nonneg := not_lt.mp hratio }

/-- Options that are parsed into given settings. -/
def Config.args (c : Config) : Args where
  run := true
  fileNum := .ofInt c.numFiles
  fileBlockSize := .ofNat c.fileBlockSize
  fileTotalSize := .ofNat c.totalSize
  fileTestMode := some (match c.testMode with
    | .write => "seqwr"
    | .rewrite => "seqrewr"
    | .rndRead => "rndrd"
    | .rndWrite => "rndwr"
    | .rndRw => "rndrw"
    | _ => "seqrd")
  fileIoMode := some (match c.fileIoMode with
    | .sync => "sync"
    | .async => "async"
    | .mmap => "mmap")
  fileExtraFlags := some (match c.fileExtraFlags with
    | .normal => ""
    | .sync => "sync"
    | .dsync => "dsync"
    | .directio => "direct")
  fileFsyncFreq := .ofInt c.fileFsyncFreq
  fileFsyncAll := c.fileFsyncAll
  fileFsyncEnd := c.fileFsyncEnd
  fileFsyncMode := some (match c.fileFsyncMode with
    | .all => "fsync"
    | .data => "fdatasync")
  fileMergedRequests := .ofInt c.fileMergedRequests
  fileRwRatio := c.fileRwRatio

theorem check_of_not {bad : Prop} [Decidable bad] (h : ¬ bad) (format : String)
    (args : List LogArg) : check bad format args = .ok ⟨h⟩ := dif_neg h

theorem toInt_ofInt {n : Nat} (h : n < 2 ^ 31) : (Int32.ofInt n).toInt = n :=
  Int32.toInt_ofInt_of_le (by omega) (by omega)

section

variable (c : Config)

theorem parseTestMode_args : parseTestMode c.args = .ok ⟨c.testMode, c.testMode_ne⟩ := by
  obtain ⟨_, _, mode, _⟩ := c
  cases mode with
  | mixed => contradiction
  | _ => rfl

theorem parseIoMode_args : parseIoMode ⟨true, true, true⟩ c.args = .ok c.fileIoMode := by
  cases h : c.fileIoMode <;> simp [parseIoMode, Config.args, h]

theorem parseExtraFlags_args : parseExtraFlags c.args = .ok c.fileExtraFlags := by
  cases h : c.fileExtraFlags <;> simp [parseExtraFlags, Config.args, h]

theorem parseFsyncMode_args :
    parseFsyncMode ⟨true, true, true⟩ c.args = .ok c.fileFsyncMode := by
  cases h : c.fileFsyncMode <;> simp [parseFsyncMode, Config.args, h]

theorem fileNum_args : (c.args.fileNum.toInt % 2 ^ 32).toNat = c.numFiles := by
  have hlt := c.numFiles_lt
  have hmod : (Int.bmod c.numFiles 4294967296) % 4294967296 = c.numFiles % 4294967296 :=
    Int.bmod_emod
  rw [Config.args, Int32.toInt_ofInt]
  simp only [Int32.size, Int.reducePow] at hmod ⊢
  omega

theorem fileTotalSize_args : wrap64 c.args.fileTotalSize.toNat = c.totalSize := by
  have hlt := c.totalSize_lt
  rw [Config.args, UInt64.toNat_ofNat_of_lt' (by simp only [UInt64.size]; omega)]
  exact wrap_eq_self (by omega) (by omega)

theorem fileBlockSize_args : wrap32 c.args.fileBlockSize.toNat = c.fileBlockSize := by
  have hlt := c.fileBlockSize_lt
  rw [Config.args, UInt64.toNat_ofNat_of_lt' (by simp only [UInt64.size]; omega)]
  exact wrap_eq_self (by omega) (by omega)

/-- What file-fsync-all overrides is what the settings have. -/
theorem overridden {α : Type} {x y : α} (h : c.fileFsyncEnd = false ∧ c.fileFsyncFreq = 0 → y = x) :
    (if c.args.fileFsyncAll = true then y else x) = x := by
  by_cases hall : c.args.fileFsyncAll = true
  · rw [if_pos hall, h (c.fileFsyncAll_only hall)]
  · rw [if_neg hall]

/-- **The checks are all that settings have to pass.** -/
theorem parseArguments_args : parseArguments ⟨true, true, true⟩ c.args = .ok c := by
  have hfiles := fileNum_args c
  have htotal := fileTotalSize_args c
  have hblock := fileBlockSize_args c
  have hmerged : c.args.fileMergedRequests.toInt = c.fileMergedRequests :=
    toInt_ofInt c.fileMergedRequests_lt
  have hfreq : c.args.fileFsyncFreq.toInt = c.fileFsyncFreq := toInt_ofInt c.fileFsyncFreq_lt
  have hfiles₀ : ¬ (c.args.fileNum.toInt % 2 ^ 32).toNat = 0 := by
    have := c.numFiles_pos
    omega
  have htotal₀ : ¬ wrap64 c.args.fileTotalSize.toNat ≤ 0 := by
    have := c.totalSize_pos
    omega
  have hmerged₀ : ¬ c.args.fileMergedRequests.toInt < 0 := by omega
  have hblock₀ : ¬ wrap32 c.args.fileBlockSize.toNat ≤ 0 := by
    have := c.fileBlockSize_pos
    omega
  have hfreq₀ : ¬ c.args.fileFsyncFreq.toInt < 0 := by omega
  have hratio₀ : ¬ c.args.fileRwRatio < 0 := not_lt.mpr c.fileRwRatio_nonneg
  unfold parseArguments
  refine bind_eq_ok.mpr ⟨_, check_of_not hfiles₀ _ _, ?_⟩
  refine bind_eq_ok.mpr ⟨_, check_of_not htotal₀ _ _, ?_⟩
  refine bind_eq_ok.mpr ⟨_, parseTestMode_args c, ?_⟩
  refine bind_eq_ok.mpr ⟨_, parseIoMode_args c, ?_⟩
  refine bind_eq_ok.mpr ⟨_, check_of_not hmerged₀ _ _, ?_⟩
  refine bind_eq_ok.mpr ⟨_, check_of_not hblock₀ _ _, ?_⟩
  refine bind_eq_ok.mpr ⟨_, parseExtraFlags_args c, ?_⟩
  refine bind_eq_ok.mpr ⟨_, check_of_not hfreq₀ _ _, ?_⟩
  refine bind_eq_ok.mpr ⟨_, parseFsyncMode_args c, ?_⟩
  refine bind_eq_ok.mpr ⟨_, check_of_not hratio₀ _ _, ?_⟩
  refine congrArg Except.ok (Config.ext hfiles ?_ rfl rfl ?_ ?_ rfl ?_ ?_ rfl rfl rfl)
  · dsimp only
    rw [htotal, Int.toNat_natCast]
  · dsimp only
    rw [hmerged, Int.toNat_natCast]
  · dsimp only
    rw [hblock, Int.toNat_natCast]
  · dsimp only
    rw [hfreq, Int.toNat_natCast]
    exact overridden c fun h => h.2.symm
  · exact overridden c fun h => h.1.symm

end

namespace Config

variable (c : Config)

/-- `file_size`. -/
def fileSize : Nat := c.totalSize / c.numFiles

/-- `file_max_request_size`, an `int` product. -/
def fileMaxRequestSize : Option Nat :=
  if 0 < c.fileMergedRequests then
    if c.fileBlockSize * c.fileMergedRequests < 2 ^ 31 then
      some (c.fileBlockSize * c.fileMergedRequests)
    else none
  else some c.fileBlockSize

/-- The modes of `file_get_seq_request`. -/
def Sequential : Prop := c.testMode = .write ∨ c.testMode = .rewrite ∨ c.testMode = .read

instance : Decidable c.Sequential := inferInstanceAs (Decidable (_ ∨ _ ∨ _))

/-- The modes with writes. -/
def Writes : Prop :=
  c.testMode = .write ∨ c.testMode = .rewrite ∨ c.testMode = .rndWrite ∨ c.testMode = .rndRw

end Config

/-- Settings as they come from file-num, file-total-size, file-block-size and
file-merged-requests, with everything else at its default. -/
def settings (numFiles totalSize fileBlockSize fileMergedRequests : Nat) (testMode : TestMode)
    (hfiles : 0 < numFiles ∧ numFiles < 2 ^ 32 := by decide)
    (htotal : 0 < totalSize ∧ totalSize < 2 ^ 63 := by decide)
    (hblock : 0 < fileBlockSize ∧ fileBlockSize < 2 ^ 31 := by decide)
    (hmerged : fileMergedRequests < 2 ^ 31 := by decide)
    (hmode : testMode ≠ .mixed := by decide) : Config where
  numFiles
  totalSize
  testMode
  fileIoMode := .sync
  fileMergedRequests
  fileBlockSize
  fileExtraFlags := .normal
  fileFsyncFreq := 100
  fileFsyncEnd := true
  fileFsyncAll := false
  fileFsyncMode := .all
  fileRwRatio := 3 / 2
  numFiles_pos := hfiles.1
  numFiles_lt := hfiles.2
  totalSize_pos := htotal.1
  totalSize_lt := htotal.2
  testMode_ne := hmode
  fileMergedRequests_lt := hmerged
  fileBlockSize_pos := hblock.1
  fileBlockSize_lt := hblock.2
  fileFsyncFreq_lt := by decide
  fileFsyncAll_only := by decide
  fileRwRatio_nonneg := by norm_num

/-! ## Requests -/

/-- What the test reads of `sb_globals`. -/
structure Globals where
  maxRequests : Nat
  validate : Bool
  maxRequests_lt : maxRequests < 2 ^ 32

/-- No limit on the number of requests. -/
def endless : Globals := ⟨0, false, by decide⟩

/-- `sb_file_op_t`, without the null operation, which no request has. -/
inductive FileOp where
  | read
  | write
  | fsync
deriving DecidableEq

/-- `sb_file_request_t`. -/
structure FileRequest where
  fileId : Nat
  pos : Int
  size : Int
  operation : FileOp
deriving DecidableEq

/-- `sb_request_t`. -/
inductive Request where
  | null
  | file (fileReq : FileRequest)
deriving DecidableEq

/-- The static variables that `file_get_request` reads. -/
structure State where
  position : Int
  currentFile : Nat
  fsyncedFile : Nat
  fsyncedFile2 : Nat
  isDirty : Bool
  reqPerformed : Nat
  realReadOps : Nat
  realWriteOps : Nat
deriving DecidableEq

/-- `init_vars` and `clear_stats`. -/
def initVars : State := ⟨0, 0, 0, 0, false, 0, 0, 0⟩

/-- The bound on a random number, `SB_MAX_RND`. -/
def sbMaxRnd : Nat := 0x3fffffff

/-- A sum of two `long long`. -/
def addLong (x y : Int) : Option Int :=
  if -2 ^ 63 ≤ x + y ∧ x + y < 2 ^ 63 then some (x + y) else none

def fsyncRequest (fileId : Nat) : FileRequest := ⟨fileId, 0, 0, .fsync⟩

section

variable (c : Config) (g : Globals)

/-- The first of the two tests that both functions begin with: all requests are done. -/
def State.Done (s : State) : Prop := 0 < g.maxRequests ∧ g.maxRequests ≤ s.reqPerformed

instance (s : State) : Decidable (s.Done g) := inferInstanceAs (Decidable (_ ∧ _))

/-- The second one: it is time to fsync the files. -/
def State.Due (s : State) : Prop :=
  c.fileFsyncFreq ≠ 0 ∧ s.isDirty = true ∧ s.reqPerformed % c.fileFsyncFreq = 0

instance (s : State) : Decidable (s.Due c) := inferInstanceAs (Decidable (_ ∧ _ ∧ _))

/-- What a periodic fsync leaves. -/
def State.fsynced (s : State) : State :=
  if s.fsyncedFile + 1 = c.numFiles then { s with fsyncedFile := 0, isDirty := false }
  else { s with fsyncedFile := s.fsyncedFile + 1 }

/-- The counter and the flag behind a data request. -/
def State.performed (operation : FileOp) (s : State) : State :=
  { s with
    reqPerformed := (s.reqPerformed + 1) % 2 ^ 32
    isDirty := s.isDirty || operation == .write }

/-- Rewind to the first file if all files are processed. -/
def State.rewound (s : State) : State :=
  if s.currentFile = c.numFiles then { s with position := 0, currentFile := 0 } else s

/-- The size of a sequential request. Merged requests are cut at the end of the file. -/
def seqSize (position : Int) : Option Int :=
  if 0 < c.fileMergedRequests then do
    let maxSize ← c.fileMaxRequestSize
    let stop ← addLong position maxSize
    return if stop ≤ c.fileSize then (maxSize : Int) else c.fileSize - position
  else some c.fileBlockSize

/-- Scroll to the next file if the position is its end. -/
def State.scrolled (position : Int) (s : State) : State :=
  if position = c.fileSize then { s with position := 0, currentFile := s.currentFile + 1 }
  else { s with position }

/-- The rest of `file_get_seq_request`, from the rewinding on. -/
def seqData (operation : FileOp) (s : State) : Option (FileRequest × State) := do
  let s := s.rewound c
  let size ← seqSize c s.position
  let position ← addLong s.position size
  return (⟨s.currentFile, s.position, size, operation⟩, s.scrolled c position)

/-- What both functions begin with: the final fsync on all files, if the mode is one that has
it (`final`), and the periodic one, if the operation is one that has it (`periodic`). -/
def fsyncFirst (final periodic : Bool) (s : State) (data : Option (Request × State)) :
    Option (Request × State) :=
  if s.Done g then
    if c.fileFsyncEnd ∧ final ∧ s.fsyncedFile2 < c.numFiles then
      some (.file (fsyncRequest s.fsyncedFile2), { s with fsyncedFile2 := s.fsyncedFile2 + 1 })
    else some (.null, s)
  else if periodic ∧ s.Due c then
    some (.file (fsyncRequest s.fsyncedFile), s.fsynced c)
  else data

/-- The operation of a sequential request. -/
def seqOperation : FileOp :=
  if c.testMode = .write ∨ c.testMode = .rewrite then .write else .read

def fileGetSeqRequest (s : State) : Option (Request × State) :=
  let operation := seqOperation c
  -- no fsync for reads
  fsyncFirst c g (operation == .write) (operation == .write) s <|
    (seqData c operation (s.performed operation)).map fun (fileReq, s) => (.file fileReq, s)

/-- The mode of one request of the combined test. -/
def rndMode (s : State) : TestMode :=
  if c.testMode = .rndRw then
    if (s.realReadOps + 1 : ℚ) / (s.realWriteOps + 1) < c.fileRwRatio then .rndRead else .rndWrite
  else c.testMode

/-- The operation of a random request. -/
def rndOperation (s : State) : FileOp := if rndMode c s = .rndWrite then .write else .read

/-- The position of a random request in all files together. -/
def tmppos (randnum : Nat) : Nat :=
  let tmppos := randnum * c.totalSize / sbMaxRnd
  tmppos - tmppos % c.fileBlockSize

/-- The random data request; `file_id` is cut to an `unsigned int`. -/
def rndData (operation : FileOp) (randnum : Nat) : Option FileRequest :=
  if c.fileSize = 0 then none
  else some {
    fileId := tmppos c randnum / c.fileSize % 2 ^ 32
    pos := tmppos c randnum % c.fileSize
    size := c.fileBlockSize
    operation }

def fileGetRndRequest (randnum : Nat) (s : State) : Option (Request × State) :=
  let operation := rndOperation c s
  fsyncFirst c g (c.testMode = .rndWrite ∨ c.testMode = .rndRw ∨ c.testMode = .mixed) true s <|
    (rndData c operation randnum).map fun fileReq => (.file fileReq, s.performed operation)

def fileGetRequest (randnum : Nat) (s : State) : Option (Request × State) :=
  if c.Sequential then fileGetSeqRequest c g s else fileGetRndRequest c g randnum s

/-! ## Runs -/

/-- Something that happens to the static variables: a call of `file_get_request`, which may
take the next random number, or the end of a `file_execute_request`. -/
inductive Event where
  | request (randnum : Fin sbMaxRnd)
  | executed (operation : FileOp)

/-- The statistics of `file_execute_request`. -/
def State.executed (operation : FileOp) (s : State) : State :=
  match operation with
  | .read => { s with realReadOps := s.realReadOps + 1 }
  | .write => { s with realWriteOps := s.realWriteOps + 1 }
  | .fsync => s

def step (e : Event) (s : State) : Option (List Request × State) :=
  match e with
  | .request randnum => (fileGetRequest c g randnum s).map fun (req, s) => ([req], s)
  | .executed operation => some ([], s.executed operation)

/-- The requests that are given out in a run, in the order in which they are made up. -/
def requests (events : List Event) (s : State) : Option (List Request × State) :=
  emits (step c g) events s

end

/-- The data request, if it is one. -/
def Request.data : Request → Option FileRequest
  | .null => none
  | .file fileReq => if fileReq.operation = .fsync then none else some fileReq

/-- The data requests of a list of requests. -/
def dataRequests (reqs : List Request) : List FileRequest := reqs.filterMap Request.data

/-! ## What a call does -/

section

variable {c : Config} {g : Globals} {randnum : Nat} {s s' : State} {req : Request}

/-- The ways in which a request comes about. -/
inductive Given (c : Config) (g : Globals) (randnum : Nat) (s : State) : Request → State → Prop where
  /-- All is done. -/
  | null (done : s.Done g)
      (last : c.fileFsyncEnd = true → c.Writes → c.numFiles ≤ s.fsyncedFile2) :
      Given c g randnum s .null s
  /-- The final fsync on one of the files. -/
  | final (done : s.Done g) (fsyncEnd : c.fileFsyncEnd = true) (writes : c.Writes)
      (last : s.fsyncedFile2 < c.numFiles) :
      Given c g randnum s (.file (fsyncRequest s.fsyncedFile2))
        { s with fsyncedFile2 := s.fsyncedFile2 + 1 }
  /-- The periodic one. -/
  | periodic (done : ¬ s.Done g) (due : s.Due c) :
      Given c g randnum s (.file (fsyncRequest s.fsyncedFile)) (s.fsynced c)
  | seq {fileReq : FileRequest} {s' : State} (done : ¬ s.Done g) (sequential : c.Sequential)
      (due : c.Writes → ¬ s.Due c)
      (data : seqData c (seqOperation c) (s.performed (seqOperation c)) = some (fileReq, s')) :
      Given c g randnum s (.file fileReq) s'
  | rnd {fileReq : FileRequest} (done : ¬ s.Done g) (random : ¬ c.Sequential) (due : ¬ s.Due c)
      (data : rndData c (rndOperation c s) randnum = some fileReq) :
      Given c g randnum s (.file fileReq) (s.performed (rndOperation c s))

theorem seqOperation_eq_write (hseq : c.Sequential) :
    (seqOperation c == .write) = true ↔ c.Writes := by
  obtain h | h | h := hseq <;> simp [seqOperation, Config.Writes, h]

theorem rnd_writes (hrnd : ¬ c.Sequential) :
    (c.testMode = .rndWrite ∨ c.testMode = .rndRw ∨ c.testMode = .mixed) ↔ c.Writes := by
  have hne := c.testMode_ne
  unfold Config.Sequential at hrnd
  unfold Config.Writes
  tauto

theorem given_of_fsyncFirst {final periodic : Bool} {data : Option (Request × State)}
    (hfinal : final = true ↔ c.Writes)
    (hdata : ¬ s.Done g → ¬ (periodic = true ∧ s.Due c) → data = some (req, s') →
      Given c g randnum s req s')
    (h : fsyncFirst c g final periodic s data = some (req, s')) : Given c g randnum s req s' := by
  unfold fsyncFirst at h
  split at h
  · next hdone =>
    split at h
    · next hlast =>
      cases h
      exact .final hdone hlast.1 (hfinal.mp hlast.2.1) hlast.2.2
    · next hlast =>
      cases h
      refine .null hdone fun hend hwrites => ?_
      by_contra hlt
      exact hlast ⟨hend, hfinal.mpr hwrites, Nat.lt_of_not_le hlt⟩
  · next hdone =>
    split at h
    · next hdue =>
      cases h
      exact .periodic hdone hdue.2
    · next hdue => exact hdata hdone hdue h

theorem given_of_fileGetRequest (h : fileGetRequest c g randnum s = some (req, s')) :
    Given c g randnum s req s' := by
  unfold fileGetRequest at h
  split at h
  · next hseq =>
    refine given_of_fsyncFirst (seqOperation_eq_write hseq) (fun hdone hdue hdata => ?_) h
    obtain ⟨⟨fileReq, s₁⟩, hseqData, heq⟩ := Option.map_eq_some_iff.mp hdata
    cases heq
    exact .seq hdone hseq
      (fun hw hd => hdue ⟨(seqOperation_eq_write hseq).mpr hw, hd⟩) hseqData
  · next hrnd =>
    refine given_of_fsyncFirst (by simpa using rnd_writes hrnd) (fun hdone hdue hdata => ?_) h
    obtain ⟨fileReq, hrndData, heq⟩ := Option.map_eq_some_iff.mp hdata
    cases heq
    exact .rnd hdone hrnd (fun hd => hdue ⟨rfl, hd⟩) hrndData

/-- An fsync or the end comes before the data, whatever it is, and does not move the position. -/
theorem fsyncFirst_cases (c : Config) (g : Globals) (final periodic : Bool) (s : State) :
    (∃ req s', (∀ data, fsyncFirst c g final periodic s data = some (req, s')) ∧
      req.data = none ∧ s'.position = s.position ∧ s'.currentFile = s.currentFile) ∨
    ¬ s.Done g ∧ ¬ (periodic = true ∧ s.Due c) ∧
      ∀ data, fsyncFirst c g final periodic s data = data := by
  unfold fsyncFirst
  by_cases hdone : s.Done g
  · simp only [if_pos hdone]
    by_cases hlast : c.fileFsyncEnd = true ∧ final = true ∧ s.fsyncedFile2 < c.numFiles
    · simp only [if_pos hlast]
      exact .inl ⟨_, _, fun _ => rfl, rfl, rfl, rfl⟩
    · simp only [if_neg hlast]
      exact .inl ⟨_, _, fun _ => rfl, rfl, rfl, rfl⟩
  · simp only [if_neg hdone]
    by_cases hdue : periodic = true ∧ s.Due c
    · simp only [if_pos hdue]
      refine .inl ⟨_, _, fun _ => rfl, rfl, ?_⟩
      unfold State.fsynced
      split <;> exact ⟨rfl, rfl⟩
    · simp only [if_neg hdue]
      exact .inr ⟨hdone, hdue, fun _ => trivial⟩

theorem not_done (s : State) : ¬ s.Done endless := fun h => Nat.lt_irrefl 0 h.1

theorem seqOperation_ne_fsync (c : Config) : seqOperation c ≠ .fsync := by
  unfold seqOperation
  split <;> decide

theorem rndOperation_ne_fsync (c : Config) (s : State) : rndOperation c s ≠ .fsync := by
  unfold rndOperation
  split <;> decide

theorem addLong_eq_some {x y z : Int} :
    addLong x y = some z ↔ (-2 ^ 63 ≤ x + y ∧ x + y < 2 ^ 63) ∧ x + y = z := by
  unfold addLong
  split <;> simp_all

theorem seqData_eq_some {operation : FileOp} {fileReq : FileRequest} :
    seqData c operation s = some (fileReq, s') ↔ ∃ size position,
      seqSize c (s.rewound c).position = some size ∧
      addLong (s.rewound c).position size = some position ∧
      fileReq = ⟨(s.rewound c).currentFile, (s.rewound c).position, size, operation⟩ ∧
      s' = (s.rewound c).scrolled c position := by
  constructor
  · intro h
    obtain ⟨size, hsize, hrest⟩ := Option.bind_eq_some_iff.mp h
    obtain ⟨position, hposition, heq⟩ := Option.bind_eq_some_iff.mp hrest
    cases heq
    exact ⟨size, position, hsize, hposition, rfl, rfl⟩
  · rintro ⟨size, position, hsize, hposition, rfl, rfl⟩
    exact Option.bind_eq_some_iff.mpr ⟨size, hsize,
      Option.bind_eq_some_iff.mpr ⟨position, hposition, rfl⟩⟩

theorem rndData_eq_some {operation : FileOp} {randnum : Nat} {fileReq : FileRequest} :
    rndData c operation randnum = some fileReq ↔ 0 < c.fileSize ∧
      fileReq = ⟨tmppos c randnum / c.fileSize % 2 ^ 32, (tmppos c randnum % c.fileSize : Nat),
        c.fileBlockSize, operation⟩ := by
  unfold rndData
  split
  · next hzero => simp [hzero]
  · next hpos =>
    rw [Option.some.injEq, eq_comm, and_iff_right (Nat.pos_of_ne_zero hpos)]
    rfl

/-- The sweeps do not see where the data is. -/
theorem seqData_frame {operation : FileOp} {fileReq : FileRequest}
    (h : seqData c operation s = some (fileReq, s')) :
    fileReq.operation = operation ∧ s'.fsyncedFile = s.fsyncedFile ∧
      s'.fsyncedFile2 = s.fsyncedFile2 ∧ s'.isDirty = s.isDirty ∧
      s'.reqPerformed = s.reqPerformed := by
  obtain ⟨size, position, -, -, rfl, rfl⟩ := seqData_eq_some.mp h
  unfold State.scrolled State.rewound
  refine ⟨rfl, ?_⟩
  split <;> split <;> exact ⟨rfl, rfl, rfl, rfl⟩

@[simp] theorem dataRequests_nil : dataRequests [] = [] := rfl

@[simp] theorem dataRequests_cons (req : Request) (reqs : List Request) :
    dataRequests (req :: reqs) = req.data.toList ++ dataRequests reqs := by
  unfold dataRequests
  cases h : req.data <;> simp [h]

@[simp] theorem dataRequests_append (reqs reqs' : List Request) :
    dataRequests (reqs ++ reqs') = dataRequests reqs ++ dataRequests reqs' :=
  List.filterMap_append

@[simp] theorem data_null : Request.null.data = none := rfl

@[simp] theorem data_fsync (fileId : Nat) : (Request.file (fsyncRequest fileId)).data = none := rfl

@[simp] theorem data_file {fileReq : FileRequest} (h : fileReq.operation ≠ .fsync) :
    (Request.file fileReq).data = some fileReq := if_neg h

end

end TokuQa.Sysbench.FileIo
