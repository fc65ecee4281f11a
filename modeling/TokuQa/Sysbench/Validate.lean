import TokuQa.Lib.ByteBuffer
import TokuQa.Lib.Window
import TokuQa.Sysbench.RndRequests
import TokuQa.Sysbench.SeqRequests

/-!
# Checksums in the files of the fileio test

With validation on, what is written carries a checksum and the position it was written at, both
at the end of the request, and what is read is checked for them at the end of the request. So
what is read has to be a request as it was written. `create_files` writes a block at a time; a
merged read of more than a block finds the position of its last block where it looks for its own,
and a test without any error stops (`validation_iff`).

One thread executes each request before it asks for the next one. The disk has no errors;
whether an fsync succeeds is left open, since `file_fsync` returns 1 for mmap'ed files on 64-bit
systems whatever `msync` returns. The random bytes and what a fresh buffer holds are open, too,
and `crc32` is any function.
-/

set_option autoImplicit false

namespace TokuQa.Sysbench.FileIo

open TokuQa.Lib

/-- `FILE_CHECKSUM_LENGTH + FILE_OFFSET_LENGTH`. -/
def trailerLength : Nat := 4 + 8

/-- The buffer, and what the files hold. -/
structure Disk where
  buffer : List UInt8
  files : List (List UInt8)

/-- What `file_execute_request` comes to: zero, one with an error that is logged, or one because
of the validation. -/
inductive Result where
  | ok
  | failed (format : String)
  | invalid
deriving DecidableEq

section

variable (c : Config) (g : Globals) (crc32 : List UInt8 → UInt32)

/-! ## The functions -/

/-- What `file_fill_buffer` makes of random bytes. -/
def stamp (random : Nat → UInt8) (len : Nat) (offset : Int) : List UInt8 :=
  let data := (List.range (len - trailerLength)).map random
  data ++ littleEndian 4 (crc32 data).toNat ++ littleEndian 8 offset

/-- `file_fill_buffer`. A length without room for the trailer wraps around. -/
def fileFillBuffer (random : Nat → UInt8) (len offset : Int) (buffer : List UInt8) :
    Option (List UInt8) :=
  if trailerLength ≤ len ∧ len ≤ buffer.length then
    some (stamp crc32 random len.toNat offset ++ buffer.drop len.toNat)
  else none

/-- `file_validate_buffer`: true is success. -/
def fileValidateBuffer (len offset : Int) (buffer : List UInt8) : Option Bool :=
  if trailerLength ≤ len ∧ len ≤ buffer.length then
    let csOffset := len.toNat - trailerLength
    let checksum := crc32 (buffer.take csOffset)
    some (checksum.toNat = unsigned (window csOffset 4 buffer).reverse ∧
      offset = unsigned (window (csOffset + 4) 8 buffer).reverse)
  else none

/-- The loop of `create_files` over the offsets of one file. -/
def writeBlocks (random : Int → Nat → UInt8) : Nat → Int → List UInt8 →
    Option (List UInt8 × List UInt8)
  | 0, _, buffer => some ([], buffer)
  | fuel + 1, offset, buffer =>
    if offset < c.fileSize then do
      let buffer ← if g.validate then
          fileFillBuffer crc32 (random offset) c.fileBlockSize offset buffer
        else some buffer
      let next ← addLong offset c.fileBlockSize
      let (file, last) ← writeBlocks random fuel next buffer
      return (buffer.take c.fileBlockSize ++ file, last)
    else some ([], buffer)

/-- The loop of `create_files` over the files from one on. A file has not more blocks than
bytes. -/
def createFrom (random : Nat → Int → Nat → UInt8) : Nat → Nat → List UInt8 → Option Disk
  | 0, _, buffer => some ⟨buffer, []⟩
  | count + 1, i, buffer => do
    let (file, buffer) ← writeBlocks c g crc32 (random i) c.fileSize 0 buffer
    let disk ← createFrom random count (i + 1) buffer
    return { disk with files := file :: disk.files }

/-- `create_files`. -/
def createFiles (random : Nat → Int → Nat → UInt8) (buffer : List UInt8) : Option Disk :=
  createFrom c g crc32 random c.numFiles 0 buffer

/-- The end of `parse_arguments`: a buffer for the largest request. -/
def sbMemalign (fresh : Nat → UInt8) : Option (List UInt8) :=
  c.fileMaxRequestSize.map fun size => (List.range size).map fresh

/-- `file_prepare`, which opens the files, and removes them first for sequential writes. -/
def filePrepare (disk : Disk) : Disk :=
  if c.testMode = .write then { disk with files := disk.files.map fun _ => [] } else disk

/-- What one turn of the thread gets from outside: a random number, random bytes and the
success of an fsync. -/
structure Input where
  randnum : Fin sbMaxRnd
  random : Nat → UInt8
  fsyncOk : Bool

def executeWrite (input : Input) (r : FileRequest) (disk : Disk) (file : List UInt8) :
    Option (Result × Disk) := do
  let buffer ← if g.validate then fileFillBuffer crc32 input.random r.size r.pos disk.buffer
    else if r.size ≤ disk.buffer.length then some disk.buffer else none
  let disk : Disk :=
    ⟨buffer, disk.files.set r.fileId (overwrite r.pos.toNat (buffer.take r.size.toNat) file)⟩
  if c.fileFsyncAll = true ∧ input.fsyncOk = false then
    return (.failed "Failed to fsync file! file: %d", disk)
  return (.ok, disk)

def executeRead (r : FileRequest) (disk : Disk) (file : List UInt8) : Option (Result × Disk) := do
  let bytes := window r.pos.toNat r.size.toNat file
  let disk ← if bytes.length ≤ disk.buffer.length then
      some { disk with buffer := bytes ++ disk.buffer.drop bytes.length }
    else none
  if bytes.length ≠ r.size then
    return (.failed "Failed to read file! file: %d pos: %lld", disk)
  if g.validate then
    let valid ← fileValidateBuffer crc32 r.size r.pos disk.buffer
    return (if valid then .ok else .invalid, disk)
  return (.ok, disk)

/-- Fsync requests are ignored if each operation is fsynced already. -/
def executeFsync (input : Input) (disk : Disk) : Result × Disk :=
  if c.fileFsyncAll = true ∨ input.fsyncOk = true then (.ok, disk)
  else (.failed "Failed to fsync file! id: %u fd: %d", disk)

/-- `file_execute_request`. The check lets the number of files pass as the number of a file. -/
def fileExecuteRequest (input : Input) (r : FileRequest) (disk : Disk) :
    Option (Result × Disk) := do
  if c.numFiles < r.fileId then
    return (.failed "Incorrect file id in request: %u", disk)
  let stop ← addLong r.pos r.size
  if c.fileSize < stop then
    return (.failed "Too large position discovered in request!", disk)
  let file ← disk.files[r.fileId]?
  match r.operation with
  | .write => executeWrite c g crc32 input r disk file
  | .read => executeRead g crc32 r disk file
  | .fsync => return executeFsync c input disk

/-- The loop of `runner_thread` for a single thread: it ends with the null request and with
the first error. -/
def runThread : List Input → State → Disk → Option Result
  | [], _, _ => some .ok
  | input :: inputs, s, disk => do
    let (req, s) ← fileGetRequest c g input.randnum s
    match req with
    | .null => some .ok
    | .file r =>
      let (result, disk) ← fileExecuteRequest c g crc32 input r disk
      match result with
      | .ok => runThread inputs (s.executed r.operation) disk
      | result => some result

/-- The commands `prepare` and `run`. -/
def prepareAndRun (fresh : Nat → UInt8) (random : Nat → Int → Nat → UInt8) (inputs : List Input) :
    Option Result := do
  let buffer ← sbMemalign c fresh
  let disk ← createFiles c g crc32 random buffer
  runThread c g crc32 inputs initVars (filePrepare c { disk with buffer })

end

variable {c : Config} {g : Globals} {crc32 : List UInt8 → UInt32}

/-! ## Fill and validate -/

/-- What a buffer holds that was filled for a position. -/
def Stamped (crc32 : List UInt8 → UInt32) (offset : Int) (bytes : List UInt8) : Prop :=
  ∃ data, bytes = data ++ littleEndian 4 (crc32 data).toNat ++ littleEndian 8 offset

theorem stamped_stamp (random : Nat → UInt8) (len : Nat) (offset : Int) :
    Stamped crc32 offset (stamp crc32 random len offset) := ⟨_, rfl⟩

theorem length_stamp (crc32 : List UInt8 → UInt32) (random : Nat → UInt8) {len : Nat}
    (hlen : trailerLength ≤ len) (offset : Int) :
    (stamp crc32 random len offset).length = len := by
  simp only [stamp, trailerLength, List.length_append, List.length_map, List.length_range,
    length_littleEndian] at hlen ⊢
  omega

theorem fileFillBuffer_eq (crc32 : List UInt8 → UInt32) (random : Nat → UInt8) (offset : Int)
    {len : Nat} {buffer : List UInt8} (hlen : trailerLength ≤ len) (hbuffer : len ≤ buffer.length) :
    ∃ buffer', fileFillBuffer crc32 random len offset buffer = some buffer' ∧
      buffer'.length = buffer.length ∧
      buffer'.take len = stamp crc32 random len offset := by
  have hstamp := length_stamp crc32 random hlen offset
  refine ⟨stamp crc32 random len offset ++ buffer.drop len, ?_, ?_, ?_⟩
  · rw [fileFillBuffer, if_pos ⟨by exact_mod_cast hlen, by exact_mod_cast hbuffer⟩,
      Int.toNat_natCast]
  · rw [List.length_append, hstamp, List.length_drop]
    omega
  · rw [List.take_left' hstamp]

/-- What the validation looks at: the bytes before the trailer, and its two fields. -/
theorem fileValidateBuffer_eq (crc32 : List UInt8 → UInt32) (data rest : List UInt8)
    (checksum offset pos : Int) {len : Int} (hlen : len = data.length + trailerLength) :
    fileValidateBuffer crc32 len pos
      (data ++ littleEndian 4 checksum ++ littleEndian 8 offset ++ rest) =
    some (decide ((crc32 data).toNat = checksum % 256 ^ 4 ∧ pos = offset % 256 ^ 8)) := by
  have hcs : len.toNat - trailerLength = data.length := by omega
  have hroom : (trailerLength : Int) ≤ len ∧ len ≤
      (data ++ littleEndian 4 checksum ++ littleEndian 8 offset ++ rest).length := by
    simp only [List.length_append, length_littleEndian, trailerLength] at hlen ⊢
    omega
  have hchecksum := window_middle data (littleEndian 4 checksum) (littleEndian 8 offset ++ rest)
  have hoffset := window_middle (data ++ littleEndian 4 checksum) (littleEndian 8 offset) rest
  rw [length_littleEndian, ← List.append_assoc] at hchecksum
  rw [length_littleEndian, List.length_append, length_littleEndian] at hoffset
  rw [fileValidateBuffer, if_pos hroom, hcs]
  dsimp only
  rw [hchecksum, hoffset, unsigned_reverse_littleEndian, unsigned_reverse_littleEndian,
    List.append_assoc, List.append_assoc, List.take_left]

/-- **What was filled for a position is valid there.** -/
theorem valid_of_stamped {pos : Int} {bytes : List UInt8} (rest : List UInt8)
    (h : Stamped crc32 pos bytes) (hpos : 0 ≤ pos ∧ pos < 2 ^ 63) :
    fileValidateBuffer crc32 bytes.length pos (bytes ++ rest) = some true := by
  obtain ⟨data, rfl⟩ := h
  have hlt := (crc32 data).toNat_lt
  rw [fileValidateBuffer_eq crc32 data rest _ pos pos (by
    simp only [List.length_append, length_littleEndian, trailerLength]
    push_cast
    omega)]
  simp only [Option.some.injEq, decide_eq_true_eq]
  omega

/-- **It is valid nowhere else**, whatever is read before it. -/
theorem invalid_of_stamped {offset : Int} (pos : Int) (before : List UInt8) {bytes : List UInt8}
    (rest : List UInt8) (h : Stamped crc32 offset bytes) (hoffset : 0 ≤ offset ∧ offset < 2 ^ 63)
    (hne : pos ≠ offset) :
    fileValidateBuffer crc32 (before ++ bytes).length pos (before ++ bytes ++ rest) =
      some false := by
  obtain ⟨data, rfl⟩ := h
  have hlen : ((before ++ (data ++ littleEndian 4 (crc32 data).toNat ++
      littleEndian 8 offset)).length : Int) = (before ++ data).length + trailerLength := by
    simp only [List.length_append, length_littleEndian, trailerLength]
    push_cast
    omega
  have heq := fileValidateBuffer_eq crc32 (before ++ data) rest (crc32 data).toNat offset pos hlen
  simp only [List.append_assoc] at heq ⊢
  rw [heq]
  simp only [Option.some.injEq, decide_eq_false_iff_not]
  omega

/-! ## The files -/

/-- A file of stamped blocks. -/
structure Intact (c : Config) (crc32 : List UInt8 → UInt32) (file : List UInt8) : Prop where
  length : file.length = c.fileSize
  blocks : ∀ j, c.fileBlockSize * (j + 1) ≤ c.fileSize →
    Stamped crc32 (c.fileBlockSize * j : Nat) (window (c.fileBlockSize * j) c.fileBlockSize file)

theorem writeBlocks_eq (crc32 : List UInt8 → UInt32) (hblock : trailerLength < c.fileBlockSize)
    (hval : g.validate = true) (random : Int → Nat → UInt8) {fuel offset count : Nat}
    {buffer : List UInt8}
    (hbuffer : c.fileBlockSize ≤ buffer.length) (hfuel : count ≤ fuel)
    (hend : offset + c.fileBlockSize * count = c.fileSize) :
    ∃ file buffer', writeBlocks c g crc32 random fuel offset buffer = some (file, buffer') ∧
      buffer'.length = buffer.length ∧ file.length = c.fileBlockSize * count ∧
      ∀ j < count, Stamped crc32 (offset + c.fileBlockSize * j : Nat)
        (window (c.fileBlockSize * j) c.fileBlockSize file) := by
  induction fuel generalizing offset count buffer with
  | zero =>
    obtain rfl : count = 0 := by omega
    exact ⟨[], buffer, rfl, rfl, rfl, fun j hj => absurd hj (Nat.not_lt_zero j)⟩
  | succ fuel ih =>
    cases count with
    | zero =>
      refine ⟨[], buffer, ?_, rfl, rfl, fun j hj => absurd hj (Nat.not_lt_zero j)⟩
      rw [writeBlocks, if_neg (by rw [Nat.mul_zero] at hend; omega)]
    | succ count =>
      have hmul : c.fileBlockSize * (count + 1) = c.fileBlockSize * count + c.fileBlockSize :=
        Nat.mul_succ _ _
      have hsize := c.fileSize_lt
      obtain ⟨filled, hfill, hlength, htake⟩ := fileFillBuffer_eq crc32 (random offset) offset
        hblock.le hbuffer
      have hfilled : c.fileBlockSize ≤ filled.length := by omega
      have hend' : offset + c.fileBlockSize + c.fileBlockSize * count = c.fileSize := by omega
      obtain ⟨file, last, hrest, hlast, hfile, hstamped⟩ := ih hfilled (Nat.le_of_succ_le_succ hfuel)
        hend'
      have hnext : addLong offset c.fileBlockSize = some ((offset + c.fileBlockSize : Nat) : Int) :=
        addLong_eq_some.mpr ⟨by omega, by push_cast; rfl⟩
      have hfront : (filled.take c.fileBlockSize).length = c.fileBlockSize := by
        rw [List.length_take]
        omega
      refine ⟨filled.take c.fileBlockSize ++ file, last, ?_, by omega, ?_, ?_⟩
      · rw [writeBlocks, if_pos (by omega), if_pos hval, hfill]
        exact Option.bind_eq_some_iff.mpr ⟨_, rfl, Option.bind_eq_some_iff.mpr
          ⟨_, hnext, Option.bind_eq_some_iff.mpr ⟨_, hrest, rfl⟩⟩⟩
      · rw [List.length_append, hfront, hfile]
        omega
      · rintro (_ | j) hj
        · have hself := window_self (filled.take c.fileBlockSize)
          rw [hfront] at hself
          rw [Nat.mul_zero, window_append_left (by omega), hself, htake]
          exact stamped_stamp _ _ _
        · have hsub : c.fileBlockSize * (j + 1) - c.fileBlockSize = c.fileBlockSize * j := by
            rw [Nat.mul_succ, Nat.add_sub_cancel]
          have hat : offset + c.fileBlockSize * (j + 1) =
              offset + c.fileBlockSize + c.fileBlockSize * j := by
            rw [Nat.mul_succ]
            omega
          rw [window_append_right (by rw [hfront, Nat.mul_succ]; omega), hfront, hsub, hat]
          exact hstamped j (by omega)

theorem createFrom_eq (crc32 : List UInt8 → UInt32) (hdvd : c.fileBlockSize ∣ c.fileSize)
    (hblock : trailerLength < c.fileBlockSize) (hval : g.validate = true)
    (random : Nat → Int → Nat → UInt8) (count i : Nat) {buffer : List UInt8}
    (hbuffer : c.fileBlockSize ≤ buffer.length) :
    ∃ disk, createFrom c g crc32 random count i buffer = some disk ∧
      disk.files.length = count ∧ ∀ file ∈ disk.files, Intact c crc32 file := by
  induction count generalizing i buffer with
  | zero => exact ⟨⟨buffer, []⟩, rfl, rfl, by simp⟩
  | succ count ih =>
    obtain ⟨m, hm⟩ := hdvd
    have hfuel : m ≤ c.fileSize := by
      rw [hm]
      exact Nat.le_mul_of_pos_left m c.fileBlockSize_pos
    have hend : 0 + c.fileBlockSize * m = c.fileSize := by omega
    obtain ⟨file, buffer', hfile, hlength, hsize, hstamped⟩ :=
      writeBlocks_eq crc32 hblock hval (random i) hbuffer hfuel hend
    have hbuffer' : c.fileBlockSize ≤ buffer'.length := by omega
    obtain ⟨disk, hrest, hfiles, hintact⟩ := ih (i + 1) hbuffer'
    refine ⟨{ disk with files := file :: disk.files }, ?_, by simp [hfiles], ?_⟩
    · exact Option.bind_eq_some_iff.mpr ⟨_, hfile, Option.bind_eq_some_iff.mpr ⟨_, hrest, rfl⟩⟩
    · intro x hx
      obtain rfl | hx := List.mem_cons.mp hx
      · refine ⟨hsize.trans hm.symm, fun j hj => ?_⟩
        rw [hm] at hj
        have hlt : j < m := Nat.lt_of_mul_lt_mul_left (a := c.fileBlockSize) (by
          rw [Nat.mul_succ] at hj
          omega)
        simpa using hstamped j hlt
      · exact hintact x hx

/-! ## One request -/

/-- The modes with reads. -/
def Config.HasReads (c : Config) : Prop :=
  c.testMode = .read ∨ c.testMode = .rndRead ∨ c.testMode = .rndRw

/-- What the thread finds before each of its turns. -/
structure Good (c : Config) (crc32 : List UInt8 → UInt32) (disk : Disk) : Prop where
  buffer : disk.buffer.length = c.unit
  files : disk.files.length = c.numFiles
  intact : c.HasReads → ∀ file ∈ disk.files, Intact c crc32 file

/-- A data request that can be executed: it is on a file, and fits into the buffer. In a mode
with reads it is a block. -/
structure Placed (c : Config) (r : FileRequest) : Prop where
  file_lt : r.fileId < c.numFiles
  size : trailerLength ≤ r.size ∧ r.size ≤ c.unit
  pos : 0 ≤ r.pos ∧ r.pos + r.size ≤ c.fileSize
  block : c.HasReads → r.size = c.fileBlockSize ∧ ∃ j : Nat, r.pos = (c.fileBlockSize * j : Nat)
  operation : r.operation = .write ∨ r.operation = .read ∧ c.HasReads

section

variable {input : Input} {r : FileRequest} {disk disk' : Disk} {file : List UInt8}

/-- The checks of a request that stays on its file. -/
theorem fileExecuteRequest_of_inside (hfile : disk.files[r.fileId]? = some file)
    (hlt : r.fileId < c.numFiles) (hpos : 0 ≤ r.pos + r.size ∧ r.pos + r.size ≤ c.fileSize) :
    fileExecuteRequest c g crc32 input r disk =
      match r.operation with
      | .write => executeWrite c g crc32 input r disk file
      | .read => executeRead g crc32 r disk file
      | .fsync => some (executeFsync c input disk) := by
  have hsize := c.fileSize_lt
  have hsum : addLong r.pos r.size = some (r.pos + r.size) := addLong_eq_some.mpr ⟨by omega, rfl⟩
  rw [fileExecuteRequest, if_neg (by omega), hsum]
  simp only [bind, Option.bind_some, hfile]
  rw [if_neg (by omega)]
  rfl

/-- The number of files as the number of a file passes the check. -/
theorem fileExecuteRequest_behind (hfiles : disk.files.length = c.numFiles)
    (hid : r.fileId = c.numFiles) (hpos : 0 ≤ r.pos + r.size ∧ r.pos + r.size ≤ c.fileSize) :
    fileExecuteRequest c g crc32 input r disk = none := by
  have hsize := c.fileSize_lt
  have hsum : addLong r.pos r.size = some (r.pos + r.size) := addLong_eq_some.mpr ⟨by omega, rfl⟩
  have hnone : disk.files[r.fileId]? = none := List.getElem?_eq_none (by omega)
  rw [fileExecuteRequest, if_neg (by omega), hsum]
  simp only [bind, Option.bind_some]
  rw [if_neg (by omega), hnone]
  rfl

/-- A request that does not is refused. -/
theorem fileExecuteRequest_tooLarge (hle : r.fileId ≤ c.numFiles)
    (hpos : c.fileSize < r.pos + r.size ∧ r.pos + r.size < 2 ^ 63) :
    fileExecuteRequest c g crc32 input r disk =
      some (.failed "Too large position discovered in request!", disk) := by
  have hsum : addLong r.pos r.size = some (r.pos + r.size) := addLong_eq_some.mpr ⟨by omega, rfl⟩
  rw [fileExecuteRequest, if_neg (by omega), hsum]
  simp only [bind, Option.bind_some]
  rw [if_pos hpos.1]
  rfl

/-- A block that is overwritten with a stamped one leaves the file intact. -/
theorem Intact.overwrite {j : Nat} {bytes : List UInt8} (h : Intact c crc32 file)
    (hj : c.fileBlockSize * (j + 1) ≤ c.fileSize) (hbytes : bytes.length = c.fileBlockSize)
    (hstamped : Stamped crc32 (c.fileBlockSize * j : Nat) bytes) :
    Intact c crc32 (overwrite (c.fileBlockSize * j) bytes file) := by
  rw [Nat.mul_succ] at hj
  have hroom : c.fileBlockSize * j + bytes.length ≤ file.length := by
    rw [h.length, hbytes]
    exact hj
  refine ⟨(length_overwrite hroom).trans h.length, fun i hi => ?_⟩
  rcases lt_trichotomy i j with hij | rfl | hij
  · have hle : c.fileBlockSize * (i + 1) ≤ c.fileBlockSize * j := Nat.mul_le_mul_left _ hij
    rw [Nat.mul_succ] at hle
    rw [window_overwrite_of_disjoint hroom (.inl hle)]
    exact h.blocks i hi
  · have hstart : c.fileBlockSize * i ≤ file.length := by omega
    have hself := window_overwrite_self bytes hstart
    rw [hbytes] at hself
    rw [hself]
    exact hstamped
  · have hle : c.fileBlockSize * (j + 1) ≤ c.fileBlockSize * i := Nat.mul_le_mul_left _ hij
    rw [Nat.mul_succ] at hle
    rw [window_overwrite_of_disjoint hroom (.inr (by rw [hbytes]; exact hle))]
    exact h.blocks i hi

theorem executeWrite_good (hval : g.validate = true) (hgood : Good c crc32 disk)
    (hplaced : Placed c r) (hfile : disk.files[r.fileId]? = some file) :
    ∃ result disk', executeWrite c g crc32 input r disk file = some (result, disk') ∧
      result ≠ .invalid ∧ Good c crc32 disk' := by
  obtain ⟨len, hlen⟩ := Int.eq_ofNat_of_zero_le (a := r.size) (by have := hplaced.size.1; omega)
  have hsize : trailerLength ≤ len ∧ len ≤ c.unit := by
    have hsize := hplaced.size
    rw [hlen] at hsize
    exact_mod_cast hsize
  have hroom : len ≤ disk.buffer.length := by
    rw [hgood.buffer]
    exact hsize.2
  obtain ⟨filled, hfill, hlength, htake⟩ := fileFillBuffer_eq crc32 input.random r.pos hsize.1 hroom
  have hgood' : Good c crc32 ⟨filled,
      disk.files.set r.fileId (overwrite r.pos.toNat (filled.take r.size.toNat) file)⟩ := by
    refine ⟨hlength.trans hgood.buffer, List.length_set.trans hgood.files, fun hreads x hx => ?_⟩
    obtain hx | rfl := List.mem_or_eq_of_mem_set hx
    · exact hgood.intact hreads x hx
    · obtain ⟨hblock, j, hj⟩ := hplaced.block hreads
      have hend := hplaced.pos.2
      obtain rfl : len = c.fileBlockSize := by omega
      rw [hj, hlen, Int.toNat_natCast, Int.toNat_natCast, htake, hj]
      refine (hgood.intact hreads file (List.mem_of_getElem? hfile)).overwrite ?_
        (length_stamp _ _ hsize.1 _) (stamped_stamp _ _ _)
      rw [Nat.mul_succ]
      omega
  rw [executeWrite, if_pos hval, hlen, hfill]
  rw [hlen] at hgood'
  simp only [bind, Option.bind_some]
  split
  · exact ⟨_, _, rfl, by decide, hgood'⟩
  · exact ⟨_, _, rfl, by decide, hgood'⟩

/-- A read that is not short comes to what the validation says. -/
theorem executeRead_eq (hval : g.validate = true) (pos len : Nat) (hpos : r.pos = pos)
    (hlen : r.size = len) (hfull : pos + len ≤ file.length) (hroom : len ≤ disk.buffer.length) :
    executeRead g crc32 r disk file =
      (fileValidateBuffer crc32 len pos (window pos len file ++ disk.buffer.drop len)).bind
        fun valid => some (if valid = true then .ok else .invalid,
          ⟨window pos len file ++ disk.buffer.drop len, disk.files⟩) := by
  have hlength := length_window hfull
  rw [executeRead, hpos, hlen]
  simp only [Int.toNat_natCast, hlength, if_pos hroom, ne_eq, not_true_eq_false, if_false, hval,
    if_true]
  rfl

theorem executeRead_good (hval : g.validate = true) (hgood : Good c crc32 disk)
    (hplaced : Placed c r) (hreads : c.HasReads) (hfile : disk.files[r.fileId]? = some file) :
    ∃ disk', executeRead g crc32 r disk file = some (.ok, disk') ∧ Good c crc32 disk' := by
  obtain ⟨hblock, j, hj⟩ := hplaced.block hreads
  have hend := hplaced.pos.2
  have hsize := hplaced.size.2
  have hlt := c.fileSize_lt
  have hintact := hgood.intact hreads file (List.mem_of_getElem? hfile)
  have hstamped := hintact.blocks j (by rw [Nat.mul_succ]; omega)
  have hlength : (window (c.fileBlockSize * j) c.fileBlockSize file).length = c.fileBlockSize :=
    length_window (by rw [hintact.length]; omega)
  have hroom : c.fileBlockSize ≤ disk.buffer.length := by
    rw [hgood.buffer]
    omega
  have hvalid := valid_of_stamped (disk.buffer.drop c.fileBlockSize) hstamped ⟨by omega, by omega⟩
  rw [hlength] at hvalid
  rw [executeRead_eq hval _ _ hj hblock (by rw [hintact.length]; omega) hroom, hvalid]
  refine ⟨_, rfl, ?_, hgood.files, hgood.intact⟩
  rw [List.length_append, hlength, List.length_drop, ← hgood.buffer]
  omega

/-- **One request** is executed without being found invalid. -/
theorem fileExecuteRequest_good (hval : g.validate = true) (hgood : Good c crc32 disk)
    (hplaced : Placed c r) :
    ∃ result disk', fileExecuteRequest c g crc32 input r disk = some (result, disk') ∧
      result ≠ .invalid ∧ Good c crc32 disk' := by
  have hlt : r.fileId < disk.files.length := by
    rw [hgood.files]
    exact hplaced.file_lt
  have hfile : disk.files[r.fileId]? = some disk.files[r.fileId] := List.getElem?_eq_getElem hlt
  have hsize := hplaced.size
  have hpos := hplaced.pos
  rw [fileExecuteRequest_of_inside hfile hplaced.file_lt ⟨by omega, hpos.2⟩]
  obtain hop | ⟨hop, hreads⟩ := hplaced.operation
  · rw [hop]
    exact executeWrite_good hval hgood hplaced hfile
  · rw [hop]
    obtain ⟨disk', hread, hgood'⟩ := executeRead_good hval hgood hplaced hreads hfile
    exact ⟨.ok, disk', hread, by decide, hgood'⟩

/-- An fsync on a file is executed, whatever it returns. -/
theorem fileExecuteRequest_fsync (hgood : Good c crc32 disk) {fileId : Nat}
    (hlt : fileId < c.numFiles) :
    ∃ result, fileExecuteRequest c g crc32 input (fsyncRequest fileId) disk =
      some (result, disk) ∧ result ≠ .invalid := by
  have hlt' : (fsyncRequest fileId).fileId < disk.files.length := by
    rw [hgood.files]
    exact hlt
  rw [fileExecuteRequest_of_inside (List.getElem?_eq_getElem hlt') hlt
    ⟨le_rfl, Int.natCast_nonneg _⟩]
  simp only [fsyncRequest, executeFsync]
  split
  · exact ⟨_, rfl, by decide⟩
  · exact ⟨_, rfl, by decide⟩

end

/-! ## One thread -/

/-- The settings with which reads find what was written. -/
structure Config.Validates (c : Config) : Prop where
  product : 0 < c.fileMergedRequests → c.fileBlockSize * c.fileMergedRequests < 2 ^ 31
  empty : c.fileSize = 0 → c.Sequential ∧ c.fileMergedRequests = 0
  sequential : c.Sequential → c.Fits
  merged : c.testMode = .read → c.fileMergedRequests ≤ 1 ∨ c.fileSize ≤ c.fileBlockSize
  random : ¬ c.Sequential → Missed sbMaxRnd c.totalSize (c.numFiles * c.fileSize)
    ((c.numFiles + 1) * c.fileSize)

/-- What the next request is made up from. -/
structure Ready (c : Config) (s : State) : Prop where
  fsyncedFile_lt : s.fsyncedFile < c.numFiles
  on : c.Sequential → ∃ file k, On c file k s

theorem unit_dvd (c : Config) : c.fileBlockSize ∣ c.unit := by
  unfold Config.unit
  split
  · exact Nat.dvd_mul_right _ _
  · exact Nat.dvd_refl _

section

variable {s s' : State} {randnum : Nat}

/-- **The next sequential request** is a request that can be executed. -/
theorem placed_of_seq (hdvd : c.fileBlockSize ∣ c.fileSize) (hblock : trailerLength < c.fileBlockSize)
    (hseq : c.Sequential)
    (hmerged : c.testMode = .read → c.fileMergedRequests ≤ 1 ∨ c.fileSize ≤ c.fileBlockSize)
    {file k : Nat} {r : FileRequest} (hfile : r.fileId = file ∧ r.pos = (c.unit * k : Nat))
    (hlt : file < c.numFiles) (hsize : (0 < r.size ∧ r.size ≤ c.unit) ∧ r.pos + r.size ≤ c.fileSize)
    (hop : r.operation = seqOperation c)
    (hend : (c.unit * k : Nat) + r.size = c.fileSize ∨
      (c.unit * k : Nat) + r.size = (c.unit * (k + 1) : Nat)) : Placed c r := by
  obtain ⟨rfl, hpos⟩ := hfile
  obtain ⟨⟨hpositive, hunit⟩, hinside⟩ := hsize
  obtain ⟨len, hlen⟩ := Int.eq_ofNat_of_zero_le hpositive.le
  -- both ends of a request are ends of blocks
  have hstart : c.fileBlockSize ∣ c.unit * k := Nat.dvd_mul_right_of_dvd (unit_dvd c) k
  have hlenDvd : c.fileBlockSize ∣ len := by
    have hsum : c.fileBlockSize ∣ c.unit * k + len := by
      obtain hend | hend := hend
      · rwa [show c.unit * k + len = c.fileSize by omega]
      · rw [show c.unit * k + len = c.unit * (k + 1) by omega]
        exact Nat.dvd_mul_right_of_dvd (unit_dvd c) _
    exact (Nat.dvd_add_right hstart).mp hsum
  have hlenLe : c.fileBlockSize ≤ len := Nat.le_of_dvd (by omega) hlenDvd
  refine ⟨hlt, ⟨by omega, hunit⟩, ⟨by omega, hinside⟩, fun hreads => ?_, ?_⟩
  · have hread : c.testMode = .read := by
      unfold Config.HasReads at hreads
      unfold Config.Sequential at hseq
      rcases hseq with h | h | h <;> simp_all
    obtain ⟨j, hj⟩ := hstart
    refine ⟨?_, j, by rw [hpos, hj]⟩
    obtain hone | hone := hmerged hread
    · have hle : c.unit ≤ c.fileBlockSize := by
        unfold Config.unit
        split
        · exact le_trans (Nat.mul_le_mul_left _ hone) (Nat.mul_one _).le
        · exact le_rfl
      omega
    · omega
  · unfold seqOperation at hop
    split at hop
    · exact .inl hop
    · next hw =>
      refine .inr ⟨hop, .inl ?_⟩
      unfold Config.Sequential at hseq
      tauto

/-- A random request reads in the modes with reads only. -/
theorem rndOperation_cases (hrnd : ¬ c.Sequential) (s : State) :
    rndOperation c s = .write ∨ rndOperation c s = .read ∧ c.HasReads := by
  unfold rndOperation
  by_cases hmode : rndMode c s = .rndWrite
  · exact .inl (if_pos hmode)
  · refine .inr ⟨if_neg hmode, ?_⟩
    have hwrite : c.testMode ≠ .rndWrite := by
      intro h
      refine hmode ?_
      rw [rndMode, if_neg (by rw [h]; decide), h]
    have hne := c.testMode_ne
    unfold Config.Sequential at hrnd
    unfold Config.HasReads
    cases h : c.testMode <;> simp_all

/-- A random position is the start of a block of its file. -/
theorem tmppos_block (hdvd : c.fileBlockSize ∣ c.fileSize) (hpos : 0 < c.fileSize) (randnum : Nat) :
    ∃ j, tmppos c randnum % c.fileSize = c.fileBlockSize * j ∧
      c.fileBlockSize * j + c.fileBlockSize ≤ c.fileSize := by
  have hstart : c.fileBlockSize ∣ tmppos c randnum % c.fileSize := by
    rw [Nat.dvd_mod_iff hdvd, tmppos_eq]
    exact dvd_blockStart _ _
  have hmod := Nat.mod_lt (tmppos c randnum) hpos
  obtain ⟨j, hj⟩ := hstart
  obtain ⟨m, hm⟩ := hdvd
  refine ⟨j, hj, ?_⟩
  rw [hj, hm] at hmod
  rw [hm, ← Nat.mul_succ]
  exact Nat.mul_le_mul_left _ (Nat.lt_of_mul_lt_mul_left hmod)

/-- The file behind the last one is what some positions lead to. -/
theorem last_file_iff (hdvd : c.fileBlockSize ∣ c.fileSize) (hpos : 0 < c.fileSize)
    (hlt : randnum < sbMaxRnd) :
    tmppos c randnum / c.fileSize % 2 ^ 32 = c.numFiles ↔
      c.numFiles * c.fileSize ≤ scaled c randnum ∧
        ¬ (c.numFiles + 1) * c.fileSize ≤ scaled c randnum := by
  have hfile := file_lt hpos hlt
  have hnum := c.numFiles_lt
  have hend : ∀ k, k ≤ tmppos c randnum / c.fileSize ↔ k * c.fileSize ≤ scaled c randnum := by
    intro k
    rw [le_file_iff hpos,
      blockEnd_of_dvd c.fileBlockSize_pos (Nat.dvd_mul_left_of_dvd hdvd k)]
  rw [← hend, ← hend]
  generalize tmppos c randnum / c.fileSize = file at hfile ⊢
  omega

/-- **A random request** is refused, or can be executed. -/
theorem placed_of_rnd (hdvd : c.fileBlockSize ∣ c.fileSize) (hblock : trailerLength < c.fileBlockSize)
    (hpos : 0 < c.fileSize) (hrnd : ¬ c.Sequential)
    (hmissed : Missed sbMaxRnd c.totalSize (c.numFiles * c.fileSize)
      ((c.numFiles + 1) * c.fileSize))
    (hlt : randnum < sbMaxRnd) {r : FileRequest}
    (h : rndData c (rndOperation c s) randnum = some r) : Placed c r ∨ c.numFiles < r.fileId := by
  obtain ⟨-, rfl⟩ := rndData_eq_some.mp h
  have hunit := Nat.le_of_dvd c.unit_pos (unit_dvd c)
  obtain ⟨j, hj, hinside⟩ := tmppos_block hdvd hpos randnum
  rcases lt_trichotomy (tmppos c randnum / c.fileSize % 2 ^ 32) c.numFiles with hless | heq | hmore
  · refine .inl ⟨hless, ⟨by dsimp only; omega, by dsimp only; omega⟩, ?_, fun _ => ⟨rfl, j, ?_⟩,
      rndOperation_cases hrnd s⟩
    · dsimp only
      rw [hj]
      omega
    · dsimp only
      rw [hj]
  · -- the one number of a file that the check lets pass
    obtain ⟨hlo, hhi⟩ := (last_file_iff hdvd hpos hlt).mp heq
    exact absurd ((missed_iff sbMaxRnd_pos c.totalSize_pos).mp hmissed randnum hlt hlo) hhi
  · exact .inr hmore

theorem fsynced_lt (h : s.fsyncedFile < c.numFiles) : (s.fsynced c).fsyncedFile < c.numFiles := by
  unfold State.fsynced
  split
  · exact c.numFiles_pos
  · dsimp only
    omega

theorem Given.fsyncedFile_lt {req : Request} (hgiven : Given c g randnum s req s')
    (h : s.fsyncedFile < c.numFiles) : s'.fsyncedFile < c.numFiles := by
  cases hgiven with
  | null => exact h
  | final => exact h
  | periodic => exact fsynced_lt h
  | seq _ _ _ data =>
    rw [(seqData_frame data).2.1]
    exact h
  | rnd => exact h

/-- What a request of the thread can be. -/
inductive Fine (c : Config) : Request → Prop where
  | null : Fine c .null
  | fsync {fileId : Nat} (lt : fileId < c.numFiles) : Fine c (.file (fsyncRequest fileId))
  | placed {r : FileRequest} (placed : Placed c r) : Fine c (.file r)
  | refused {r : FileRequest} (refused : c.numFiles < r.fileId) : Fine c (.file r)

/-- **The next request** of a thread. -/
theorem fileGetRequest_fine (hdvd : c.fileBlockSize ∣ c.fileSize)
    (hblock : trailerLength < c.fileBlockSize) (hpos : 0 < c.fileSize) (hv : c.Validates)
    (g : Globals) (hlt : randnum < sbMaxRnd) (hready : Ready c s) :
    ∃ req s', fileGetRequest c g randnum s = some (req, s') ∧ Ready c s' ∧ Fine c req := by
  by_cases hseq : c.Sequential
  · obtain ⟨file, k, hon⟩ := hready.on hseq
    obtain ⟨req, s', hget, hnext⟩ := request_of_fits g hseq (hv.sequential hseq) randnum hon
    have hgiven := given_of_fileGetRequest hget
    refine ⟨req, s', hget, ⟨hgiven.fsyncedFile_lt hready.fsyncedFile_lt, fun _ => ?_⟩, ?_⟩
    · obtain ⟨-, hon'⟩ | ⟨r, -, -, -, -, hnext⟩ := hnext
      · exact ⟨file, k, hon'⟩
      · split at hnext
        · exact ⟨_, 0, hnext⟩
        · exact ⟨file, k + 1, hnext.2⟩
    · cases hgiven with
      | null => exact .null
      | final _ _ _ last => exact .fsync last
      | periodic => exact .fsync hready.fsyncedFile_lt
      | rnd _ random => exact absurd hseq random
      | seq _ _ _ data =>
        have hop := (seqData_frame data).1
        rw [data_file (by rw [hop]; exact seqOperation_ne_fsync c)] at hnext
        obtain ⟨hnone, -⟩ | ⟨r, hr, hfile, hsize, hop, hnext⟩ := hnext
        · cases hnone
        · cases hr
          refine .placed (placed_of_seq hdvd hblock hseq hv.merged hfile hon.file_lt hsize hop ?_)
          split at hnext
          · exact .inl ‹_›
          · exact .inr hnext.1
  · have hget : ∃ req s', fileGetRequest c g randnum s = some (req, s') := by
      rw [fileGetRequest, if_neg hseq, fileGetRndRequest]
      obtain ⟨req, s', hfirst, -⟩ | ⟨-, -, hfirst⟩ := fsyncFirst_cases c g
        (c.testMode = .rndWrite ∨ c.testMode = .rndRw ∨ c.testMode = .mixed) true s
      · exact ⟨req, s', hfirst _⟩
      · rw [hfirst, rndData_eq_some.mpr ⟨hpos, rfl⟩]
        exact ⟨_, _, rfl⟩
    obtain ⟨req, s', hget⟩ := hget
    have hgiven := given_of_fileGetRequest hget
    refine ⟨req, s', hget, ⟨hgiven.fsyncedFile_lt hready.fsyncedFile_lt,
      fun h => absurd h hseq⟩, ?_⟩
    cases hgiven with
    | null => exact .null
    | final _ _ _ last => exact .fsync last
    | periodic => exact .fsync hready.fsyncedFile_lt
    | seq _ sequential => exact absurd sequential hseq
    | rnd _ _ _ data =>
      exact (placed_of_rnd hdvd hblock hpos hseq (hv.random hseq) hlt data).elim .placed .refused

theorem Ready.executed (h : Ready c s) (operation : FileOp) : Ready c (s.executed operation) := by
  obtain ⟨hposition, hfile⟩ := executed_position operation s
  refine ⟨?_, fun hseq => ?_⟩
  · cases operation <;> exact h.fsyncedFile_lt
  · obtain ⟨file, k, hon⟩ := h.on hseq
    exact ⟨file, k, hon.congr hposition hfile⟩

/-- **A turn** of the thread does not find a read invalid. -/
theorem fileExecuteRequest_fine (hval : g.validate = true) {disk : Disk}
    (hgood : Good c crc32 disk) (input : Input) {r : FileRequest} (hfine : Fine c (.file r)) :
    ∃ result disk', fileExecuteRequest c g crc32 input r disk = some (result, disk') ∧
      result ≠ .invalid ∧ Good c crc32 disk' := by
  cases hfine with
  | fsync lt =>
    obtain ⟨result, hexec, hne⟩ := fileExecuteRequest_fsync hgood lt
    exact ⟨result, disk, hexec, hne, hgood⟩
  | placed placed => exact fileExecuteRequest_good hval hgood placed
  | refused refused =>
    refine ⟨.failed "Incorrect file id in request: %u", disk, ?_, by decide, hgood⟩
    rw [fileExecuteRequest, if_pos refused]
    rfl

/-- **A run of one thread** does not come to an invalid read. -/
theorem runThread_valid (hdvd : c.fileBlockSize ∣ c.fileSize)
    (hblock : trailerLength < c.fileBlockSize) (hpos : 0 < c.fileSize) (hv : c.Validates)
    (hval : g.validate = true) (inputs : List Input) {disk : Disk} (hready : Ready c s)
    (hgood : Good c crc32 disk) :
    ∃ result, runThread c g crc32 inputs s disk = some result ∧ result ≠ .invalid := by
  induction inputs generalizing s disk with
  | nil => exact ⟨.ok, rfl, by decide⟩
  | cons input inputs ih =>
    obtain ⟨req, s', hget, hready', hfine⟩ :=
      fileGetRequest_fine hdvd hblock hpos hv g input.randnum.isLt hready
    rw [runThread, hget]
    simp only [bind, Option.bind_some]
    cases req with
    | null => exact ⟨.ok, rfl, by decide⟩
    | file r =>
      obtain ⟨result, disk', hexec, hne, hgood'⟩ := fileExecuteRequest_fine hval hgood input hfine
      simp only [hexec, Option.bind_some]
      cases result with
      | ok => exact ih (hready'.executed r.operation) hgood'
      | failed format => exact ⟨.failed format, rfl, hne⟩
      | invalid => exact absurd rfl hne

end

theorem fileMaxRequestSize_eq (hproduct : 0 < c.fileMergedRequests →
    c.fileBlockSize * c.fileMergedRequests < 2 ^ 31) : c.fileMaxRequestSize = some c.unit := by
  unfold Config.fileMaxRequestSize Config.unit
  split
  · next hmerged => rw [if_pos (hproduct hmerged)]
  · rfl

/-- The first request of all comes before any fsync. -/
theorem fsyncFirst_initVars (final periodic : Bool) (data : Option (Request × State)) :
    fsyncFirst c g final periodic initVars data = data := by
  have hdone : ¬ initVars.Done g := fun h => Nat.not_lt_zero _ (Nat.lt_of_lt_of_le h.1 h.2)
  rw [fsyncFirst, if_neg hdone, if_neg fun hdue => Bool.noConfusion hdue.2.2.1]

theorem fileGetRequest_first (hseq : c.Sequential) (randnum : Nat) {size : Int}
    (hsize : seqSize c 0 = some size) (hrange : -2 ^ 63 ≤ size ∧ size < 2 ^ 63) :
    ∃ s', fileGetRequest c g randnum initVars = some (.file ⟨0, 0, size, seqOperation c⟩, s') := by
  have hpos := c.numFiles_pos
  have hrewound : (initVars.performed (seqOperation c)).rewound c =
      initVars.performed (seqOperation c) := if_neg (by simp [State.performed, initVars]; omega)
  have hsum : addLong 0 size = some (0 + size) := addLong_eq_some.mpr ⟨by omega, rfl⟩
  have hdata : seqData c (seqOperation c) (initVars.performed (seqOperation c)) = some
      (⟨0, 0, size, seqOperation c⟩,
        (initVars.performed (seqOperation c)).scrolled c (0 + size)) := by
    refine seqData_eq_some.mpr ⟨size, 0 + size, ?_, ?_, ?_, ?_⟩ <;> rw [hrewound]
    · exact hsize
    · exact hsum
    · rfl
  rw [fileGetRequest, if_pos hseq, fileGetSeqRequest, fsyncFirst_initVars, hdata]
  exact ⟨_, rfl⟩

/-- A turn that is not successful is the last one. -/
theorem runThread_cons {s s' : State} {input : Input} {inputs : List Input} {r : FileRequest}
    {disk disk' : Disk} {result : Result}
    (hget : fileGetRequest c g input.randnum s = some (.file r, s'))
    (hexec : fileExecuteRequest c g crc32 input r disk = some (result, disk'))
    (hne : result ≠ .ok) : runThread c g crc32 (input :: inputs) s disk = some result := by
  rw [runThread, hget]
  simp only [bind, Option.bind_some, hexec]

theorem runThread_stuck {s s' : State} {input : Input} {inputs : List Input} {r : FileRequest}
    {disk : Disk} (hget : fileGetRequest c g input.randnum s = some (.file r, s'))
    (hexec : fileExecuteRequest c g crc32 input r disk = none) :
    runThread c g crc32 (input :: inputs) s disk = none := by
  rw [runThread, hget]
  simp only [bind, Option.bind_some, hexec, Option.bind_none]

/-- A request of no bytes has no room for the trailer. -/
theorem fileExecuteRequest_no_bytes (hval : g.validate = true) {input : Input} {disk : Disk}
    {operation : FileOp} (hop : operation ≠ .fsync) (hfiles : 0 < disk.files.length) :
    fileExecuteRequest c g crc32 input ⟨0, 0, 0, operation⟩ disk = none := by
  have hshort : ¬ ((trailerLength : Int) ≤ 0) := by decide
  rw [fileExecuteRequest_of_inside (r := ⟨0, 0, 0, operation⟩) (List.getElem?_eq_getElem hfiles)
    c.numFiles_pos ⟨le_rfl, Int.natCast_nonneg c.fileSize⟩]
  cases operation with
  | fsync => exact absurd rfl hop
  | write =>
    have hfill : fileFillBuffer crc32 input.random 0 0 disk.buffer = none :=
      if_neg fun h => hshort h.1
    simp only [executeWrite, hval, if_true, hfill]
    rfl
  | read =>
    have hvalidate : ∀ buffer, fileValidateBuffer crc32 0 0 buffer = none :=
      fun buffer => if_neg fun h => hshort h.1
    dsimp only
    rw [executeRead_eq hval 0 0 rfl rfl (Nat.zero_le _) (Nat.zero_le _), Int.natCast_zero,
      hvalidate]
    rfl

/-- Without merged requests, a test on empty files ends with its first request. -/
theorem runThread_empty (hseq : c.Sequential) (hmerged : c.fileMergedRequests = 0)
    (hempty : c.fileSize = 0) (inputs : List Input) (disk : Disk) :
    ∃ result, runThread c g crc32 inputs initVars disk = some result ∧ result ≠ .invalid := by
  cases inputs with
  | nil => exact ⟨.ok, rfl, by decide⟩
  | cons input inputs =>
    have hblock := c.fileBlockSize_pos
    have hlt := c.fileBlockSize_lt
    have hsize : seqSize c 0 = some (c.fileBlockSize : Int) := if_neg (by omega)
    obtain ⟨s', hget⟩ := fileGetRequest_first (g := g) hseq input.randnum hsize
      ⟨by omega, by omega⟩
    have hlarge : (c.fileSize : Int) < 0 + (c.fileBlockSize : Int) ∧
        0 + (c.fileBlockSize : Int) < 2 ^ 63 := ⟨by omega, by omega⟩
    have hexec : fileExecuteRequest c g crc32 input ⟨0, 0, c.fileBlockSize, seqOperation c⟩ disk =
        some (.failed "Too large position discovered in request!", disk) :=
      fileExecuteRequest_tooLarge c.numFiles_pos.le hlarge
    exact ⟨_, runThread_cons hget hexec (by decide), by decide⟩

/-- The start of a run: a buffer, and files with the blocks of `create_files`. -/
theorem prepareAndRun_eq (crc32 : List UInt8 → UInt32) (hdvd : c.fileBlockSize ∣ c.fileSize)
    (hblock : trailerLength < c.fileBlockSize) (hval : g.validate = true)
    (hproduct : 0 < c.fileMergedRequests → c.fileBlockSize * c.fileMergedRequests < 2 ^ 31)
    (fresh : Nat → UInt8) (random : Nat → Int → Nat → UInt8) :
    ∃ disk, (∀ inputs, prepareAndRun c g crc32 fresh random inputs =
        runThread c g crc32 inputs initVars disk) ∧
      disk.buffer.length = c.unit ∧ disk.files.length = c.numFiles ∧
      (c.testMode ≠ .write → ∀ file ∈ disk.files, Intact c crc32 file) := by
  have hlength : ((List.range c.unit).map fresh).length = c.unit := by
    rw [List.length_map, List.length_range]
  have hbuffer : sbMemalign c fresh = some ((List.range c.unit).map fresh) := by
    rw [sbMemalign, fileMaxRequestSize_eq hproduct]
    rfl
  have hroom : c.fileBlockSize ≤ ((List.range c.unit).map fresh).length := by
    rw [hlength]
    exact Nat.le_of_dvd c.unit_pos (unit_dvd c)
  obtain ⟨disk, hcreate, hfiles, hintact⟩ :=
    createFrom_eq crc32 hdvd hblock hval random c.numFiles 0 hroom
  refine ⟨filePrepare c { disk with buffer := (List.range c.unit).map fresh }, ?_, ?_, ?_, ?_⟩
  · intro inputs
    rw [prepareAndRun, hbuffer]
    simp only [bind, Option.bind_some, createFiles, hcreate]
  · unfold filePrepare
    split <;> exact hlength
  · unfold filePrepare
    split
    · rw [List.length_map]
      exact hfiles
    · exact hfiles
  · intro hwrite
    rw [filePrepare, if_neg hwrite]
    exact hintact

/-- **Validation holds** for settings with which reads find what was written. -/
theorem prepareAndRun_valid (hdvd : c.fileBlockSize ∣ c.fileSize)
    (hblock : trailerLength < c.fileBlockSize) (hv : c.Validates) (hval : g.validate = true)
    (fresh : Nat → UInt8) (random : Nat → Int → Nat → UInt8) (inputs : List Input) :
    ∃ result, prepareAndRun c g crc32 fresh random inputs = some result ∧ result ≠ .invalid := by
  obtain ⟨disk, hstart, hbuffer, hfiles, hintact⟩ := prepareAndRun_eq crc32 hdvd hblock hval
    hv.product fresh random
  rw [hstart]
  rcases Nat.eq_zero_or_pos c.fileSize with hempty | hpos
  · exact runThread_empty (hv.empty hempty).1 (hv.empty hempty).2 hempty inputs disk
  · refine runThread_valid hdvd hblock hpos hv hval inputs
      ⟨c.numFiles_pos, fun _ => ⟨0, 0, on_initVars hpos⟩⟩ ⟨hbuffer, hfiles, fun hreads => ?_⟩
    refine hintact ?_
    unfold Config.HasReads at hreads
    rcases hreads with h | h | h <;> rw [h] <;> decide

/-! ## What a valid run needs -/

/-- No limit on the number of requests, with validation. -/
def validating : Globals := { endless with validate := true }

/-- No run is undefined, or comes to an invalid read. -/
def NeverInvalid (c : Config) (crc32 : List UInt8 → UInt32) : Prop :=
  ∀ (g : Globals) (fresh : Nat → UInt8) (random : Nat → Int → Nat → UInt8) (inputs : List Input),
    g.validate = true →
    ∃ result, prepareAndRun c g crc32 fresh random inputs = some result ∧ result ≠ .invalid

theorem NeverInvalid.product (h : NeverInvalid c crc32) :
    0 < c.fileMergedRequests → c.fileBlockSize * c.fileMergedRequests < 2 ^ 31 := by
  intro hmerged
  obtain ⟨result, hrun, -⟩ := h validating (fun _ => 0) (fun _ _ _ => 0) [] rfl
  obtain ⟨buffer, hbuffer, -⟩ := Option.bind_eq_some_iff.mp hrun
  obtain ⟨size, hsize, -⟩ := Option.map_eq_some_iff.mp hbuffer
  rw [Config.fileMaxRequestSize, if_pos hmerged] at hsize
  split at hsize
  · assumption
  · cases hsize

/-- The files of a run, and that the thread is never stuck on them. -/
theorem NeverInvalid.disk (h : NeverInvalid c crc32) (hdvd : c.fileBlockSize ∣ c.fileSize)
    (hblock : trailerLength < c.fileBlockSize) :
    ∃ disk, (∀ inputs, ∃ result, runThread c validating crc32 inputs initVars disk = some result ∧
        result ≠ .invalid) ∧
      disk.buffer.length = c.unit ∧ disk.files.length = c.numFiles ∧
      (c.testMode ≠ .write → ∀ file ∈ disk.files, Intact c crc32 file) := by
  obtain ⟨disk, hstart, hrest⟩ := prepareAndRun_eq (g := validating) crc32 hdvd hblock rfl
    h.product (fun _ => 0) (fun _ _ _ => 0)
  refine ⟨disk, fun inputs => ?_, hrest⟩
  obtain ⟨result, hrun, hne⟩ := h validating (fun _ => 0) (fun _ _ _ => 0) inputs rfl
  rw [hstart] at hrun
  exact ⟨result, hrun, hne⟩

/-- The first merged request. -/
theorem seqSize_first (hmerged : 0 < c.fileMergedRequests)
    (hproduct : c.fileBlockSize * c.fileMergedRequests < 2 ^ 31) :
    seqSize c 0 = some ((min c.unit c.fileSize : Nat) : Int) := by
  have hunit : c.unit < 2 ^ 31 := by
    rw [Config.unit, if_pos hmerged]
    exact hproduct
  have hstop : addLong 0 c.unit = some (0 + c.unit : Int) := addLong_eq_some.mpr ⟨by omega, rfl⟩
  rw [seqSize, if_pos hmerged, fileMaxRequestSize_eq fun _ => hproduct]
  refine Option.bind_eq_some_iff.mpr ⟨_, rfl, Option.bind_eq_some_iff.mpr ⟨_, hstop, ?_⟩⟩
  refine congrArg some ?_
  split <;> omega

theorem NeverInvalid.empty (h : NeverInvalid c crc32) (hdvd : c.fileBlockSize ∣ c.fileSize)
    (hblock : trailerLength < c.fileBlockSize) (hempty : c.fileSize = 0) :
    c.Sequential ∧ c.fileMergedRequests = 0 := by
  obtain ⟨disk, hrun, -, hfiles, -⟩ := h.disk hdvd hblock
  let input : Input := ⟨⟨0, by decide⟩, fun _ => 0, true⟩
  obtain ⟨result, hsome, -⟩ := hrun [input]
  by_cases hseq : c.Sequential
  · refine ⟨hseq, ?_⟩
    by_contra hmerged
    -- a request of no bytes has no room for the trailer
    have hsize := seqSize_first (Nat.pos_of_ne_zero hmerged) (h.product (Nat.pos_of_ne_zero hmerged))
    rw [hempty, Nat.min_zero] at hsize
    obtain ⟨s', hget⟩ := fileGetRequest_first (g := validating) hseq input.randnum hsize
      ⟨by decide, by decide⟩
    have hlt : 0 < disk.files.length := by
      rw [hfiles]
      exact c.numFiles_pos
    rw [runThread_stuck hget (fileExecuteRequest_no_bytes rfl (seqOperation_ne_fsync c) hlt)] at hsome
    cases hsome
  · have hnone : fileGetRequest c validating input.randnum initVars = none := by
      rw [fileGetRequest, if_neg hseq, fileGetRndRequest, fsyncFirst_initVars, rndData,
        if_pos hempty]
      rfl
    rw [runThread, hnone] at hsome
    cases hsome

/-- **A merged read** of more than a block is invalid: its trailer is the one of its last
block. -/
theorem NeverInvalid.merged (h : NeverInvalid c crc32) (hdvd : c.fileBlockSize ∣ c.fileSize)
    (hblock : trailerLength < c.fileBlockSize) (hread : c.testMode = .read) :
    c.fileMergedRequests ≤ 1 ∨ c.fileSize ≤ c.fileBlockSize := by
  by_contra hlarge
  obtain ⟨hmerged, hfile⟩ : 2 ≤ c.fileMergedRequests ∧ c.fileBlockSize < c.fileSize := by omega
  obtain ⟨disk, hrun, hbuffer, hfiles, hintact⟩ := h.disk hdvd hblock
  have hseq : c.Sequential := .inr (.inr hread)
  have hsize := seqSize_first (by omega) (h.product (by omega))
  have hlt := c.fileSize_lt
  have hop : seqOperation c = .read := if_neg (by rw [hread]; decide)
  -- the request has blocks before its last one
  have hunit : c.fileBlockSize < c.unit := by
    rw [Config.unit, if_pos (by omega)]
    exact (Nat.lt_mul_iff_one_lt_right c.fileBlockSize_pos).mpr hmerged
  obtain ⟨t, ht⟩ : ∃ t, min c.unit c.fileSize = c.fileBlockSize * (t + 1) ∧ 0 < t := by
    have hmin : c.fileBlockSize ∣ min c.unit c.fileSize := by
      rcases Nat.le_total c.unit c.fileSize with hle | hle
      · rw [Nat.min_eq_left hle]
        exact unit_dvd c
      · rw [Nat.min_eq_right hle]
        exact hdvd
    obtain ⟨q, hq⟩ := hmin
    have hmore : 1 < q := Nat.lt_of_mul_lt_mul_left (a := c.fileBlockSize) (by
      rw [← hq, Nat.mul_one]
      omega)
    exact ⟨q - 1, by rw [hq, Nat.sub_add_cancel (by omega)], by omega⟩
  have hfits : c.fileBlockSize * (t + 1) ≤ c.fileSize := ht.1 ▸ Nat.min_le_right _ _
  have hroom : c.fileBlockSize * (t + 1) ≤ disk.buffer.length := by
    rw [hbuffer, ← ht.1]
    exact Nat.min_le_left _ _
  rw [ht.1] at hsize
  have hfirst : 0 < disk.files.length := by
    rw [hfiles]
    exact c.numFiles_pos
  have hin := hintact (by rw [hread]; decide) _ (List.getElem_mem hfirst)
  have hinvalid := invalid_of_stamped 0
    (window 0 (c.fileBlockSize * t) disk.files[0])
    (disk.buffer.drop (c.fileBlockSize * (t + 1))) (hin.blocks t hfits) ⟨by omega, by
      rw [Nat.mul_succ] at hfits
      omega⟩ (by
      have := Nat.mul_pos c.fileBlockSize_pos ht.2
      omega)
  have hbytes : window 0 (c.fileBlockSize * t) disk.files[0] ++
      window (c.fileBlockSize * t) c.fileBlockSize disk.files[0] =
        window 0 (c.fileBlockSize * (t + 1)) disk.files[0] := by
    rw [Nat.mul_succ, window_add, Nat.zero_add]
  have hfull : 0 + c.fileBlockSize * (t + 1) ≤ disk.files[0].length := by
    rw [hin.length, Nat.zero_add]
    exact hfits
  rw [hbytes, length_window hfull] at hinvalid
  let input : Input := ⟨⟨0, by decide⟩, fun _ => 0, true⟩
  obtain ⟨s', hget⟩ := fileGetRequest_first (g := validating) hseq input.randnum hsize
    ⟨by omega, by omega⟩
  have hexec : ∃ disk', fileExecuteRequest c validating crc32 input
      ⟨0, 0, (c.fileBlockSize * (t + 1) : Nat), seqOperation c⟩ disk = some (.invalid, disk') := by
    rw [fileExecuteRequest_of_inside (r := ⟨0, 0, (c.fileBlockSize * (t + 1) : Nat), seqOperation c⟩)
      (List.getElem?_eq_getElem hfirst) c.numFiles_pos ⟨by dsimp only; omega, by dsimp only; omega⟩]
    simp only [hop]
    rw [executeRead_eq rfl 0 _ rfl rfl hfull hroom, Int.natCast_zero, hinvalid]
    exact ⟨_, rfl⟩
  obtain ⟨disk', hexec⟩ := hexec
  obtain ⟨result, hsome, hne⟩ := hrun [input]
  rw [runThread_cons hget hexec (by decide)] at hsome
  exact hne (Option.some.inj hsome).symm

/-- **A request on the file behind the last one** is undefined. -/
theorem NeverInvalid.random (h : NeverInvalid c crc32) (hdvd : c.fileBlockSize ∣ c.fileSize)
    (hblock : trailerLength < c.fileBlockSize) (hrnd : ¬ c.Sequential) :
    Missed sbMaxRnd c.totalSize (c.numFiles * c.fileSize) ((c.numFiles + 1) * c.fileSize) := by
  have hpos : 0 < c.fileSize := by
    by_contra hzero
    exact hrnd (h.empty hdvd hblock (Nat.eq_zero_of_not_pos hzero)).1
  obtain ⟨disk, hrun, -, hfiles, -⟩ := h.disk hdvd hblock
  refine (missed_iff sbMaxRnd_pos c.totalSize_pos).mpr fun randnum hlt hlo => ?_
  by_contra hhi
  have hid := (last_file_iff hdvd hpos hlt).mpr ⟨hlo, hhi⟩
  obtain ⟨j, hj, hinside⟩ := tmppos_block hdvd hpos randnum
  let input : Input := ⟨⟨randnum, hlt⟩, fun _ => 0, true⟩
  have hget : fileGetRequest c validating input.randnum initVars = some
      (.file ⟨c.numFiles, (c.fileBlockSize * j : Nat), c.fileBlockSize, rndOperation c initVars⟩,
        initVars.performed (rndOperation c initVars)) := by
    rw [fileGetRequest, if_neg hrnd, fileGetRndRequest, fsyncFirst_initVars,
      rndData_eq_some.mpr ⟨hpos, rfl⟩, hid, hj]
    rfl
  have hexec : fileExecuteRequest c validating crc32 input ⟨c.numFiles, (c.fileBlockSize * j : Nat),
      c.fileBlockSize, rndOperation c initVars⟩ disk = none :=
    fileExecuteRequest_behind hfiles rfl ⟨by dsimp only; omega, by dsimp only; omega⟩
  obtain ⟨result, hsome, -⟩ := hrun [input]
  rw [runThread_stuck hget hexec] at hsome
  cases hsome

/-- A write that succeeds. -/
theorem executeWrite_ok {input : Input} (hok : input.fsyncOk = true) {r : FileRequest}
    {disk disk' : Disk} {file : List UInt8} {result : Result}
    (h : executeWrite c g crc32 input r disk file = some (result, disk')) :
    result = .ok ∧ disk'.files.length = disk.files.length := by
  have hnot : ¬ (c.fileFsyncAll = true ∧ input.fsyncOk = false) :=
    fun hfailed => Bool.noConfusion (hok.symm.trans hfailed.2)
  have hwritten : ∀ filled : Option (List UInt8), (filled.bind fun buffer => some (Result.ok,
      Disk.mk buffer (disk.files.set r.fileId
        (overwrite r.pos.toNat (buffer.take r.size.toNat) file)))) = some (result, disk') →
      result = .ok ∧ disk'.files.length = disk.files.length := by
    intro filled hfilled
    obtain ⟨buffer, -, hrest⟩ := Option.bind_eq_some_iff.mp hfilled
    cases hrest
    exact ⟨rfl, List.length_set⟩
  unfold executeWrite at h
  simp only [if_neg hnot] at h
  split at h
  · exact hwritten _ h
  · split at h
    · exact hwritten _ h
    · exact hwritten none h

/-- A successful turn leaves the rest of the run. -/
theorem runThread_ok {s s' : State} {input : Input} {inputs : List Input} {r : FileRequest}
    {disk disk' : Disk} (hget : fileGetRequest c g input.randnum s = some (.file r, s'))
    (hexec : fileExecuteRequest c g crc32 input r disk = some (.ok, disk')) :
    runThread c g crc32 (input :: inputs) s disk =
      runThread c g crc32 inputs (s'.executed r.operation) disk' := by
  rw [runThread, hget]
  simp only [bind, Option.bind_some, hexec]

/-- A turn that is not undefined executes its request. -/
theorem exec_of_runThread {s s' : State} {input : Input} {inputs : List Input} {r : FileRequest}
    {disk : Disk} {result : Result}
    (hget : fileGetRequest c g input.randnum s = some (.file r, s'))
    (h : runThread c g crc32 (input :: inputs) s disk = some result) :
    ∃ result' disk', fileExecuteRequest c g crc32 input r disk = some (result', disk') := by
  by_contra hnone
  have hexec : fileExecuteRequest c g crc32 input r disk = none := by
    rw [Option.eq_none_iff_forall_ne_some]
    rintro ⟨result', disk'⟩ heq
    exact hnone ⟨result', disk', heq⟩
  rw [runThread_stuck hget hexec] at h
  cases h

/-- A state of a merged sequential write from which the thread is never stuck. -/
structure NeverStuck (c : Config) (crc32 : List UInt8 → UInt32) (s : State) : Prop where
  position : 0 ≤ s.position ∧ s.position ≤ c.fileSize
  currentFile : s.currentFile ≤ c.numFiles
  fsyncedFile : s.fsyncedFile < c.numFiles
  runs : ∃ disk, disk.files.length = c.numFiles ∧
    ∀ inputs, ∃ result, runThread c validating crc32 inputs s disk = some result

/-- **A merged request stays on its file**, and so does the position behind it. -/
theorem seqData_merged (hmerged : 0 < c.fileMergedRequests) {operation : FileOp} {s s' : State}
    {r : FileRequest} (hposition : 0 ≤ s.position ∧ s.position ≤ c.fileSize)
    (hfile : s.currentFile ≤ c.numFiles) (h : seqData c operation s = some (r, s')) :
    (r.fileId < c.numFiles ∧ 0 ≤ r.pos + r.size ∧ r.pos + r.size ≤ c.fileSize) ∧
      (0 ≤ s'.position ∧ s'.position ≤ c.fileSize) ∧ s'.currentFile ≤ c.numFiles := by
  have hpos := c.numFiles_pos
  obtain ⟨size, position, hsize, hsum, rfl, rfl⟩ := seqData_eq_some.mp h
  obtain ⟨-, rfl⟩ := addLong_eq_some.mp hsum
  have hsize' := seqSize_merged hmerged hsize
  have hrewound : (s.rewound c).currentFile < c.numFiles ∧
      0 ≤ (s.rewound c).position ∧ (s.rewound c).position ≤ c.fileSize := by
    unfold State.rewound
    split
    · exact ⟨hpos, le_rfl, Int.natCast_nonneg _⟩
    · exact ⟨by omega, hposition⟩
  have hstop : 0 ≤ (s.rewound c).position + size ∧ (s.rewound c).position + size ≤ c.fileSize := by
    split at hsize' <;> omega
  refine ⟨⟨hrewound.1, hstop⟩, ?_⟩
  unfold State.scrolled
  split
  · exact ⟨⟨le_rfl, Int.natCast_nonneg _⟩, hrewound.1⟩
  · exact ⟨hstop, hrewound.1.le⟩

theorem NeverStuck.next (hseq : c.Sequential) (hwrite : c.testMode ≠ .read)
    (hmerged : 0 < c.fileMergedRequests) {s : State} (h : NeverStuck c crc32 s) :
    ∃ req s' operation, fileGetRequest c validating 0 s = some (req, s') ∧
      NeverStuck c crc32 (s'.executed operation) := by
  obtain ⟨hposition, hfile, hfsynced, disk, hfiles, hruns⟩ := h
  let input : Input := ⟨⟨0, by decide⟩, fun _ => 0, true⟩
  have hnotDone : ¬ s.Done validating := fun hdone => Nat.lt_irrefl 0 hdone.1
  have hop : seqOperation c = .write := by
    unfold Config.Sequential at hseq
    exact if_pos (by tauto)
  obtain ⟨result, hrun⟩ := hruns [input]
  obtain ⟨⟨req, s'⟩, hget, -⟩ := Option.bind_eq_some_iff.mp hrun
  change fileGetRequest c validating input.randnum s = some (req, s') at hget
  have hgiven := given_of_fileGetRequest hget
  have hfsynced' := hgiven.fsyncedFile_lt hfsynced
  cases hgiven with
  | null done => exact absurd done hnotDone
  | final done => exact absurd done hnotDone
  | rnd _ random => exact absurd hseq random
  | periodic _ due =>
    have hlt : s.fsyncedFile < disk.files.length := hfiles ▸ hfsynced
    have hexec : fileExecuteRequest c validating crc32 input (fsyncRequest s.fsyncedFile) disk =
        some (.ok, disk) := by
      rw [fileExecuteRequest_of_inside (r := fsyncRequest s.fsyncedFile)
        (List.getElem?_eq_getElem hlt) hfsynced ⟨le_rfl, Int.natCast_nonneg _⟩]
      exact congrArg some (if_pos (.inr rfl))
    have hmoved : (s.fsynced c).position = s.position ∧
        (s.fsynced c).currentFile = s.currentFile := by
      unfold State.fsynced
      split <;> exact ⟨rfl, rfl⟩
    refine ⟨_, _, .fsync, hget, hmoved.1 ▸ hposition, hmoved.2 ▸ hfile, hfsynced', disk, hfiles,
      fun inputs => ?_⟩
    obtain ⟨result, hrest⟩ := hruns (input :: inputs)
    rw [runThread_ok hget hexec] at hrest
    exact ⟨result, hrest⟩
  | @seq r _ _ _ _ data =>
    obtain ⟨⟨hlt, hinside⟩, hposition', hfile'⟩ := seqData_merged hmerged
      (s := s.performed (seqOperation c)) hposition hfile data
    obtain ⟨result', disk', hexec⟩ := exec_of_runThread hget hrun
    have hwritten := hexec
    have hr : r.operation = .write := (seqData_frame data).1.trans hop
    rw [fileExecuteRequest_of_inside (List.getElem?_eq_getElem (hfiles ▸ hlt)) hlt hinside,
      hr] at hwritten
    obtain ⟨rfl, hfiles'⟩ := executeWrite_ok rfl hwritten
    refine ⟨_, s', .write, hget, hposition', hfile', hfsynced', disk', hfiles'.trans hfiles,
      fun inputs => ?_⟩
    obtain ⟨result, hrest⟩ := hruns (input :: inputs)
    rw [runThread_ok hget hexec, hr] at hrest
    exact ⟨result, hrest⟩

theorem NeverInvalid.sequential (h : NeverInvalid c crc32) (hdvd : c.fileBlockSize ∣ c.fileSize)
    (hblock : trailerLength < c.fileBlockSize) (hseq : c.Sequential) : c.Fits := by
  by_cases hmerged : c.fileMergedRequests = 0
  · exact .inl ⟨hmerged, hdvd⟩
  have hproduct := h.product (Nat.pos_of_ne_zero hmerged)
  have hpos : 0 < c.fileSize := by
    by_contra hzero
    exact hmerged (h.empty hdvd hblock (Nat.eq_zero_of_not_pos hzero)).2
  by_cases hread : c.testMode = .read
  · refine .inr ⟨Nat.pos_of_ne_zero hmerged, hproduct, ?_⟩
    have hlt := c.fileSize_lt
    have hover : c.fileBlockSize * c.fileMergedRequests *
        ((c.fileSize - 1) / (c.fileBlockSize * c.fileMergedRequests)) ≤ c.fileSize - 1 :=
      Nat.mul_div_le _ _
    rw [Nat.mul_succ]
    obtain hone | hsmall := h.merged hdvd hblock hread
    · -- the requests are blocks, and blocks divide the file
      have hmul : c.fileBlockSize * c.fileMergedRequests = c.fileBlockSize := by
        rw [show c.fileMergedRequests = 1 by omega, Nat.mul_one]
      rw [hmul] at hover ⊢
      obtain ⟨m, hm⟩ := hdvd
      have hless : (c.fileSize - 1) / c.fileBlockSize < m :=
        Nat.lt_of_mul_lt_mul_left (a := c.fileBlockSize) (by omega)
      have hle := Nat.mul_le_mul_left c.fileBlockSize hless
      rw [Nat.mul_succ] at hle
      omega
    · have hunit := Nat.le_mul_of_pos_right c.fileBlockSize (Nat.pos_of_ne_zero hmerged)
      rw [Nat.div_eq_of_lt (by omega)]
      omega
  · obtain ⟨disk, hrun, -, hfiles, -⟩ := h.disk hdvd hblock
    have hstart : NeverStuck c crc32 initVars := by
      refine ⟨⟨le_rfl, Int.natCast_nonneg _⟩, Nat.zero_le _, c.numFiles_pos, disk, hfiles, ?_⟩
      intro inputs
      obtain ⟨result, hsome, -⟩ := hrun inputs
      exact ⟨result, hsome⟩
    have hgo : GoesOn c validating (NeverStuck c crc32) := by
      refine ⟨rfl, hstart, fun hs => ?_⟩
      obtain ⟨req, s', operation, hget, hnext⟩ := hs.next hseq hread (Nat.pos_of_ne_zero hmerged)
      exact ⟨req, s', operation, hget, hnext, fun hzero => absurd hzero hmerged⟩
    exact hgo.fits hseq hpos

end TokuQa.Sysbench.FileIo
