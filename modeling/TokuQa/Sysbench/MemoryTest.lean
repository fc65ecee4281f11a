import Mathlib.Algebra.Order.Floor.Semiring
import Mathlib.Data.Rat.Floor
import TokuQa.Lib.Fallible
import TokuQa.Lib.JavaInt
import TokuQa.Lib.Run
import TokuQa.Sysbench.FileIo

/-!
# The memory test

`memory_get_request` hands out requests until `memory-total-size` bytes are accounted for, and
the reports print what went on since the last one. Requests and reports take `exec_mutex`
(the cumulative reports of the checkpoint thread do, and the one in the end comes when all
threads have been joined), so a run is a list of them, and which thread makes a call does not
matter.

The bytes that end the run are the bytes that a cumulative report sets to zero. If any are
counted when a checkpoint comes, the run starts over, and the next intermediate report
subtracts more than there is. Without such a report the requests are as many as the size asks
for (`transfers_of_quiet`).

A report divides by the time that has passed, which is not modelled: the difference stands for
the figure it gives. The buffers, once they are allocated, matter to the execution of a request
only.
-/

set_option autoImplicit false

namespace TokuQa.Sysbench.MemoryTest

open TokuQa.Lib
open FileIo (Failure check check_of_not)

/-! ## The settings -/

/-- `sb_mem_scope_t`. -/
inductive Scope where
  | globalScope
  | localScope
deriving DecidableEq

/-- `sb_mem_op_t`. -/
inductive Oper where
  | none
  | read
  | write
deriving DecidableEq

/-- The values of the options, as `sb_get_value_size` and `sb_get_value_string` return them. -/
structure Args where
  memoryBlockSize : UInt64
  memoryTotalSize : UInt64
  memoryScope : Option String
  memoryOper : Option String
  memoryAccessMode : Option String

/-- The settings of the test. The two sizes are signed, and all that `memory_init` has checked of
them is the one multiple. -/
@[ext] structure Config where
  blockSize : Int
  totalSize : Int
  scope : Scope
  oper : Oper
  accessRnd : Bool
  blockSize_dvd : 4 ∣ blockSize
  blockSize_ge : -2 ^ 63 ≤ blockSize
  blockSize_lt : blockSize < 2 ^ 63
  totalSize_ge : -2 ^ 63 ≤ totalSize
  totalSize_lt : totalSize < 2 ^ 63

/-- An option that is one of a few words; `strcmp` of a missing one is undefined. -/
def parseWord {α : Type} (words : List (String × α)) (format : String) (value : Option String) :
    Except Failure α :=
  match value with
  | none => .error .undefined
  | some s =>
    match words.lookup s with
    | some a => .ok a
    | none => .error (.fatal format [.str s])

def parseScope : Option String → Except Failure Scope :=
  parseWord [("global", .globalScope), ("local", .localScope)] "Invalid value for memory-scope: %s"

def parseOper : Option String → Except Failure Oper :=
  parseWord [("write", .write), ("read", .read), ("none", .none)]
    "Invalid value for memory-oper: %s"

def parseAccessMode : Option String → Except Failure Bool :=
  parseWord [("seq", false), ("rnd", true)] "Invalid value for memory-access-mode: %s"

/-- `memory_init`, up to the buffers. -/
def memoryInit (a : Args) : Except Failure Config := do
  let blockSize := wrap64 a.memoryBlockSize.toNat
  let ⟨hblock⟩ ← check (blockSize % 4 ≠ 0) "memory-block-size must be a multiple of %ld!" [.int 4]
  let totalSize := wrap64 a.memoryTotalSize.toNat
  let scope ← parseScope a.memoryScope
  let oper ← parseOper a.memoryOper
  let accessRnd ← parseAccessMode a.memoryAccessMode
  return {
    blockSize
    totalSize
    scope
    oper
    accessRnd
    blockSize_dvd := Int.dvd_of_emod_eq_zero (not_not.mp hblock)
    blockSize_ge := le_wrap 63 _
    blockSize_lt := wrap_lt 63 _
    totalSize_ge := le_wrap 63 _
    totalSize_lt := wrap_lt 63 _ }

/-- Options that are parsed into given settings. -/
def Config.args (c : Config) : Args where
  memoryBlockSize := .ofNat (c.blockSize % 2 ^ 64).toNat
  memoryTotalSize := .ofNat (c.totalSize % 2 ^ 64).toNat
  memoryScope := some (match c.scope with
    | .globalScope => "global"
    | .localScope => "local")
  memoryOper := some (match c.oper with
    | .write => "write"
    | .read => "read"
    | .none => "none")
  memoryAccessMode := some (if c.accessRnd then "rnd" else "seq")

/-- A size goes through `unsigned long long` and comes back. -/
theorem size_args {x : Int} (h : -2 ^ 63 ≤ x) (h' : x < 2 ^ 63) :
    wrap64 (UInt64.ofNat (x % 2 ^ 64).toNat).toNat = x := by
  have hlt : (x % 2 ^ 64).toNat < UInt64.size := by
    simp only [UInt64.size]
    omega
  have hnonneg : ((x % 2 ^ 64).toNat : Int) = x % 2 ^ 64 := Int.toNat_of_nonneg (by omega)
  have hself : wrap64 x = x := wrap_eq_self h h'
  rw [UInt64.toNat_ofNat_of_lt' hlt, hnonneg]
  exact (wrap_emod 63 x).trans hself

/-- **The multiple is all that settings have to be.** -/
theorem memoryInit_args (c : Config) : memoryInit c.args = .ok c := by
  have hblock : wrap64 c.args.memoryBlockSize.toNat = c.blockSize :=
    size_args c.blockSize_ge c.blockSize_lt
  have htotal : wrap64 c.args.memoryTotalSize.toNat = c.totalSize :=
    size_args c.totalSize_ge c.totalSize_lt
  have hmultiple : ¬ wrap64 c.args.memoryBlockSize.toNat % 4 ≠ 0 := by
    rw [hblock]
    exact not_not.mpr (Int.emod_eq_zero_of_dvd c.blockSize_dvd)
  have hscope : parseScope c.args.memoryScope = .ok c.scope := by
    simp only [Config.args]
    cases c.scope <;> rfl
  have hoper : parseOper c.args.memoryOper = .ok c.oper := by
    simp only [Config.args]
    cases c.oper <;> rfl
  have haccess : parseAccessMode c.args.memoryAccessMode = .ok c.accessRnd := by
    simp only [Config.args]
    cases c.accessRnd <;> rfl
  unfold memoryInit
  refine bind_eq_ok.mpr ⟨_, check_of_not hmultiple _ _, ?_⟩
  refine bind_eq_ok.mpr ⟨_, hscope, ?_⟩
  refine bind_eq_ok.mpr ⟨_, hoper, ?_⟩
  refine bind_eq_ok.mpr ⟨_, haccess, ?_⟩
  refine congrArg Except.ok (Config.ext ?_ ?_ rfl rfl rfl)
  · dsimp only
    rw [hblock]
  · dsimp only
    rw [htotal]

/-! ## Requests and reports -/

/-- `sb_mem_request_t`. -/
structure MemRequest where
  type : Oper
  blockSize : Nat
  scope : Scope
deriving DecidableEq

/-- The static variables of the test. -/
structure State where
  totalOps : Nat
  totalBytes : Int
  lastBytes : Int

def initVars : State := ⟨0, 0, 0⟩

/-- `sb_stat_t`. -/
inductive SbStat where
  | intermediate
  | cumulative

/-- What a report prints: the bytes the transfer rate is computed from; or the operations, and
the bytes unless the operation is none. -/
inductive Printed where
  | rate (bytes : Int)
  | performed (ops : Int) (bytes : Option Int)
deriving DecidableEq

/-- The sections under the mutex. -/
inductive Event where
  | getRequest
  | printStats (type : SbStat)

/-- What comes of one: a request, none at all for `SB_REQ_TYPE_NULL`, or a report. -/
inductive Answer where
  | request (req : Option MemRequest)
  | report (printed : Printed)
deriving DecidableEq

section

variable (c : Config)

/-- The one request there is; `block_size` is a `size_t`. -/
def request : MemRequest := ⟨c.oper, (c.blockSize % 2 ^ 64).toNat, c.scope⟩

def memoryGetRequest (s : State) : Option MemRequest × State :=
  if c.totalSize ≤ s.totalBytes then (none, s)
  else (some (request c),
    { s with
      totalOps := (s.totalOps + 1) % 2 ^ 32
      totalBytes := wrap64 (s.totalBytes + c.blockSize) })

/-- `total_ops` is unsigned, and printed with `%d`. -/
def memoryPrintStats (type : SbStat) (s : State) : Printed × State :=
  match type with
  | .intermediate =>
    (.rate (wrap64 (s.totalBytes - s.lastBytes)), { s with lastBytes := s.totalBytes })
  | .cumulative =>
    (.performed (wrap32 s.totalOps) (if c.oper = .none then none else some s.totalBytes),
      { s with totalOps := 0, totalBytes := 0 })

def step (e : Event) (s : State) : Answer × State :=
  match e with
  | .getRequest => ((.request (memoryGetRequest c s).1), (memoryGetRequest c s).2)
  | .printStats type => ((.report (memoryPrintStats c type s).1), (memoryPrintStats c type s).2)

/-- The requests among the answers. -/
def requests (as : List Answer) : List (Option MemRequest) :=
  as.filterMap fun
    | .request req => some req
    | .report _ => none

@[simp] theorem requests_nil : requests [] = [] := rfl

@[simp] theorem requests_request (req : Option MemRequest) (as : List Answer) :
    requests (.request req :: as) = req :: requests as := rfl

@[simp] theorem requests_report (printed : Printed) (as : List Answer) :
    requests (.report printed :: as) = requests as := rfl

/-! ## What a run should do -/

/-- The number of requests that the size asks for. -/
def requested : Nat := ⌈(c.totalSize : ℚ) / c.blockSize⌉₊

/-- With so many requests left, **they are handed out and then no others**, and no rate is
negative. -/
structure Transfers (left : Nat) (as : List Answer) : Prop where
  handedOut : requests as = List.replicate (min (requests as).length left) (some (request c)) ++
    List.replicate ((requests as).length - left) none
  rates : ∀ bytes, .report (.rate bytes) ∈ as → 0 ≤ bytes

/-- A cumulative report comes when nothing is counted. -/
def Quiet (e : Event) (s : State) : Prop :=
  match e with
  | .printStats .cumulative => s.totalBytes = 0
  | _ => True

instance instDecidableQuiet : (e : Event) → (s : State) → Decidable (Quiet e s)
  | .printStats .cumulative, s => inferInstanceAs (Decidable (s.totalBytes = 0))
  | .printStats .intermediate, _ => isTrue trivial
  | .getRequest, _ => isTrue trivial

end

section

variable {c : Config} {left : Nat} {as : List Answer}

theorem Transfers.nil : Transfers c left [] := by
  refine ⟨?_, fun _ h => (List.not_mem_nil h).elim⟩
  simp

theorem Transfers.cons_some (h : Transfers c left as) :
    Transfers c (left + 1) (.request (some (request c)) :: as) := by
  refine ⟨?_, fun bytes hmem => h.rates bytes ?_⟩
  · rw [requests_request, List.length_cons, Nat.succ_min_succ, Nat.succ_sub_succ,
      List.replicate_succ, List.cons_append, ← h.handedOut]
  · simpa using hmem

theorem Transfers.cons_none (h : Transfers c 0 as) : Transfers c 0 (.request none :: as) := by
  refine ⟨?_, fun bytes hmem => h.rates bytes ?_⟩
  · have hrest := h.handedOut
    rw [Nat.min_zero, Nat.sub_zero, List.replicate_zero, List.nil_append] at hrest ⊢
    rw [requests_request, List.length_cons, List.replicate_succ, ← hrest]
  · simpa using hmem

theorem Transfers.cons_report {printed : Printed} (h : Transfers c left as)
    (hrate : ∀ bytes, printed = .rate bytes → 0 ≤ bytes) :
    Transfers c left (.report printed :: as) := by
  refine ⟨h.handedOut, fun bytes hmem => ?_⟩
  rcases List.mem_cons.mp hmem with heq | hrest
  · exact hrate bytes (Answer.report.inj heq).symm
  · exact h.rates bytes hrest

/-! ## Runs without a report in between -/

theorem lt_requested (hblock : 0 < c.blockSize) {k : Nat} :
    k < requested c ↔ k * c.blockSize < c.totalSize := by
  have hpos : (0 : ℚ) < c.blockSize := by exact_mod_cast hblock
  rw [requested, Nat.lt_ceil, lt_div_iff₀ hpos]
  exact_mod_cast Iff.rfl

/-- **The invariant**, with so many requests left: the bytes are those of the others, and the
last report was about some of them. -/
structure Inv (c : Config) (left : Nat) (s : State) : Prop where
  left_le : left ≤ requested c
  totalBytes : s.totalBytes = (requested c - left : Nat) * c.blockSize
  lastBytes_nonneg : 0 ≤ s.lastBytes
  lastBytes_le : s.lastBytes ≤ s.totalBytes

variable {s : State}

theorem inv_initVars : Inv c (requested c) initVars := by
  refine ⟨le_rfl, ?_, le_rfl, le_rfl⟩
  rw [Nat.sub_self, Nat.cast_zero, zero_mul]
  rfl

/-- When there is nothing left, the test is over. -/
theorem Inv.getRequest_none (h : Inv c 0 s) (hblock : 0 < c.blockSize) :
    memoryGetRequest c s = (none, s) := by
  refine if_pos ?_
  rw [h.totalBytes, Nat.sub_zero]
  exact not_lt.mp fun hlt => lt_irrefl _ ((lt_requested hblock).mpr hlt)

/-- The bytes do not get past the last block, so they do not overflow. -/
theorem Inv.totalBytes_lt (h : Inv c left s) (hblock : 0 < c.blockSize)
    (hfit : requested c * c.blockSize < 2 ^ 63) : 0 ≤ s.totalBytes ∧ s.totalBytes < 2 ^ 63 := by
  have hle : ((requested c - left : Nat) : Int) ≤ requested c := by
    exact_mod_cast Nat.sub_le (requested c) left
  rw [h.totalBytes]
  exact ⟨mul_nonneg (Int.natCast_nonneg _) hblock.le,
    (mul_le_mul_of_nonneg_right hle hblock.le).trans_lt hfit⟩

/-- As long as there is something left, one is handed out. -/
theorem Inv.getRequest_some (h : Inv c (left + 1) s) (hblock : 0 < c.blockSize)
    (hfit : requested c * c.blockSize < 2 ^ 63) :
    (memoryGetRequest c s).1 = some (request c) ∧ Inv c left (memoryGetRequest c s).2 := by
  have hmore : s.totalBytes < c.totalSize := by
    rw [h.totalBytes]
    refine (lt_requested hblock).mp ?_
    have := h.left_le
    omega
  have hnext : requested c - left = requested c - (left + 1) + 1 := by
    have := h.left_le
    omega
  have hbytes : s.totalBytes + c.blockSize = (requested c - left : Nat) * c.blockSize := by
    rw [h.totalBytes, hnext]
    push_cast
    ring
  have hwrap : wrap64 (s.totalBytes + c.blockSize) = s.totalBytes + c.blockSize := by
    have hle : ((requested c - left : Nat) : Int) * c.blockSize ≤ requested c * c.blockSize :=
      mul_le_mul_of_nonneg_right (by exact_mod_cast Nat.sub_le (requested c) left) hblock.le
    have := (h.totalBytes_lt hblock hfit).1
    exact wrap_eq_self (by omega) (by omega)
  rw [memoryGetRequest, if_neg (not_le.mpr hmore)]
  refine ⟨rfl, ⟨Nat.le_of_succ_le h.left_le, ?_, h.lastBytes_nonneg, ?_⟩⟩
  · exact hwrap.trans hbytes
  · refine h.lastBytes_le.trans ?_
    dsimp only
    rw [hwrap]
    omega

/-- An intermediate report, whose rate is not negative. -/
theorem Inv.intermediate (h : Inv c left s) (hblock : 0 < c.blockSize)
    (hfit : requested c * c.blockSize < 2 ^ 63) :
    0 ≤ wrap64 (s.totalBytes - s.lastBytes) ∧
      Inv c left (memoryPrintStats c .intermediate s).2 := by
  obtain ⟨hnonneg, hlt⟩ := h.totalBytes_lt hblock hfit
  have hlow := h.lastBytes_nonneg
  have hhigh := h.lastBytes_le
  have hwrap : wrap64 (s.totalBytes - s.lastBytes) = s.totalBytes - s.lastBytes :=
    wrap_eq_self (by omega) (by omega)
  refine ⟨?_, h.left_le, h.totalBytes, hnonneg, le_rfl⟩
  rw [hwrap]
  omega

/-- A cumulative report that comes when nothing is counted sets nothing back. -/
theorem Inv.cumulative (h : Inv c left s) (hquiet : s.totalBytes = 0) :
    Inv c left (memoryPrintStats c .cumulative s).2 := by
  have hlow := h.lastBytes_nonneg
  have hhigh := h.lastBytes_le
  refine ⟨h.left_le, ?_, hlow, ?_⟩
  · exact hquiet.symm.trans h.totalBytes
  · show s.lastBytes ≤ 0
    omega

/-- The reports in the end ask for nothing. -/
theorem transfers_final (k : Nat) (s : State) :
    Transfers c left (answers (step c) (List.replicate k (.printStats .cumulative)) s).1 := by
  induction k generalizing s with
  | zero => exact Transfers.nil
  | succ k ih => exact (ih _).cons_report fun bytes h => Printed.noConfusion h

theorem Inv.transfers {es : List Event} (hblock : 0 < c.blockSize)
    (hfit : requested c * c.blockSize < 2 ^ 63) (h : Inv c left s)
    (hquiet : AllSteps (fun e s => some (step c e s).2) Quiet es s) (k : Nat) :
    Transfers c left
      (answers (step c) (es ++ List.replicate k (.printStats .cumulative)) s).1 := by
  induction es generalizing left s with
  | nil => exact transfers_final k s
  | cons e es ih =>
    obtain ⟨hnow, hlater⟩ := hquiet
    replace hlater := hlater _ rfl
    cases e with
    | getRequest =>
      cases left with
      | zero =>
        have hnone := h.getRequest_none hblock
        rw [List.cons_append, answers]
        simp only [step, hnone] at hlater ⊢
        exact (ih h hlater).cons_none
      | succ left =>
        obtain ⟨hsome, hinv⟩ := h.getRequest_some hblock hfit
        rw [List.cons_append, answers]
        simp only [step, hsome] at hlater ⊢
        exact (ih hinv hlater).cons_some
    | printStats type =>
      cases type with
      | intermediate =>
        obtain ⟨hrate, hinv⟩ := h.intermediate hblock hfit
        refine (ih hinv hlater).cons_report fun bytes hbytes => ?_
        cases hbytes
        exact hrate
      | cumulative =>
        exact (ih (h.cumulative hnow) hlater).cons_report fun _ hbytes =>
          Printed.noConfusion hbytes

/-- **The test transfers what it is asked to**, and the rates make sense, in every run whose
cumulative reports come when nothing is counted, or at the end. -/
theorem transfers_of_quiet {c : Config} (hblock : 0 < c.blockSize)
    (hfit : requested c * c.blockSize < 2 ^ 63) {es : List Event}
    (hquiet : AllSteps (fun e s => some (step c e s).2) Quiet es initVars) (k : Nat) :
    Transfers c (requested c)
      (answers (step c) (es ++ List.replicate k (.printStats .cumulative)) initVars).1 :=
  inv_initVars.transfers hblock hfit hquiet k

/-- Settings to write blocks of some size into the global buffer. -/
def settings (blockSize totalSize : Int) (hdvd : 4 ∣ blockSize)
    (hblock : 0 < blockSize ∧ blockSize < 2 ^ 63) (htotal : 0 ≤ totalSize ∧ totalSize < 2 ^ 63) :
    Config where
  blockSize := blockSize
  totalSize := totalSize
  scope := .globalScope
  oper := .write
  accessRnd := false
  blockSize_dvd := hdvd
  blockSize_ge := by omega
  blockSize_lt := hblock.2
  totalSize_ge := by omega
  totalSize_lt := htotal.2

theorem requested_settings {blockSize totalSize : Int} (hdvd : 4 ∣ blockSize)
    (hblock : 0 < blockSize ∧ blockSize < 2 ^ 63) (htotal : 0 ≤ totalSize ∧ totalSize < 2 ^ 63)
    {n : Nat} (hn : totalSize = n * blockSize) :
    requested (settings blockSize totalSize hdvd hblock htotal) = n := by
  have hpos : (blockSize : ℚ) ≠ 0 := by exact_mod_cast hblock.1.ne'
  have hquot : (totalSize : ℚ) / blockSize = n := by
    rw [hn]
    push_cast
    exact mul_div_cancel_right₀ _ hpos
  rw [requested, settings, hquot, Nat.ceil_natCast]

/-- Two blocks of one word. -/
def twoBlocks : Config := settings 4 8 (by decide) (by decide) (by decide)

theorem requested_twoBlocks : requested twoBlocks = 2 :=
  requested_settings (by decide) (by decide) (by decide) (by decide)

/-- A checkpoint before the first block is fine. -/
theorem transfers_twoBlocks :
    Transfers twoBlocks (requested twoBlocks)
      (answers (step twoBlocks)
        ([.printStats .cumulative, .getRequest, .printStats .intermediate, .getRequest,
          .getRequest] ++ List.replicate 1 (.printStats .cumulative)) initVars).1 := by
  have hfit : requested twoBlocks * twoBlocks.blockSize < 2 ^ 63 := by
    rw [requested_twoBlocks]
    decide
  exact transfers_of_quiet (by decide) hfit (by decide) 1

/-- **A checkpoint starts the run over**: two blocks are asked for and four are handed out, and
the rate after it is that of -4 bytes. -/
theorem checkpoint_starts_over :
    requested twoBlocks = 2 ∧ ∃ es : List Event,
      requests (answers (step twoBlocks) es initVars).1 =
          List.replicate 4 (some (request twoBlocks)) ++ [none] ∧
        .report (.rate (-4)) ∈ (answers (step twoBlocks) es initVars).1 ∧
        ¬ Transfers twoBlocks (requested twoBlocks) (answers (step twoBlocks) es initVars).1 := by
  refine ⟨requested_twoBlocks,
    [.getRequest, .getRequest, .printStats .intermediate, .printStats .cumulative, .getRequest,
      .printStats .intermediate, .getRequest, .getRequest], by decide, by decide, fun h => ?_⟩
  exact absurd (h.rates (-4) (by decide)) (by decide)

end

end TokuQa.Sysbench.MemoryTest
