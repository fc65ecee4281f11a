import Mathlib.Data.List.Perm.Subperm
import TokuQa.Lib.Run

/-!
# Asynchronous file requests

With `--file-io-mode=async` a thread puts its reads and writes into a queue of the kernel, and waits
for one of them once there are `file_async_backlog`. An operation is a block of its own, which is
freed when its event has come and is as it should be; `nrequests` is how many are under way. At the
end of the thread `file_thread_done` waits for as many events.

`file_wait` leaves its loop at the first event that is not as it should be, with this event and
those behind it neither freed nor counted, though the kernel has given all of them out. From then
on `nrequests` is too large, and the wait at the end is for more events than will ever come
(`thread_run`).
-/

set_option autoImplicit false

namespace TokuQa.Sysbench.AsyncIo

open TokuQa.Lib

/-! ## The kernel's side -/

/-- `sb_file_op_t`, of the operations that are submitted. -/
inductive FileOp where
  | fsync
  | read
  | write
deriving DecidableEq

/-- `sb_aio_oper_t`, with the address of its block. -/
structure Oper where
  addr : Nat
  type : FileOp
  len : Int
deriving DecidableEq

/-- `struct io_event`. -/
structure IoEvent where
  obj : Oper
  res : Int
deriving DecidableEq

/-- `sb_aio_context_t` of a thread, the operations that the kernel has of it, and its blocks that
are in use. `faulted` says that a block was freed that was not. -/
structure Context where
  nrequests : Nat
  kernel : List Oper
  blocks : List Nat
  faulted : Bool
deriving DecidableEq

def Context.init : Context := ⟨0, [], [], false⟩

/-- What `io_getevents` can return with: so many events, each of an operation that the kernel
has. -/
structure Answers (c : Context) (minNr maxNr : Nat) (events : List IoEvent) : Prop where
  atLeast : minNr ≤ events.length
  atMost : events.length ≤ maxNr
  given : (events.map IoEvent.obj).Subperm c.kernel

/-! ## The functions -/

/-- What is logged when a function returns 1. -/
inductive Failure where
  | allocate
  | submit
  | getevents
  | event (type : FileOp)
deriving DecidableEq

def Failure.text : Failure → String
  | allocate => "Failed to allocate AIO operation!"
  | submit => "io_submit() failed!"
  | getevents => "io_getevents() failed!"
  | event .fsync => "Asynchronous fsync failed!\n"
  | event .read => "Asynchronous read failed!\n"
  | event .write => "Asynchronous write failed!\n"

def IoEvent.passes (e : IoEvent) : Bool :=
  match e.obj.type with
  | .fsync => e.res = 0
  | .read | .write => e.res = e.obj.len

/-- `free(oper); nrequests--`, an `unsigned int`. -/
def Context.release (oper : Oper) (c : Context) : Context where
  nrequests := if c.nrequests = 0 then 2 ^ 32 - 1 else c.nrequests - 1
  kernel := c.kernel
  blocks := c.blocks.erase oper.addr
  faulted := c.faulted || !c.blocks.contains oper.addr

/-- The loop of `file_wait`. -/
def verify : List IoEvent → Context → Option Failure × Context
  | [], c => (none, c)
  | e :: es, c =>
    if e.passes then verify es (c.release e.obj) else (some (.event e.obj.type), c)

/-- The kernel gives events out. -/
def Context.reap (events : List IoEvent) (c : Context) : Context :=
  { c with kernel := c.kernel.diff (events.map IoEvent.obj) }

/-- `file_wait`, with what `io_getevents` returns: `none` is an error. -/
def fileWait (answer : Option (List IoEvent)) (c : Context) : Option Failure × Context :=
  match answer with
  | none => (some .getevents, c)
  | some events =>
    if events.length < 1 then (some .getevents, c) else verify events (c.reap events)

/-- A call of `file_submit_or_wait`: the operation, and what `malloc`, `io_submit` and
`io_getevents` return if they are called. -/
structure Call where
  type : FileOp
  len : Int
  addr : Option Nat
  accepted : Bool
  answer : Option (List IoEvent)

/-- The operation is in the queue. -/
def Context.queue (oper : Oper) (c : Context) : Context where
  nrequests := (c.nrequests + 1) % 2 ^ 32
  kernel := c.kernel ++ [oper]
  blocks := oper.addr :: c.blocks
  faulted := c.faulted

def fileSubmitOrWait (fileAsyncBacklog : Nat) (x : Call) (c : Context) :
    Option Failure × Context :=
  match x.addr with
  | none => (some .allocate, c)
  | some addr =>
    if !x.accepted then (some .submit, { c with blocks := addr :: c.blocks })
    else
      let c := c.queue ⟨addr, x.type, x.len⟩
      if c.nrequests < fileAsyncBacklog then (none, c) else fileWait x.answer c

/-- `file_thread_done`. The wait is for `nrequests` events. -/
def fileThreadDone (answer : Option (List IoEvent)) (c : Context) : Option Failure × Context :=
  if c.nrequests > 0 then fileWait answer c else (none, c)

/-! ## Runs -/

/-- `malloc` gives a block that is not in use, and `io_getevents` what it can. -/
structure Call.Possible (fileAsyncBacklog : Nat) (x : Call) (c : Context) : Prop where
  fresh : ∀ addr, x.addr = some addr → addr ∉ c.blocks
  answers : ∀ addr events, x.addr = some addr → x.answer = some events →
    Answers (c.queue ⟨addr, x.type, x.len⟩) 1 fileAsyncBacklog events

/-- The thread goes on with its requests until one of them fails: `file_pread` and `file_pwrite`
return 0 then, which is not the size that was asked for. -/
def requestStep (fileAsyncBacklog : Nat) (x : Call) (s : Option Failure × Context) :
    Option (Option Failure × Context) :=
  if s.1 = none then some (fileSubmitOrWait fileAsyncBacklog x s.2) else none

/-! ## What is in use -/

/-- The blocks in use are those the kernel has, those of events that have come and were left, and
those that were leaked. -/
structure Held (c : Context) (left : List IoEvent) (leaked : List Nat) : Prop where
  count : c.nrequests = left.length + c.kernel.length
  blocks : c.blocks.Perm (left.map (fun e => e.obj.addr) ++ (c.kernel.map Oper.addr ++ leaked))
  nodup : c.blocks.Nodup
  sound : c.faulted = false

section

variable {c : Context} {left : List IoEvent} {leaked : List Nat} {backlog : Nat}

theorem held_init : Held .init [] [] := ⟨rfl, .nil, List.nodup_nil, rfl⟩

theorem nrequests_release (oper : Oper) (hpos : 0 < c.nrequests) :
    (c.release oper).nrequests = c.nrequests - 1 :=
  if_neg hpos.ne'

/-- An event that passes: its block is in use, and is freed once. -/
theorem Held.release {e : IoEvent} (h : Held c (e :: left) leaked) :
    Held (c.release e.obj) left leaked := by
  have hcount := h.count
  rw [List.length_cons] at hcount
  have hblocks := h.blocks
  rw [List.map_cons, List.cons_append] at hblocks
  have hmem : e.obj.addr ∈ c.blocks := hblocks.mem_iff.mpr List.mem_cons_self
  refine ⟨?_, ?_, h.nodup.erase _, ?_⟩
  · have hkernel : (c.release e.obj).kernel = c.kernel := rfl
    rw [nrequests_release e.obj (by omega), hkernel]
    omega
  · have herase := hblocks.erase e.obj.addr
    rw [List.erase_cons_head] at herase
    exact herase
  · simp [Context.release, h.sound, hmem]

/-- **The loop** leaves nothing of the events, or those from the first bad one on. -/
theorem Held.verify {events : List IoEvent} (h : Held c events leaked) :
    ∃ left, Held (verify events c).2 left leaked ∧
      (verify events c).2.kernel = c.kernel ∧ (verify events c).2.nrequests ≤ c.nrequests ∧
      ((left = [] ∧ (verify events c).1 = none ∧ ∀ e ∈ events, e.passes) ∨
        (left ≠ [] ∧ (∃ type, (verify events c).1 = some (.event type)) ∧
          ¬ ∀ e ∈ events, e.passes)) := by
  induction events generalizing c with
  | nil => exact ⟨[], h, rfl, le_refl _, .inl ⟨rfl, rfl, fun _ he => absurd he List.not_mem_nil⟩⟩
  | cons e es ih =>
    by_cases he : e.passes = true
    · have hstep : AsyncIo.verify (e :: es) c = AsyncIo.verify es (c.release e.obj) := if_pos he
      have hless : (c.release e.obj).nrequests ≤ c.nrequests := by
        have hcount := h.count
        rw [List.length_cons] at hcount
        rw [nrequests_release e.obj (by omega)]
        omega
      rw [hstep]
      obtain ⟨left, hheld, hkernel, hle, hcases⟩ := ih h.release
      refine ⟨left, hheld, hkernel, hle.trans hless, hcases.imp ?_ ?_⟩
      · rintro ⟨hleft, hnone, hall⟩
        exact ⟨hleft, hnone, List.forall_mem_cons.mpr ⟨he, hall⟩⟩
      · rintro ⟨hleft, hsome, hall⟩
        exact ⟨hleft, hsome, fun h => hall (List.forall_mem_cons.mp h).2⟩
    · have hstep : AsyncIo.verify (e :: es) c = (some (.event e.obj.type), c) := if_neg he
      rw [hstep]
      refine ⟨e :: es, h, rfl, le_refl _, .inr ⟨List.cons_ne_nil _ _, ⟨_, rfl⟩, fun h => he ?_⟩⟩
      exact h e List.mem_cons_self

/-- An operation comes into the queue. -/
theorem Held.queue (h : Held c left leaked) (oper : Oper) (hnew : oper.addr ∉ c.blocks)
    (hlt : c.nrequests + 1 < 2 ^ 32) : Held (c.queue oper) left leaked := by
  have hkernel : (c.queue oper).kernel = c.kernel ++ [oper] := rfl
  refine ⟨?_, ?_, List.nodup_cons.mpr ⟨hnew, h.nodup⟩, h.sound⟩
  · have hcount : (c.queue oper).nrequests = c.nrequests + 1 := Nat.mod_eq_of_lt hlt
    rw [hcount, hkernel, List.length_append, h.count]
    rfl
  · have hcons : (oper.addr :: c.blocks).Perm (oper.addr ::
        (left.map (fun e => e.obj.addr) ++ (c.kernel.map Oper.addr ++ leaked))) :=
      h.blocks.cons oper.addr
    refine hcons.trans (List.perm_middle.symm.trans (List.Perm.append_left _ ?_))
    rw [hkernel, List.map_append, List.append_assoc]
    exact List.perm_middle.symm

/-- The kernel gives out events of what it has. -/
theorem Held.reap (h : Held c [] leaked) {events : List IoEvent}
    (hgiven : (events.map IoEvent.obj).Subperm c.kernel) : Held (c.reap events) events leaked := by
  have hperm : (events.map IoEvent.obj ++ c.kernel.diff (events.map IoEvent.obj)).Perm c.kernel :=
    List.subperm_append_diff_self_of_count_le fun o _ => hgiven.count_le o
  have hkernel : (c.reap events).kernel = c.kernel.diff (events.map IoEvent.obj) := rfl
  refine ⟨?_, ?_, h.nodup, h.sound⟩
  · have hlength := hperm.length_eq
    rw [List.length_append, List.length_map] at hlength
    rw [hkernel, hlength]
    exact h.count.trans (Nat.zero_add _)
  · refine h.blocks.trans ?_
    have hmap := (hperm.map Oper.addr).symm
    rw [List.map_append, List.map_map] at hmap
    rw [List.map_nil, List.nil_append, hkernel, ← List.append_assoc]
    exact hmap.append_right leaked

/-- **A wait** whose events are as they should be leaves fewer operations, and after one that is not
some are neither freed nor counted. -/
theorem Held.fileWait {events : List IoEvent} (h : Held c [] leaked) {nreq : Nat} (hpos : 0 < nreq)
    (hanswers : Answers c nreq backlog events) :
    ∃ left, Held (fileWait (some events) c).2 left leaked ∧
      (fileWait (some events) c).2.kernel.length + events.length = c.kernel.length ∧
      (fileWait (some events) c).2.nrequests ≤ c.nrequests ∧
      ((left = [] ∧ (fileWait (some events) c).1 = none ∧ ∀ e ∈ events, e.passes) ∨
        (left ≠ [] ∧ (∃ type, (fileWait (some events) c).1 = some (.event type)) ∧
          ¬ ∀ e ∈ events, e.passes)) := by
  have hone : ¬ events.length < 1 := Nat.not_lt.mpr (hpos.trans_le hanswers.atLeast)
  have hwait : AsyncIo.fileWait (some events) c = AsyncIo.verify events (c.reap events) :=
    if_neg hone
  have hreap := h.reap hanswers.given
  rw [hwait]
  obtain ⟨left, hheld, hkernel, hle, hcases⟩ := hreap.verify
  refine ⟨left, hheld, ?_, hle, hcases⟩
  have hcount := hreap.count
  have hall := h.count
  have hsame : (c.reap events).nrequests = c.nrequests := rfl
  rw [hkernel]
  rw [List.length_nil] at hall
  omega

/-! ## Between the calls -/

/-- What is known behind a call. -/
structure Settled (backlog : Nat) (s : Option Failure × Context) (left : List IoEvent)
    (leaked : List Nat) : Prop where
  held : Held s.2 left leaked
  room : s.2.nrequests ≤ backlog
  going : s.1 = none → left = [] ∧ leaked = [] ∧ s.2.nrequests < backlog
  event : left ≠ [] ↔ ∃ type, s.1 = some (.event type)

theorem Settled.step {s s' : Option Failure × Context} {x : Call} (hlt : backlog < 2 ^ 32)
    (h : Settled backlog s left leaked) (hx : x.Possible backlog s.2)
    (hstep : requestStep backlog x s = some s') :
    ∃ left leaked, Settled backlog s' left leaked := by
  obtain ⟨failure, c⟩ := s
  cases failure with
  | some f => cases hstep
  | none =>
    cases hstep
    obtain ⟨rfl, rfl, hroom⟩ := h.going rfl
    have hheld : Held c [] [] := h.held
    have hroom' : c.nrequests < backlog := hroom
    unfold fileSubmitOrWait
    cases haddr : x.addr with
    | none => exact ⟨[], [], hheld, hroom'.le, nofun, by simp⟩
    | some addr =>
      have hnew : addr ∉ c.blocks := hx.fresh addr haddr
      cases hacc : x.accepted with
      | false =>
        -- The block of an operation that was not submitted is leaked.
        refine ⟨[], [addr], ⟨hheld.count, ?_, List.nodup_cons.mpr ⟨hnew, hheld.nodup⟩,
          hheld.sound⟩, hroom'.le, nofun, by simp⟩
        have hblocks := hheld.blocks
        rw [List.append_nil] at hblocks
        exact (hblocks.cons addr).trans (List.perm_append_singleton _ _).symm
      | true =>
        have hqueue : Held (c.queue ⟨addr, x.type, x.len⟩) [] [] :=
          hheld.queue ⟨addr, x.type, x.len⟩ hnew (by omega)
        have hcount : (c.queue ⟨addr, x.type, x.len⟩).nrequests = c.nrequests + 1 :=
          Nat.mod_eq_of_lt (by omega)
        simp only [Bool.not_true, Bool.false_eq_true, if_false]
        by_cases hless : (c.queue ⟨addr, x.type, x.len⟩).nrequests < backlog
        · rw [if_pos hless]
          exact ⟨[], [], hqueue, hless.le, fun _ => ⟨rfl, rfl, hless⟩, by simp⟩
        · rw [if_neg hless]
          have hfull : (c.queue ⟨addr, x.type, x.len⟩).nrequests ≤ backlog := by omega
          cases hanswer : x.answer with
          | none => exact ⟨[], [], hqueue, hfull, nofun, by simp [fileWait]⟩
          | some events =>
            have hans := hx.answers addr events haddr hanswer
            obtain ⟨left, hleft, hkernel, hle, hcases⟩ := hqueue.fileWait Nat.one_pos hans
            refine ⟨left, [], hleft, hle.trans hfull, ?_, ?_⟩
            · intro hnone
              obtain ⟨rfl, -, -⟩ | ⟨-, ⟨type, hsome⟩, -⟩ := hcases
              · -- At least one of the operations has come back.
                have hone := hans.atLeast
                have hall := hqueue.count
                have hrest := hleft.count
                rw [List.length_nil] at hall hrest
                exact ⟨rfl, rfl, by omega⟩
              · rw [hsome] at hnone
                cases hnone
            · obtain ⟨rfl, hnone, -⟩ | ⟨hne, hsome, -⟩ := hcases
              · simp [hnone]
              · exact iff_of_true hne hsome

/-- Everything the kernel has can come back. -/
theorem exists_answers (c : Context) (maxNr : Nat) (h : c.kernel.length ≤ maxNr) :
    Answers c c.kernel.length maxNr (c.kernel.map fun o => ⟨o, o.len⟩) := by
  refine ⟨by simp, by simpa using h, ?_⟩
  rw [List.map_map]
  exact (List.Perm.of_eq (List.map_id _)).subperm

/-- **The wait at the end** can be answered unless events were left. -/
theorem Settled.answers_iff {s : Option Failure × Context}
    (h : Settled backlog s left leaked) :
    (∃ events, Answers s.2 s.2.nrequests backlog events) ↔
      ¬ ∃ type, s.1 = some (.event type) := by
  rw [← h.event, not_not]
  constructor
  · rintro ⟨events, hanswers⟩
    have hlength := hanswers.given.length_le
    have hatLeast := hanswers.atLeast
    have hcount := h.held.count
    rw [List.length_map] at hlength
    exact List.eq_nil_of_length_eq_zero (by omega)
  · rintro rfl
    have hcount := h.held.count
    rw [List.length_nil, Nat.zero_add] at hcount
    rw [hcount]
    exact ⟨_, exists_answers s.2 backlog (hcount ▸ h.room)⟩

/-- Behind requests that have all succeeded, `file_thread_done` leaves nothing. -/
theorem Settled.fileThreadDone {c : Context} {events : List IoEvent}
    (h : Settled backlog (none, c) left leaked) (hanswers : Answers c c.nrequests backlog events)
    (hpass : ∀ e ∈ events, e.passes) : fileThreadDone (some events) c = (none, .init) := by
  obtain ⟨rfl, rfl, -⟩ := h.going rfl
  have hheld : Held c [] [] := h.held
  have hempty : ∀ c' : Context, Held c' [] [] → c'.kernel = [] → c' = .init := by
    rintro ⟨nrequests, kernel, blocks, faulted⟩ hc' rfl
    obtain rfl : nrequests = 0 := hc'.count
    obtain rfl : blocks = [] := hc'.blocks.eq_nil
    obtain rfl : faulted = false := hc'.sound
    rfl
  have hcount := hheld.count
  rw [List.length_nil, Nat.zero_add] at hcount
  unfold AsyncIo.fileThreadDone
  by_cases hpos : c.nrequests > 0
  · rw [if_pos hpos]
    obtain ⟨left, hleft, hkernel, -, hcases⟩ := hheld.fileWait hpos hanswers
    obtain ⟨rfl, hnone, -⟩ | ⟨-, -, hall⟩ := hcases
    · have hatLeast := hanswers.atLeast
      exact Prod.ext hnone (hempty _ hleft (List.eq_nil_of_length_eq_zero (by omega)))
    · exact absurd hpass hall
  · rw [if_neg hpos, hempty c hheld (List.eq_nil_of_length_eq_zero (by omega))]

end

/-- **A thread's requests**, whatever the kernel answers, up to the first one that fails. Between
them `nrequests` is how many operations the kernel has, and there is room for one more; the blocks
in use are theirs, and no block is freed twice. At the end all of them come back, unless an event
was not as it should be: then the wait of `file_thread_done` is never over. -/
theorem thread_run {fileAsyncBacklog : Nat} {xs : List Call} {s : Option Failure × Context}
    (hpos : 0 < fileAsyncBacklog) (hlt : fileAsyncBacklog < 2 ^ 32)
    (hpossible : AllSteps (requestStep fileAsyncBacklog)
      (fun x s => x.Possible fileAsyncBacklog s.2) xs (none, .init))
    (hrun : run (requestStep fileAsyncBacklog) xs (none, .init) = some s) :
    (s.1 = none → s.2.nrequests = s.2.kernel.length ∧ s.2.kernel.length < fileAsyncBacklog ∧
      s.2.blocks.Perm (s.2.kernel.map Oper.addr) ∧
      ∀ events, Answers s.2 s.2.nrequests fileAsyncBacklog events → (∀ e ∈ events, e.passes) →
        fileThreadDone (some events) s.2 = (none, .init)) ∧
    s.2.faulted = false ∧ s.2.kernel.length ≤ fileAsyncBacklog ∧
    ((∃ events, Answers s.2 s.2.nrequests fileAsyncBacklog events) ↔
      ¬ ∃ type, s.1 = some (.event type)) := by
  have hinit : ∃ left leaked, Settled fileAsyncBacklog (none, .init) left leaked :=
    ⟨[], [], held_init, Nat.zero_le _, fun _ => ⟨rfl, rfl, hpos⟩, by simp⟩
  obtain ⟨left, leaked, h⟩ := run_keeps
    (J := fun s => ∃ left leaked, Settled fileAsyncBacklog s left leaked) (by
      rintro x s s' ⟨left, leaked, h⟩ hx hstep
      exact h.step hlt hx hstep) hinit hpossible hrun
  have hcount := h.held.count
  have hroom := h.room
  refine ⟨fun hnone => ?_, h.held.sound, by omega, h.answers_iff⟩
  obtain ⟨failure, c⟩ := s
  cases hnone
  obtain ⟨rfl, rfl, hless⟩ := h.going rfl
  rw [List.length_nil, Nat.zero_add] at hcount
  have hblocks := h.held.blocks
  rw [List.append_nil] at hblocks
  exact ⟨hcount, hcount ▸ hless, hblocks, fun events hanswers hpass =>
    h.fileThreadDone hanswers hpass⟩

/-- Of two operations the first comes back too short. -/
def shortRead : List Call :=
  [⟨.read, 512, some 7, true, none⟩,
    ⟨.write, 512, some 8, true, some [⟨⟨7, .read, 512⟩, 100⟩]⟩]

theorem thread_run_short : ∃ s, run (requestStep 2) shortRead (none, .init) = some s ∧
    s.1 = some (.event .read) ∧ ¬ ∃ events, Answers s.2 s.2.nrequests 2 events := by
  have hpossible : AllSteps (requestStep 2) (fun x s => x.Possible 2 s.2) shortRead
      (none, .init) := by
    refine ⟨⟨fun addr _ => List.not_mem_nil, fun _ _ _ h => by cases h⟩, fun s' hs' => ?_⟩
    cases hs'
    refine ⟨⟨fun addr haddr => ?_, fun addr events haddr hanswer => ?_⟩, fun _ _ => trivial⟩
    · cases haddr
      decide
    · cases haddr
      cases hanswer
      exact ⟨by decide, by decide, List.singleton_subperm_iff.mpr (by decide)⟩
  have hrun : run (requestStep 2) shortRead (none, .init) =
      some (some (.event .read), ⟨2, [⟨8, .write, 512⟩], [8, 7], false⟩) := by decide
  obtain ⟨-, -, -, hend⟩ := thread_run (by decide) (by decide) hpossible hrun
  exact ⟨_, hrun, rfl, fun h => hend.mp h ⟨_, rfl⟩⟩

end TokuQa.Sysbench.AsyncIo
