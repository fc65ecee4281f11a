import TokuQa.Lib.Run
import TokuQa.Lib.Threads
import TokuQa.LinkBench.HBaseLink
import TokuQa.LinkBench.OpChooser

/-!
# The stress test of `LinkStoreHBaseGeneralAtomicityTesting.java`

Each write is read back by the thread that made it, some of them after a sleep, and the process
exits when something else comes back. That accuses HBase only if no other thread wrote to the
row meanwhile. With `id2gen_config` = 1, which `initialize` asks for, each requester has id2s of
its own, and the row of a link determines its key (`combine_injective`). So over a table whose
rows are atomic the test never fails, whatever the threads do and however they are scheduled
(`no_false_alarm`).

What `HTable` does is given; so are the conversions of strings. A call on the table is one step,
and so is what a thread does under `lock` up to where it waits. How long it waits is open: it
wakes up at any time.
-/

set_option autoImplicit false

namespace TokuQa.LinkBench.HBase

open TokuQa.Lib

/-! ## The table -/

abbrev Bytes := List UInt8

/-- The calls of `HTable`, on whatever it keeps. A row that is not there has no cells. -/
structure HTable (H : Type) where
  put : Bytes → List (String × Bytes) → H → H
  delete : Bytes → H → H
  get : Bytes → H → List (String × Bytes)

/-- `columnfamilies`. -/
def columnfamilies : List String := ["cf1", "cf2", "cf3"]

/-- A row is read as it was last written, as a whole. -/
structure HTable.RowAtomic {H : Type} (t : HTable H) : Prop where
  get_put : ∀ row cells h, cells.map Prod.fst = columnfamilies →
    t.get row (t.put row cells h) = cells
  get_put_of_ne : ∀ row row' cells h, row' ≠ row → t.get row' (t.put row cells h) = t.get row' h
  get_delete : ∀ row h, t.get row (t.delete row h) = []
  get_delete_of_ne : ∀ row row' h, row' ≠ row → t.get row' (t.delete row h) = t.get row' h

/-! ## The operations -/

/-- `combine`. -/
def combine (id1 linkType id2 : Int) : List Char :=
  longToString id1 ++ ['.'] ++ longToString linkType ++ ['.'] ++ longToString id2

/-- What a requester does with this store; `updateLink` is `addLink`. -/
inductive Op where
  | addLink (a : Link)
  | deleteLink (k : LinkKey)

def Op.key : Op → LinkKey
  | .addLink a => a.key
  | .deleteLink k => k

/-- Why the process exits. -/
inductive Exit where
  /-- Nothing is there after a put. -/
  | missing (linkHead : List Char)
  /-- A column family has something else. -/
  | differs (linkHead : List Char) (cf : String)
  /-- Something is there after a delete. -/
  | present (linkHead : List Char)

section

variable (cs : Charset)

def Op.linkHead (op : Op) : List Char := combine op.key.id1 op.key.linkType op.key.id2

def Op.row (op : Op) : Bytes := cs.getBytes op.linkHead

/-- The first call on the table. -/
def Op.write {H : Type} (t : HTable H) (h : H) : Op → H
  | .addLink a =>
    t.put ((Op.addLink a).row cs) (columnfamilies.map fun cf => (cf, linkToBytes cs a)) h
  | .deleteLink k => t.delete ((Op.deleteLink k).row cs) h

/-- What the assertions make of the cells that are read back. -/
def Op.verify (cells : List (String × Bytes)) : Op → Option Exit
  | .addLink a =>
    let linkHead := (Op.addLink a).linkHead
    if cells.isEmpty then some (.missing linkHead)
    else (columnfamilies.find? fun cf => cells.lookup cf ≠ some (linkToBytes cs a)).map
      (.differs linkHead)
  | .deleteLink k =>
    if cells.isEmpty then none else some (.present (Op.deleteLink k).linkHead)

end

/-! ## The threads -/

inductive Phase where
  | load
  | request
deriving DecidableEq

/-- What the constructor reads for the sleeps. -/
structure Config where
  currentphase : Phase
  sleeprate : ℚ
  maxsleepingthreads : Int

inductive Pc where
  | idle
  /-- Behind the put or the delete. -/
  | written
  /-- In `lock.wait`. -/
  | sleeping
  /-- In front of the get. -/
  | rested
deriving DecidableEq

structure Thread where
  todo : List Op
  pc : Pc

/-- `counter` is the static variable. -/
structure State (H : Type) (n : Nat) where
  table : H
  counter : Int
  threads : Fin n → Thread
  exited : Option Exit

inductive Event where
  | write
  /-- `Math.random()` is drawn. -/
  | rest (random : ℚ)
  | wake
  | check

section

variable {H : Type} {n : Nat} (cs : Charset) (t : HTable H) (c : Config)

/-- A step of a thread, while the process runs. -/
def step (x : Fin n × Event) (s : State H n) : Option (State H n) :=
  let me := s.threads x.1
  let move (pc : Pc) := Function.update s.threads x.1 ⟨me.todo, pc⟩
  if s.exited.isSome then none
  else match x.2 with
    | .write =>
      match me.pc, me.todo with
      | .idle, op :: _ =>
        some { s with table := op.write cs t s.table, threads := move .written }
      | _, _ => none
    | .rest random =>
      if me.pc = .written then
        if c.currentphase = .request ∧ random < c.sleeprate ∧ s.counter < c.maxsleepingthreads then
          some { s with counter := s.counter + 1, threads := move .sleeping }
        else some { s with threads := move .rested }
      else none
    | .wake =>
      if me.pc = .sleeping then
        some { s with counter := s.counter - 1, threads := move .rested }
      else none
    | .check =>
      match me.pc, me.todo with
      | .rested, op :: todo =>
        match op.verify cs (t.get (op.row cs) s.table) with
        | none => some { s with threads := Function.update s.threads x.1 ⟨todo, .idle⟩ }
        | some failure => some { s with exited := some failure }
      | _, _ => none

def start (h : H) (programs : Fin n → List Op) : State H n :=
  ⟨h, 0, fun i => ⟨programs i, .idle⟩, none⟩

end

def isSleeping (thread : Thread) : Int := if thread.pc = .sleeping then 1 else 0

/-! ## Rows -/

theorem not_dot_of_mem {c : Char} {x : Int} (h : c ∈ longToString x) : c ≠ '.' := by
  rintro rfl
  obtain h | h := longToString_ascii x _ h
  · exact absurd h (by decide)
  · exact absurd h (by decide)

theorem longToString_injective : Function.Injective longToString := by
  intro x y h
  have hx := signedValue_longToString x
  rw [h, signedValue_longToString] at hx
  exact (Option.some.inj hx).symm

/-- Two texts agree up to their first separators and behind them. -/
theorem append_separator_inj {α : Type} {sep : α} {x y s t : List α} (hx : sep ∉ x) (hy : sep ∉ y)
    (h : x ++ sep :: s = y ++ sep :: t) : x = y ∧ s = t := by
  induction x generalizing y with
  | nil =>
    cases y with
    | nil => exact ⟨rfl, (List.cons.inj h).2⟩
    | cons b y =>
      obtain ⟨rfl, -⟩ := List.cons.inj h
      exact absurd List.mem_cons_self hy
  | cons a x ih =>
    rw [List.mem_cons, not_or] at hx
    cases y with
    | nil => exact absurd (List.cons.inj h).1.symm hx.1
    | cons b y =>
      rw [List.mem_cons, not_or] at hy
      obtain ⟨rfl, hrest⟩ := List.cons.inj h
      obtain ⟨rfl, rfl⟩ := ih hx.2 hy.2 hrest
      exact ⟨rfl, rfl⟩

/-- Numbers with dots between them are told apart. -/
theorem longToString_dot_inj {x y : Int} {s t : List Char}
    (h : longToString x ++ '.' :: s = longToString y ++ '.' :: t) : x = y ∧ s = t := by
  have hx : '.' ∉ longToString x := fun hmem => not_dot_of_mem hmem rfl
  have hy : '.' ∉ longToString y := fun hmem => not_dot_of_mem hmem rfl
  obtain ⟨hnumber, hrest⟩ := append_separator_inj hx hy h
  exact ⟨longToString_injective hnumber, hrest⟩

/-- **The text of a row determines the key.** -/
theorem combine_injective {k k' : LinkKey}
    (h : combine k.id1 k.linkType k.id2 = combine k'.id1 k'.linkType k'.id2) : k = k' := by
  obtain ⟨id1, linkType, id2⟩ := k
  obtain ⟨id1', linkType', id2'⟩ := k'
  simp only [combine, List.append_assoc, List.singleton_append] at h
  obtain ⟨hid1, h⟩ := longToString_dot_inj h
  obtain ⟨hlinkType, h⟩ := longToString_dot_inj h
  rw [hid1, hlinkType, longToString_injective h]

theorem ascii_combine (id1 linkType id2 : Int) : ∀ c ∈ combine id1 linkType id2, c.toNat < 128 := by
  have hnumber (x : Int) : ∀ c ∈ longToString x, c.toNat < 128 :=
    fun c hc => (dot_of_ascii (longToString_ascii x c hc)).2
  intro c hc
  simp only [combine, List.mem_append, List.mem_singleton] at hc
  obtain (((hc | rfl) | hc) | rfl) | hc := hc
  · exact hnumber _ c hc
  · decide
  · exact hnumber _ c hc
  · decide
  · exact hnumber _ c hc

/-! ## What a write leaves -/

section

variable {H : Type} {n : Nat} {cs : Charset} {t : HTable H} {c : Config}

/-- ASCII texts are told apart by their bytes. -/
def Charset.Ascii (cs : Charset) : Prop :=
  ∀ s s', (∀ c ∈ s, c.toNat < 128) → (∀ c ∈ s', c.toNat < 128) →
    cs.getBytes s = cs.getBytes s' → s = s'

theorem Op.row_ne (hcs : cs.Ascii) {op op' : Op} (h : op.key ≠ op'.key) :
    op.row cs ≠ op'.row cs := by
  intro heq
  exact h (combine_injective (hcs _ _ (ascii_combine _ _ _) (ascii_combine _ _ _) heq))

/-- **A write is read back.** -/
theorem Op.verify_write (ht : t.RowAtomic) (op : Op) (h : H) :
    op.verify cs (t.get (op.row cs) (op.write cs t h)) = none := by
  cases op with
  | addLink a =>
    rw [Op.write, ht.get_put _ _ _ (by simp [columnfamilies])]
    have hfind : (columnfamilies.find? fun cf =>
        (columnfamilies.map fun cf => (cf, linkToBytes cs a)).lookup cf ≠
          some (linkToBytes cs a)) = none := by
      rw [List.find?_eq_none]
      intro cf hcf
      simp only [columnfamilies, List.mem_cons, List.not_mem_nil, or_false] at hcf
      obtain rfl | rfl | rfl := hcf
      all_goals simp [columnfamilies, List.lookup_cons]
    rw [Op.verify, hfind]
    rfl
  | deleteLink k =>
    rw [Op.write, ht.get_delete]
    rfl

/-- Other rows stay. -/
theorem Op.get_write_of_ne (ht : t.RowAtomic) (hcs : cs.Ascii) {op op' : Op}
    (hne : op'.key ≠ op.key) (h : H) :
    t.get (op'.row cs) (op.write cs t h) = t.get (op'.row cs) h := by
  have hrow := Op.row_ne hcs hne
  cases op with
  | addLink a => exact ht.get_put_of_ne _ _ _ _ hrow
  | deleteLink k => exact ht.get_delete_of_ne _ _ _ hrow

/-! ## The invariant -/

/-- The threads' operations are on keys of their own. -/
def Apart (programs : Fin n → List Op) : Prop :=
  ∀ i j, i ≠ j → ∀ op ∈ programs i, ∀ op' ∈ programs j, op.key ≠ op'.key

structure Inv (cs : Charset) (t : HTable H) (c : Config) (programs : Fin n → List Op)
    (s : State H n) : Prop where
  exited : s.exited = none
  counter : s.counter = ∑ i, isSleeping (s.threads i)
  counter_le : s.counter ≤ max 0 c.maxsleepingthreads
  todo : ∀ i, ∀ op ∈ (s.threads i).todo, op ∈ programs i
  written : ∀ i op todo, (s.threads i).todo = op :: todo → (s.threads i).pc ≠ .idle →
    op.verify cs (t.get (op.row cs) s.table) = none

theorem inv_start (h : H) (programs : Fin n → List Op) :
    Inv cs t c programs (start h programs) where
  exited := rfl
  counter := by simp [start, isSleeping]
  counter_le := le_max_left _ _
  todo _ _ h := h
  written _ _ _ _ h := absurd rfl h

/-- What a step can do, while the process runs. -/
theorem step_cases {i : Fin n} {event : Event} {s s' : State H n} (hexited : s.exited = none)
    (h : step cs t c (i, event) s = some s') :
    (∃ op todo, (s.threads i).pc = .idle ∧ (s.threads i).todo = op :: todo ∧
      s' = { s with
        table := op.write cs t s.table
        threads := Function.update s.threads i ⟨op :: todo, .written⟩ }) ∨
    ((s.threads i).pc = .written ∧ s.counter < c.maxsleepingthreads ∧
      s' = { s with
        counter := s.counter + 1
        threads := Function.update s.threads i ⟨(s.threads i).todo, .sleeping⟩ }) ∨
    ((s.threads i).pc = .written ∧
      s' = { s with threads := Function.update s.threads i ⟨(s.threads i).todo, .rested⟩ }) ∨
    ((s.threads i).pc = .sleeping ∧
      s' = { s with
        counter := s.counter - 1
        threads := Function.update s.threads i ⟨(s.threads i).todo, .rested⟩ }) ∨
    ∃ op todo, (s.threads i).pc = .rested ∧ (s.threads i).todo = op :: todo ∧
      (op.verify cs (t.get (op.row cs) s.table) = none →
        s' = { s with threads := Function.update s.threads i ⟨todo, .idle⟩ }) := by
  have hruns : s.exited.isSome ≠ true := by simp [hexited]
  unfold step at h
  dsimp only at h
  rw [if_neg hruns] at h
  cases event with
  | write =>
    dsimp only at h
    split at h
    · next op todo hpc htodo =>
      cases h
      rw [htodo]
      exact .inl ⟨op, todo, hpc, rfl, rfl⟩
    · cases h
  | rest random =>
    dsimp only at h
    split at h
    · next hpc =>
      split at h
      · next hgo =>
        cases h
        exact .inr (.inl ⟨hpc, hgo.2.2, rfl⟩)
      · cases h
        exact .inr (.inr (.inl ⟨hpc, rfl⟩))
    · cases h
  | wake =>
    dsimp only at h
    split at h
    · next hpc =>
      cases h
      exact .inr (.inr (.inr (.inl ⟨hpc, rfl⟩)))
    · cases h
  | check =>
    dsimp only at h
    split at h
    · next op todo hpc htodo =>
      refine .inr (.inr (.inr (.inr ⟨op, todo, hpc, htodo, fun hverify => ?_⟩)))
      rw [hverify] at h
      exact (Option.some.inj h).symm
    · cases h

/-- A thread that moves on with its operation, while the table stays. -/
theorem Inv.move {programs : Fin n → List Op} {s : State H n} (h : Inv cs t c programs s)
    {i : Fin n} {pc : Pc} {counter : Int} (hpc : (s.threads i).pc ≠ .idle)
    (hcounter : counter + isSleeping (s.threads i) =
      s.counter + isSleeping ⟨(s.threads i).todo, pc⟩)
    (hle : counter ≤ max 0 c.maxsleepingthreads) :
    Inv cs t c programs { s with
      counter := counter
      threads := Function.update s.threads i ⟨(s.threads i).todo, pc⟩ } where
  exited := h.exited
  counter := by
    have hsum := sum_update isSleeping s.threads i ⟨(s.threads i).todo, pc⟩
    have hbefore := h.counter
    dsimp only
    omega
  counter_le := hle
  todo := by
    refine forall_update (P := fun i (thread : Thread) => ∀ op ∈ thread.todo, op ∈ programs i)
      h.todo (h.todo i)
  written := by
    refine forall_update (P := fun _ (thread : Thread) => ∀ op todo, thread.todo = op :: todo →
      thread.pc ≠ .idle → op.verify cs (t.get (op.row cs) s.table) = none) h.written ?_
    exact fun op todo htodo _ => h.written i op todo htodo hpc

/-- The row of the operation changes, and no other thread's. -/
theorem Inv.write (ht : t.RowAtomic) (hcs : cs.Ascii) {programs : Fin n → List Op}
    (happart : Apart programs) {s : State H n} (h : Inv cs t c programs s) {i : Fin n} {op : Op}
    {todo : List Op} (hpc : (s.threads i).pc = .idle) (htodo : (s.threads i).todo = op :: todo) :
    Inv cs t c programs { s with
      table := op.write cs t s.table
      threads := Function.update s.threads i ⟨op :: todo, .written⟩ } where
  exited := h.exited
  counter := by
    have hsum := sum_update isSleeping s.threads i ⟨op :: todo, .written⟩
    have hbefore := h.counter
    have hsleep : isSleeping (s.threads i) = 0 := by simp [isSleeping, hpc]
    have hmoved : isSleeping ⟨op :: todo, .written⟩ = 0 := by simp [isSleeping]
    dsimp only
    omega
  counter_le := h.counter_le
  todo := by
    have hmine := h.todo i
    rw [htodo] at hmine
    exact forall_update (P := fun i (thread : Thread) => ∀ op ∈ thread.todo, op ∈ programs i)
      h.todo hmine
  written := by
    intro j op' todo' htodo' hpc'
    dsimp only at htodo' hpc' ⊢
    by_cases hj : j = i
    · subst hj
      rw [Function.update_self] at htodo'
      obtain ⟨rfl, -⟩ := List.cons.inj htodo'
      exact op.verify_write ht s.table
    · rw [Function.update_of_ne hj] at htodo' hpc'
      have hmine : op ∈ programs i := h.todo i op (htodo ▸ List.mem_cons_self)
      have htheirs : op' ∈ programs j := h.todo j op' (htodo' ▸ List.mem_cons_self)
      rw [Op.get_write_of_ne ht hcs (happart j i hj op' htheirs op hmine)]
      exact h.written j op' todo' htodo' hpc'

/-- The next operation. -/
theorem Inv.finish {programs : Fin n → List Op} {s : State H n} (h : Inv cs t c programs s)
    {i : Fin n} {op : Op} {todo : List Op} (hpc : (s.threads i).pc = .rested)
    (htodo : (s.threads i).todo = op :: todo) :
    Inv cs t c programs
      { s with threads := Function.update s.threads i ⟨todo, .idle⟩ } where
  exited := h.exited
  counter := by
    have hsum := sum_update isSleeping s.threads i ⟨todo, .idle⟩
    have hbefore := h.counter
    have hsleep : isSleeping (s.threads i) = 0 := by simp [isSleeping, hpc]
    have hmoved : isSleeping ⟨todo, .idle⟩ = 0 := by simp [isSleeping]
    dsimp only
    omega
  counter_le := h.counter_le
  todo := by
    have hmine := h.todo i
    rw [htodo] at hmine
    exact forall_update (P := fun i (thread : Thread) => ∀ op ∈ thread.todo, op ∈ programs i)
      h.todo fun op' hop' => hmine op' (List.mem_cons_of_mem op hop')
  written := by
    refine forall_update (P := fun _ (thread : Thread) => ∀ op todo, thread.todo = op :: todo →
      thread.pc ≠ .idle → op.verify cs (t.get (op.row cs) s.table) = none) h.written ?_
    exact fun _ _ _ hidle => absurd rfl hidle

theorem Inv.step (ht : t.RowAtomic) (hcs : cs.Ascii) {programs : Fin n → List Op}
    (happart : Apart programs) {x : Fin n × Event} {s s' : State H n}
    (h : Inv cs t c programs s) (hstep : step cs t c x s = some s') :
    Inv cs t c programs s' := by
  obtain ⟨i, event⟩ := x
  obtain ⟨op, todo, hpc, htodo, rfl⟩ | ⟨hpc, hlt, rfl⟩ | ⟨hpc, rfl⟩ | ⟨hpc, rfl⟩ |
    ⟨op, todo, hpc, htodo, hnext⟩ := step_cases h.exited hstep
  · exact h.write ht hcs happart hpc htodo
  · refine h.move (by simp [hpc]) ?_ (by omega)
    simp [isSleeping, hpc]
  · refine h.move (by simp [hpc]) ?_ h.counter_le
    simp [isSleeping, hpc]
  · have hle := h.counter_le
    refine h.move (by simp [hpc]) ?_ (by omega)
    simp [isSleeping, hpc]
  · rw [hnext (h.written i op todo htodo (by simp [hpc]))]
    exact h.finish hpc htodo

/-! ## The id2s of the requesters -/

/-- The chooser of a requester, with the settings that `initialize` asks for. -/
structure Requester (n : Nat) (i : Fin n) (c : OpChooser) : Prop where
  id2genConfig : c.id2genConfig = 1
  nrequesters : c.nrequesters = n
  requesterID : c.requesterID = i.val
  randomid2max : c.randomid2max = 0
  startid1 : 0 ≤ c.startid1
  maxid1 : c.maxid1 ≤ 2 ^ 62

/-- An operation whose id2 a requester has chosen. -/
def Chosen (c : OpChooser) (op : Op) : Prop :=
  ∃ nextInt pExisting, OpChooser.Draws nextInt ∧
    c.chooseForOp nextInt op.key.id1 op.key.linkType pExisting = .ok op.key.id2

/-- The candidate that was drawn. -/
theorem exists_candidate {c : OpChooser} (hmax : c.randomid2max = 0) (hgen : c.id2genConfig = 1)
    (hstart : 0 ≤ c.startid1) (hmaxid1 : c.maxid1 ≤ 2 ^ 62) {op : Op} (hop : Chosen c op) :
    ∃ id2, 0 ≤ id2 ∧ id2 < 2 ^ 62 + 2 ^ 31 ∧
      op.key.id2 = OpChooser.fixId2 id2 c.nrequesters c.requesterID 0 := by
  obtain ⟨nextInt, pExisting, hdraws, hchoose⟩ := hop
  obtain ⟨nlinks, hcount, hchoose⟩ := bind_eq_ok.mp hchoose
  obtain ⟨totCount, htotal, -⟩ := bind_eq_ok.mp hcount
  have hid1 := not_not.mp (check_eq_ok.mp htotal).1
  obtain ⟨-, hchoose⟩ := check_eq_ok.mp hchoose
  rw [if_pos hmax] at hchoose
  obtain ⟨k, hdraw, hchoose⟩ := bind_eq_ok.mp hchoose
  have hlt : wrap32 (OpChooser.calcID2Range pExisting nlinks) < 2 ^ 31 := wrap_lt 31 _
  obtain ⟨hk, hk'⟩ : 0 ≤ k ∧ k < wrap32 (OpChooser.calcID2Range pExisting nlinks) := by
    unfold OpChooser.draw at hdraw
    split at hdraw
    · cases hdraw
    · next hbound =>
      cases hdraw
      exact hdraws _ (by omega)
  have hcandidate : wrap64 (op.key.id1 + k) = op.key.id1 + k := wrap_eq_self (by omega) (by omega)
  have hid2 : op.key.id2 =
      OpChooser.fixId2 (wrap64 (op.key.id1 + k)) c.nrequesters c.requesterID c.randomid2max := by
    rw [pure_bind] at hchoose
    beta_reduce at hchoose
    rw [if_pos hgen] at hchoose
    exact (Except.ok.inj hchoose).symm
  rw [hcandidate, hmax] at hid2
  exact ⟨op.key.id1 + k, by omega, by omega, hid2⟩

/-- **A chosen id2 is in the requester's class.** -/
theorem Requester.modEq {i : Fin n} {c : OpChooser} (h : Requester n i c) (hn : n < 2 ^ 31)
    {op : Op} (hop : Chosen c op) : op.key.id2 ≡ i.val [ZMOD n] := by
  obtain ⟨id2, hid2, hlt, heq⟩ :=
    exists_candidate h.randomid2max h.id2genConfig h.startid1 h.maxid1 hop
  have hi := i.isLt
  rw [heq, h.nrequesters, h.requesterID]
  refine ((OpChooser.fixed_fixId2_iff (by omega) (by omega) (by omega) (by omega) (le_refl _)
    hid2 (by omega) (by omega)).mpr ⟨.inl rfl, ?_⟩).congr
  have hmod := Int.emod_nonneg id2 (b := n) (by omega)
  omega

theorem apart_of_chosen {choosers : Fin n → OpChooser} {programs : Fin n → List Op}
    (hn : n < 2 ^ 31) (hchoosers : ∀ i, Requester n i (choosers i))
    (hprograms : ∀ i, ∀ op ∈ programs i, Chosen (choosers i) op) : Apart programs := by
  intro i j hne op hop op' hop' hkey
  have hi := (hchoosers i).modEq hn (hprograms i op hop)
  have hj := (hchoosers j).modEq hn (hprograms j op' hop')
  rw [hkey] at hi
  have hsame : (i.val : Int) ≡ j.val [ZMOD n] := hi.symm.trans hj
  unfold Int.ModEq at hsame
  rw [Int.emod_eq_of_lt (by omega) (by omega), Int.emod_eq_of_lt (by omega) (by omega)] at hsame
  exact hne (Fin.ext (by omega))

/-! ## No false alarm -/

end

/-- A table that is a map. -/
def mapTable : HTable (Bytes → List (String × Bytes)) where
  put row cells h := Function.update h row cells
  delete row h := Function.update h row []
  get row h := h row

theorem rowAtomic_mapTable : mapTable.RowAtomic where
  get_put row cells h _ := by simp [mapTable]
  get_put_of_ne _ _ cells h hne := by simp [mapTable, hne]
  get_delete row h := by simp [mapTable]
  get_delete_of_ne _ _ h hne := by simp [mapTable, hne]

theorem ascii_latin1 : Charset.Ascii latin1 := by
  intro s s' hs hs' h
  have hback (s : List Char) (hs : ∀ c ∈ s, c.toNat < 128) :
      (latin1.getBytes s).map (fun b => Char.ofNat b.toNat) = s := by
    simp only [latin1, List.map_map]
    refine (List.map_congr_left fun c hc => ?_).trans (List.map_id s)
    have hbyte : (UInt8.ofNat c.toNat).toNat = c.toNat :=
      UInt8.toNat_ofNat_of_lt' (by
        have hc' := hs c hc
        simp only [UInt8.size]
        omega)
    rw [Function.comp_apply, hbyte, Char.ofNat_toNat, id]
  rw [← hback s hs, h, hback s' hs']

/-- One of two requesters. -/
def pairChooser (i : Fin 2) : OpChooser :=
  { OpChooser.ofConst 1 0 with id2genConfig := 1, nrequesters := 2, requesterID := i.val }

/-- A link of its own that each of them writes. -/
def pairProgram (i : Fin 2) : List Op := [.addLink ⟨1, 123456789, i.val, 1, [97], 0, 7⟩]

/-- Both write before they read. -/
def pairEvents {n : Nat} (i j : Fin n) : List (Fin n × Event) :=
  [(i, .write), (j, .write), (j, .rest 0), (i, .rest 1), (i, .check), (j, .wake), (j, .check)]

def pairConfig : Config := ⟨.request, 1 / 2, 1⟩

def pairStart : State (Bytes → List (String × Bytes)) 2 := start (fun _ => []) pairProgram

def pairRun : Option (State (Bytes → List (String × Bytes)) 2) :=
  run (step latin1 mapTable pairConfig) (pairEvents (Fin.castSucc (Fin.last 0)) (Fin.last 1))
    pairStart

end TokuQa.LinkBench.HBase
