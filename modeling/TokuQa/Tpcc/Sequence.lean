import Mathlib.Logic.Function.Basic
import TokuQa.Lib.Deck
import TokuQa.Lib.Run
import TokuQa.Lib.Threads

/-!
# `sequence.c`: the mix of the transactions

The threads of the driver draw the kind of their next transaction from one array, which
`shuffle` fills with the five kinds by their weights and permutes. When it is used up it is
shuffled again. `seq_get` does all of it under a mutex.

A step here is one of what a thread does in `seq_get`; the shuffle is one of them, for nothing
but the thread that holds the mutex touches the array. The memory of `malloc` is arbitrary, and so
is what `rand` returns: `draws i` is the draw of the loop's `i`th turn. `results` and `locks` are
read by no step: what has been drawn and by whom, and who has had the mutex.
-/

set_option autoImplicit false

namespace TokuQa.Tpcc.Sequence

open TokuQa.Lib

/-- The static variables, but for the mutex. -/
structure Shared where
  no : Nat
  py : Nat
  os : Nat
  dl : Nat
  sl : Nat
  total : Nat
  seq : List Int
  nextNum : Nat
deriving DecidableEq

/-- The loop that fills the array. -/
def fill (g : Shared) : Option (List Int) := do
  let (j, seq) ← fillFrom 0 g.no 0 g.seq
  let (j, seq) ← fillFrom 1 g.py j seq
  let (j, seq) ← fillFrom 2 g.os j seq
  let (j, seq) ← fillFrom 3 g.dl j seq
  let (_, seq) ← fillFrom 4 g.sl j seq
  return seq

/-- The loop that permutes it, from its indices `i` and `j` on. -/
def exchanges (draws : Nat → Nat) : (j i : Nat) → List Int → Option (List Int)
  | 0, _, seq => some seq
  | j + 1, i, seq => do
    let rnd := draws i % (j + 1 + 1)
    exchanges draws j (i + 1) (← exchange seq i (rnd + i))

def shuffle (draws : Nat → Nat) (g : Shared) : Option Shared := do
  let seq ← exchanges draws (g.total - 1) 0 (← fill g)
  return { g with seq := seq }

/-- `memory` is what `malloc` returns. -/
def seqInit (memory : Nat → Int) (draws : Nat → Nat) (n p o d s : Nat) : Option Shared := do
  let total := n + p + o + d + s
  let g ← shuffle draws ⟨n, p, o, d, s, total, (List.range total).map memory, 0⟩
  return { g with nextNum := 0 }

/-- Where a thread is in `seq_get`. -/
inductive Pc where
  /-- Elsewhere, or waiting for the mutex. -/
  | outside
  | locked
  /-- Behind `shuffle`. -/
  | shuffled
  /-- Behind the refill. -/
  | ready
  /-- It has read `seq[next_num]`. -/
  | taken (retval : Int)
  | counted (retval : Int)
deriving DecidableEq

structure System (τ : Type) where
  shared : Shared
  owner : Option τ
  pc : τ → Pc
  results : List (τ × Int)
  locks : List τ

variable {τ : Type} [DecidableEq τ]

def start (g : Shared) : System τ := ⟨g, none, fun _ => .outside, [], []⟩

/-- The thread `t` goes on to `pc`. -/
def System.goto (s : System τ) (t : τ) (pc : Pc) : System τ :=
  { s with pc := Function.update s.pc t pc }

/-- A thread makes a step of `seq_get`, with the draws of the shuffle if it is one. There is
none for a thread that waits for the mutex, and none outside the array. -/
def step : τ × (Nat → Nat) → System τ → Option (System τ)
  | (t, draws), s =>
    match s.pc t with
    | .outside =>
      match s.owner with
      | none => some { s.goto t .locked with owner := some t, locks := s.locks ++ [t] }
      | some _ => none
    | .locked =>
      if s.shared.nextNum ≥ s.shared.total then
        (shuffle draws s.shared).map fun g => { s.goto t .shuffled with shared := g }
      else some (s.goto t .ready)
    | .shuffled => some { s.goto t .ready with shared := { s.shared with nextNum := 0 } }
    | .ready =>
      s.shared.seq[s.shared.nextNum]?.map fun retval =>
        { s.goto t (.taken retval) with results := s.results ++ [(t, retval)] }
    | .taken retval =>
      some { s.goto t (.counted retval) with
        shared := { s.shared with nextNum := s.shared.nextNum + 1 } }
    | .counted _ => some { s.goto t .outside with owner := none }

/-! ## The shuffle -/

/-- The kinds by their weights, in order. -/
def Shared.kinds (g : Shared) : List Int :=
  List.replicate g.no 0 ++ List.replicate g.py 1 ++ List.replicate g.os 2 ++
    List.replicate g.dl 3 ++ List.replicate g.sl 4

/-- The weights add up to the total, and the array is that long. -/
structure Shared.Ok (g : Shared) : Prop where
  total_eq : g.total = g.no + g.py + g.os + g.dl + g.sl
  length_eq : g.seq.length = g.total

theorem Shared.length_kinds (g : Shared) :
    g.kinds.length = g.no + g.py + g.os + g.dl + g.sl := by
  simp only [Shared.kinds, List.length_append, List.length_replicate]

theorem fillFrom_append' (v : Int) (front : List Int) {count : Nat} {middle : List Int}
    (h : middle.length = count) (back : List Int) :
    fillFrom v count front.length (front ++ (middle ++ back)) =
      some ((front ++ List.replicate count v).length,
        front ++ List.replicate count v ++ back) := by
  subst h
  rw [List.length_append, List.length_replicate, ← List.append_assoc]
  exact fillFrom_append v back

/-- What is as long as `n` and more ends behind its first `n` elements. -/
theorem exists_append_of_le {α : Type} {n : Nat} {l : List α} (h : n ≤ l.length) :
    ∃ front back, l = front ++ back ∧ front.length = n ∧ back.length = l.length - n :=
  ⟨l.take n, l.drop n, (List.take_append_drop n l).symm, List.length_take_of_le h,
    List.length_drop⟩

theorem fill_eq {g : Shared} (h : g.Ok) : fill g = some g.kinds := by
  have hlen : g.seq.length = g.no + g.py + g.os + g.dl + g.sl := h.length_eq.trans h.total_eq
  obtain ⟨a, l₁, hl, ha, h₁⟩ := exists_append_of_le (n := g.no) (l := g.seq) (by omega)
  obtain ⟨b, l₂, rfl, hb, h₂⟩ := exists_append_of_le (n := g.py) (l := l₁) (by omega)
  obtain ⟨c, l₃, rfl, hc, h₃⟩ := exists_append_of_le (n := g.os) (l := l₂) (by omega)
  obtain ⟨d, e, rfl, hd, he⟩ := exists_append_of_le (n := g.dl) (l := l₃) (by omega)
  have he' : e.length = g.sl := by omega
  have hno : fillFrom 0 g.no 0 g.seq = _ := hl ▸ fillFrom_append' 0 [] ha _
  unfold fill
  simp only [hno, Option.bind_eq_bind, Option.bind_some, List.nil_append,
    fillFrom_append' 1 _ hb, fillFrom_append' 2 _ hc, fillFrom_append' 3 _ hd]
  have hlast := fillFrom_append' 4 (List.replicate g.no 0 ++ List.replicate g.py 1 ++
    List.replicate g.os 2 ++ List.replicate g.dl 3) he' []
  rw [List.append_nil, List.append_nil] at hlast
  rw [hlast]
  rfl

/-- **The two indices stay within the array**: `i + j` is the last place of it in every turn,
and a turn only permutes. -/
theorem exchanges_perm (draws : Nat → Nat) {j i : Nat} {seq : List Int}
    (h : i + j < seq.length) :
    ∃ seq', exchanges draws j i seq = some seq' ∧ seq'.Perm seq := by
  induction j generalizing i seq with
  | zero => exact ⟨seq, rfl, List.Perm.refl seq⟩
  | succ j ih =>
    have hrnd : draws i % (j + 1 + 1) < j + 1 + 1 := Nat.mod_lt _ (Nat.succ_pos _)
    obtain ⟨seq₁, hswap, hperm⟩ := exchange_perm (by omega : i < seq.length)
      (by omega : draws i % (j + 1 + 1) + i < seq.length)
    obtain ⟨seq', hrest, hperm'⟩ := @ih (i + 1) seq₁
      (by rw [hperm.length_eq]; omega)
    refine ⟨seq', ?_, hperm'.trans hperm⟩
    rw [exchanges]
    simp only [hswap, Option.bind_eq_bind, Option.bind_some, hrest]

/-- **The shuffle stays within the array and deals a deck of the weights.** -/
theorem shuffle_spec (draws : Nat → Nat) {g : Shared} (h : g.Ok) (hpos : 0 < g.total) :
    ∃ seq, shuffle draws g = some { g with seq := seq } ∧ seq.Perm g.kinds := by
  have hlen : 0 + (g.total - 1) < g.kinds.length := by
    rw [g.length_kinds, ← h.total_eq]
    omega
  obtain ⟨seq, hex, hperm⟩ := exchanges_perm draws hlen
  refine ⟨seq, ?_, hperm⟩
  unfold shuffle
  simp only [fill_eq h, Option.bind_eq_bind, Option.bind_some, hex]
  rfl

/-! ## Under the mutex -/

/-- How many elements of the present deck are dealt, for the thread that holds the mutex. -/
def Pc.position (nextNum : Nat) : Pc → Nat
  | .shuffled => 0
  | .taken _ => nextNum + 1
  | _ => nextNum

/-- The array is not used up. -/
def Pc.below : Pc → Bool
  | .ready | .taken _ => true
  | _ => false

/-- It holds the mutex and has not drawn. -/
def Pc.owes : Pc → Bool
  | .locked | .shuffled | .ready => true
  | _ => false

/-- What has been drawn is dealt from decks of the weights. -/
structure Fine (kinds : List Int) (g : Shared) (pc : Pc) (drawn : List Int) : Prop where
  ok : g.Ok
  pos : 0 < g.total
  kinds_eq : g.kinds = kinds
  dealt : Dealt (fun deck => deck.Perm kinds) g.seq (pc.position g.nextNum) drawn
  below : pc.below = true → g.nextNum < g.total

section

variable {kinds drawn : List Int} {g : Shared} {pc : Pc}

/-- A step that changes no variable. -/
theorem Fine.goto (h : Fine kinds g pc drawn) {pc' : Pc}
    (hpos : pc'.position g.nextNum = pc.position g.nextNum)
    (hbelow : pc'.below = true → g.nextNum < g.total) : Fine kinds g pc' drawn :=
  ⟨h.ok, h.pos, h.kinds_eq, by rw [hpos]; exact h.dealt, hbelow⟩

theorem Fine.shuffle (h : Fine kinds g .locked drawn) (hend : g.total ≤ g.nextNum)
    (draws : Nat → Nat) :
    ∃ g', shuffle draws g = some g' ∧ Fine kinds g' .shuffled drawn := by
  obtain ⟨seq, hshuffle, hperm⟩ := shuffle_spec draws h.ok h.pos
  have hlen : seq.length = g.total := by
    rw [hperm.length_eq, g.length_kinds, ← h.ok.total_eq]
  refine ⟨_, hshuffle, ⟨h.ok.total_eq, hlen⟩, h.pos, h.kinds_eq, ?_, fun hb => nomatch hb⟩
  exact h.dealt.again (h.ok.length_eq ▸ hend) (h.kinds_eq ▸ hperm)

theorem Fine.refilled (h : Fine kinds g .shuffled drawn) :
    Fine kinds { g with nextNum := 0 } .ready drawn :=
  ⟨⟨h.ok.total_eq, h.ok.length_eq⟩, h.pos, h.kinds_eq, h.dealt, fun _ => h.pos⟩

theorem Fine.take (h : Fine kinds g .ready drawn) :
    ∃ retval, g.seq[g.nextNum]? = some retval ∧
      Fine kinds g (.taken retval) (drawn ++ [retval]) := by
  have hlt : g.nextNum < g.seq.length := h.ok.length_eq ▸ h.below rfl
  exact ⟨g.seq[g.nextNum], List.getElem?_eq_getElem hlt,
    h.ok, h.pos, h.kinds_eq, h.dealt.deal hlt, fun _ => h.below rfl⟩

theorem Fine.count {retval : Int} (h : Fine kinds g (.taken retval) drawn) :
    Fine kinds { g with nextNum := g.nextNum + 1 } (.counted retval) drawn :=
  ⟨⟨h.ok.total_eq, h.ok.length_eq⟩, h.pos, h.kinds_eq, h.dealt, fun hb => nomatch hb⟩

end

/-- Where the thread that holds the mutex is. -/
def System.inside (s : System τ) : Pc := s.owner.elim .outside s.pc

/-- The thread that is yet to draw. -/
def System.pending (s : System τ) : List τ := if s.inside.owes then s.owner.toList else []

/-- What every step keeps: only the thread that holds the mutex is in `seq_get`, what it
has before it is fine, and the results stand in the order of the locks. -/
structure Inv (kinds : List Int) (s : System τ) : Prop where
  alone : ∀ t, s.pc t ≠ .outside → s.owner = some t
  fine : Fine kinds s.shared s.inside (s.results.map Prod.snd)
  locks_eq : s.locks = s.results.map Prod.fst ++ s.pending

section

variable {kinds : List Int} {s s' : System τ} {t : τ}

omit [DecidableEq τ] in
theorem Inv.fine_pc (h : Inv kinds s) (ht : s.owner = some t) :
    Fine kinds s.shared (s.pc t) (s.results.map Prod.snd) := by
  have hf := h.fine
  rwa [System.inside, ht] at hf

omit [DecidableEq τ] in
theorem Inv.locks_pc (h : Inv kinds s) (ht : s.owner = some t) :
    s.locks = s.results.map Prod.fst ++ if (s.pc t).owes then [t] else [] := by
  have hl := h.locks_eq
  rwa [System.pending, System.inside, ht] at hl

/-- The thread that holds the mutex goes on within `seq_get`. -/
theorem Inv.move (h : Inv kinds s) (ht : s.owner = some t) (pc : Pc) {g : Shared}
    {results : List (τ × Int)} (hf : Fine kinds g pc (results.map Prod.snd))
    (hl : s.locks = results.map Prod.fst ++ if pc.owes then [t] else []) :
    Inv kinds { s.goto t pc with shared := g, results := results } := by
  have hin : System.inside { s.goto t pc with shared := g, results := results } = pc := by
    simp [System.inside, System.goto, ht]
  refine ⟨?_, by rw [hin]; exact hf, ?_⟩
  · exact forall_update (P := fun t' (pc : Pc) => pc ≠ .outside → s.owner = some t') h.alone fun _ => ht
  · rw [System.pending, hin]
    simpa [System.goto, ht] using hl

theorem Inv.lock (h : Inv kinds s) (hfree : s.owner = none) :
    Inv kinds { s.goto t .locked with owner := some t, locks := s.locks ++ [t] } := by
  have hin : System.inside { s.goto t .locked with owner := some t, locks := s.locks ++ [t] } =
      .locked := by
    simp [System.inside, System.goto]
  have hf := h.fine
  have hl := h.locks_eq
  rw [System.pending, System.inside, hfree] at hl
  rw [System.inside, hfree] at hf
  refine ⟨?_, ?_, ?_⟩
  · refine forall_update (P := fun t' (pc : Pc) => pc ≠ .outside → some t = some t') ?_ fun _ => rfl
    exact fun t' ht' => absurd (h.alone t' ht') (by simp [hfree])
  · rw [hin]
    exact hf.goto rfl fun hb => nomatch hb
  · rw [System.pending, hin]
    simpa [System.goto, Pc.owes] using hl

theorem Inv.unlock (h : Inv kinds s) (ht : s.owner = some t) {retval : Int}
    (hpc : s.pc t = .counted retval) : Inv kinds { s.goto t .outside with owner := none } := by
  have hf := h.fine_pc ht
  have hl := h.locks_pc ht
  rw [hpc] at hf hl
  refine ⟨?_, hf.goto rfl (fun hb => nomatch hb), ?_⟩
  · intro t' ht'
    by_cases he : t' = t
    · subst he
      exact absurd (Function.update_self ..) ht'
    · have hold := h.alone t' (by rwa [← Function.update_of_ne he Pc.outside s.pc])
      exact absurd (Option.some.inj (hold.symm.trans ht)) he
  · simpa [System.pending, System.inside, System.goto, Pc.owes] using hl

/-- **A thread inside is never held up**: nothing outside the array is read or written, and its
step keeps the invariant. -/
theorem Inv.step_inside (h : Inv kinds s) (ht : s.pc t ≠ .outside) (draws : Nat → Nat) :
    ∃ s', step (t, draws) s = some s' ∧ Inv kinds s' := by
  have how := h.alone t ht
  have hf := h.fine_pc how
  have hl := h.locks_pc how
  cases hpc : s.pc t with
  | outside => exact absurd hpc ht
  | locked =>
    rw [hpc] at hf hl
    by_cases hend : s.shared.total ≤ s.shared.nextNum
    · obtain ⟨g', hshuffle, hf'⟩ := hf.shuffle hend draws
      exact ⟨_, by simp only [step, hpc, ge_iff_le, hend, if_true, hshuffle]; rfl,
        h.move how .shuffled hf' hl⟩
    · exact ⟨_, by simp only [step, hpc, ge_iff_le, hend, if_false]; rfl,
        h.move how .ready (hf.goto rfl fun _ => Nat.lt_of_not_le hend) hl⟩
  | shuffled =>
    rw [hpc] at hf hl
    exact ⟨_, by simp only [step, hpc]; rfl, h.move how .ready hf.refilled hl⟩
  | ready =>
    rw [hpc] at hf hl
    obtain ⟨retval, hget, hf'⟩ := hf.take
    refine ⟨_, by simp only [step, hpc, hget]; rfl, h.move how (.taken retval) ?_ ?_⟩
    · rw [List.map_append]
      exact hf'
    · rw [hl, List.map_append]
      simp [Pc.owes]
  | taken retval =>
    rw [hpc] at hf hl
    exact ⟨_, by simp only [step, hpc]; rfl, h.move how (.counted retval) hf.count hl⟩
  | counted retval => exact ⟨_, by simp only [step, hpc], h.unlock how hpc⟩

theorem step_keeps {a : τ × (Nat → Nat)} (h : Inv kinds s) (_ : True)
    (hstep : step a s = some s') : Inv kinds s' := by
  obtain ⟨t, draws⟩ := a
  by_cases hpc : s.pc t = .outside
  · cases hfree : s.owner with
    | none =>
      simp only [step, hpc, hfree, Option.some.injEq] at hstep
      exact hstep ▸ h.lock hfree
    | some t' => simp [step, hpc, hfree] at hstep
  · obtain ⟨s₁, hstep₁, hinv⟩ := h.step_inside hpc draws
    exact Option.some.inj (hstep₁.symm.trans hstep) ▸ hinv

end

/-! ## The mix -/

theorem seqInit_spec (memory : Nat → Int) (draws : Nat → Nat) {n p o d s : Nat}
    (hpos : 0 < n + p + o + d + s) :
    ∃ seq, seqInit memory draws n p o d s = some ⟨n, p, o, d, s, n + p + o + d + s, seq, 0⟩ ∧
      seq.Perm (Shared.kinds ⟨n, p, o, d, s, n + p + o + d + s, seq, 0⟩) := by
  have hok : Shared.Ok ⟨n, p, o, d, s, n + p + o + d + s,
      (List.range (n + p + o + d + s)).map memory, 0⟩ :=
    ⟨rfl, by rw [List.length_map, List.length_range]⟩
  obtain ⟨seq, hshuffle, hperm⟩ := shuffle_spec draws hok hpos
  exact ⟨seq, by simp only [seqInit, hshuffle, Option.bind_eq_bind, Option.bind_some]; rfl, hperm⟩

omit [DecidableEq τ] in
theorem start_inv {g : Shared} (hok : g.Ok) (hpos : 0 < g.total) (hnext : g.nextNum = 0)
    (hperm : g.seq.Perm g.kinds) : Inv g.kinds (start g : System τ) :=
  ⟨fun _ ht => absurd rfl ht,
    ⟨hok, hpos, rfl, hnext ▸ Dealt.start hperm, fun hb => nomatch hb⟩, rfl⟩

/-- A deck has each kind as often as its weight says. -/
theorem count_of_perm_kinds {g : Shared} {deck : List Int} (h : deck.Perm g.kinds) :
    deck.count 0 = g.no ∧ deck.count 1 = g.py ∧ deck.count 2 = g.os ∧ deck.count 3 = g.dl ∧
      deck.count 4 = g.sl := by
  simp [h.count_eq, Shared.kinds, List.count_append, List.count_replicate]

end TokuQa.Tpcc.Sequence
