import Mathlib.Algebra.Order.BigOperators.Group.Finset
import Mathlib.Data.List.Range
import Mathlib.Order.Interval.Finset.Nat
import TokuQa.Lib.Run
import TokuQa.Lib.Threads

/-!
# The loaders of `jmongosysbenchload.java`

`main` gives one collection after another to a new thread. It waits until `globalWriterThreads`, which
a loader counts down as the last thing it does, is below `writerThreads`, and then looks for a slot
whose thread is not alive. A thread that has counted down may be alive for a while. When every slot
has such a thread or a working one, the search ends with none, and `main` goes on with the next
collection.

A step is an access to `globalWriterThreads` or `allDone`, a look at a slot or a command to the
server, with the statements up to the next. `w` is `writerThreads`. That `main` counts a loader up
and starts it goes with the look that finds its slot: nothing but `main` reads the counter. A
collection that is created begins empty.
-/

set_option autoImplicit false

namespace TokuQa.MongoSysbench.Load

open TokuQa.Lib

structure Config where
  numCollections : Nat
  numMaxInserts : Nat
  documentsPerInsert : Nat

def Config.numRounds (c : Config) : Nat := c.numMaxInserts / c.documentsPerInsert

/-- Where a loader is; `rounds` are those behind the present one, `id` is its last `_id`. -/
inductive LoaderPc where
  | create
  | insert (id rounds : Nat)
  | countInserts (id rounds : Nat)
  | decrement
  /-- Behind its last statement, and alive. -/
  | ending
  | dead
deriving DecidableEq

/-- A thread `MyWriter` with its collection. -/
structure Loader where
  collectionNumber : Nat
  pc : LoaderPc
deriving DecidableEq

inductive MainPc (w : Nat) where
  /-- Waits for the counter. -/
  | wait (collectionNumber : Nat)
  /-- Looks at a slot. -/
  | look (collectionNumber : Nat) (i : Fin w)
  /-- Waits for all loaders. -/
  | drain
  | finish
  | done
deriving DecidableEq

/-- `given` are the collections in the order in which they went to a loader. -/
structure State (w : Nat) where
  documents : Nat → Finset Nat
  globalInserts : Nat
  globalWriterThreads : Nat
  allDone : Bool
  tWriterThreads : Fin w → Option Loader
  main : MainPc w
  given : List Nat

/-- A step of `main`; one of the thread in a slot. -/
inductive Event (w : Nat) where
  | main
  | loader (i : Fin w)

/-- The head of the loop over the rounds. -/
def nextRound (id : Nat) : Nat → LoaderPc
  | 0 => .decrement
  | rounds + 1 => .insert id rounds

variable {w : Nat}

/-- The head of the loop over the collections. -/
def nextCollection (w : Nat) (c : Config) (collectionNumber : Nat) : MainPc w :=
  if collectionNumber < c.numCollections then .wait collectionNumber else .drain

def start (c : Config) (w : Nat) : State w :=
  ⟨fun _ => ∅, 0, 0, false, fun _ => none, nextCollection w c 0, []⟩

def State.at (s : State w) (i : Fin w) (loader : Loader) : State w :=
  { s with tWriterThreads := Function.update s.tWriterThreads i (some loader) }

def LoaderPc.Alive (pc : LoaderPc) : Prop := pc ≠ .dead

instance (pc : LoaderPc) : Decidable pc.Alive := inferInstanceAs (Decidable (pc ≠ .dead))

/-- No thread was started in the slot, or the one that was is dead. -/
def free : Option Loader → Bool
  | none => true
  | some loader => decide (¬ loader.pc.Alive)

def stepMain (c : Config) (s : State w) : Option (State w) :=
  match s.main with
  | .wait k =>
    if h : s.globalWriterThreads < w then some { s with main := .look k ⟨0, by omega⟩ }
    else some s
  | .look k i =>
    if free (s.tWriterThreads i) then
      some ({ s with
        globalWriterThreads := s.globalWriterThreads + 1
        main := nextCollection w c (k + 1)
        given := s.given ++ [k + 1] }.at i ⟨k + 1, .create⟩)
    else if h : i.val + 1 < w then some { s with main := .look k ⟨i.val + 1, h⟩ }
    else some { s with main := nextCollection w c (k + 1) }
  | .drain => some { s with main := if 0 < s.globalWriterThreads then .drain else .finish }
  | .finish => some { s with allDone := true, main := .done }
  | .done => none

def stepLoader (c : Config) (i : Fin w) (s : State w) : Option (State w) :=
  match s.tWriterThreads i with
  | none => none
  | some ⟨k, pc⟩ =>
    match pc with
    | .create => some (s.at i ⟨k, nextRound 0 c.numRounds⟩)
    | .insert id rounds =>
      some ({ s with
        documents := Function.update s.documents k
          (s.documents k ∪ Finset.Ioc id (id + c.documentsPerInsert)) }.at i
            ⟨k, .countInserts (id + c.documentsPerInsert) rounds⟩)
    | .countInserts id rounds =>
      some ({ s with globalInserts := s.globalInserts + c.documentsPerInsert }.at i
        ⟨k, nextRound id rounds⟩)
    | .decrement =>
      some ({ s with globalWriterThreads := s.globalWriterThreads - 1 }.at i ⟨k, .ending⟩)
    | .ending => some (s.at i ⟨k, .dead⟩)
    | .dead => none

def step (c : Config) (e : Event w) (s : State w) : Option (State w) :=
  match e with
  | .main => stepMain c s
  | .loader i => stepLoader c i s

/-! ## What should hold -/

/-- Between its start and its last decrement. -/
def working : Option Loader → Bool
  | none => false
  | some loader => decide (loader.pc ≠ .ending ∧ loader.pc ≠ .dead)

/-- The collections `main` is done with. -/
def MainPc.passed (c : Config) : MainPc w → Nat
  | .wait k => k
  | .look k _ => k
  | .drain | .finish | .done => c.numCollections

structure Loads (c : Config) (s : State w) : Prop where
  given : s.given = List.range' 1 (s.main.passed c)
  loaders : (Finset.univ.filter fun i => working (s.tWriterThreads i) = true).card ≤ w
  complete : s.allDone = true → ∀ k ∈ Finset.Icc 1 c.numCollections,
    s.documents k = Finset.Icc 1 (c.numRounds * c.documentsPerInsert)

/-- The steps that go well: the last slot `main` looks at is free. -/
def Fine (e : Event w) (s : State w) : Prop :=
  match e with
  | .main => ∀ k i, s.main = .look k i → i.val + 1 = w → free (s.tWriterThreads i) = true
  | .loader _ => True

/-! ## The invariant -/

/-- What a loader has loaded where it is. -/
def Progress (c : Config) (documents : Finset Nat) : LoaderPc → Prop
  | .create => documents = ∅
  | .insert id rounds => documents = Finset.Icc 1 id ∧
      id + (rounds + 1) * c.documentsPerInsert = c.numRounds * c.documentsPerInsert
  | .countInserts id rounds => documents = Finset.Icc 1 id ∧
      id + rounds * c.documentsPerInsert = c.numRounds * c.documentsPerInsert
  | .decrement => documents = Finset.Icc 1 (c.numRounds * c.documentsPerInsert)
  | .ending | .dead => True

/-- The threads in two slots have different collections. -/
def Apart (a b : Option Loader) : Prop :=
  ∀ loader loader', a = some loader → b = some loader' →
    loader.collectionNumber ≠ loader'.collectionNumber

theorem Apart.symm {a b : Option Loader} (h : Apart a b) : Apart b a :=
  fun loader loader' hb ha => (h loader' loader ha hb).symm

/-- `main` found the counter below `writerThreads`, or, behind its loops, at zero. -/
def Place (c : Config) (s : State w) : Prop :=
  match s.main with
  | .wait k => k < c.numCollections
  | .look k _ => k < c.numCollections ∧ s.globalWriterThreads < w
  | .drain => True
  | .finish | .done => s.globalWriterThreads = 0

/-- A collection is loaded, or a loader is at it. -/
def Cared (c : Config) (s : State w) (k : Nat) : Prop :=
  s.documents k = Finset.Icc 1 (c.numRounds * c.documentsPerInsert) ∨
    ∃ i loader, s.tWriterThreads i = some loader ∧ loader.collectionNumber = k ∧
      working (some loader) = true

structure Inv (c : Config) (s : State w) : Prop where
  given : s.given = List.range' 1 (s.main.passed c)
  counted : ∑ i, (working (s.tWriterThreads i)).toNat = s.globalWriterThreads
  place : Place c s
  done : s.allDone = true → s.main = .done
  fresh : ∀ k, k ∉ s.given → s.documents k = ∅
  progress : ∀ i loader, s.tWriterThreads i = some loader →
    loader.collectionNumber ∈ s.given ∧ Progress c (s.documents loader.collectionNumber) loader.pc
  apart : ∀ i j, i ≠ j → Apart (s.tWriterThreads i) (s.tWriterThreads j)
  cared : ∀ k ∈ s.given, Cared c s k

theorem passed_nextCollection {c : Config} {k : Nat} (h : k ≤ c.numCollections) :
    (nextCollection w c k).passed c = k := by
  unfold nextCollection
  split
  · rfl
  · simp only [MainPc.passed]
    omega

theorem place_nextCollection {c : Config} {s : State w} {k : Nat}
    (h : s.main = nextCollection w c k) : Place c s := by
  unfold nextCollection at h
  split at h
  case isTrue hlt =>
    simp only [Place, h]
    exact hlt
  case isFalse => simp only [Place, h]

theorem inv_start (c : Config) : Inv c (start c w) where
  given := by rw [start, passed_nextCollection (Nat.zero_le _)]; rfl
  counted := by simp [start, working]
  place := place_nextCollection rfl
  done h := nomatch h
  fresh _ _ := rfl
  progress _ _ h := nomatch h
  apart _ _ _ _ _ h := nomatch h
  cared _ h := nomatch h

section

variable {c : Config} {s s' : State w}

/-- Behind the loops of `main` no loader works, so every collection is loaded. -/
theorem Inv.loads (h : Inv c s) : Loads c s where
  given := h.given
  loaders := by
    refine (Finset.card_le_univ _).trans ?_
    simp
  complete hdone k hk := by
    have hmain := h.done hdone
    have hplace := h.place
    have hgiven := h.given
    simp only [Place, hmain] at hplace
    rw [hmain, MainPc.passed] at hgiven
    have hcounted := h.counted
    rw [hplace, Finset.sum_eq_zero_iff] at hcounted
    have hmem : k ∈ s.given := by
      rw [Finset.mem_Icc] at hk
      rw [hgiven, List.mem_range'_1]
      omega
    rcases h.cared k hmem with hloaded | ⟨i, loader, hi, -, hworks⟩
    · exact hloaded
    · have hnone := hcounted i (Finset.mem_univ i)
      rw [hi, hworks] at hnone
      cases hnone

/-- A collection that another thread works for is still worked for, when the thread `i` goes on. -/
theorem Cared.elsewhere {k : Nat} (hcared : Cared c s k) {i : Fin w}
    (hother : ∀ loader, s.tWriterThreads i = some loader → loader.collectionNumber = k →
      working (some loader) = false)
    {documents : Nat → Finset Nat} (hdocuments : documents k = s.documents k) {loader : Loader}
    {globalInserts globalWriterThreads : Nat} {main : MainPc w} {given : List Nat} :
    Cared c
      ({ s with documents, globalInserts, globalWriterThreads, main, given }.at i loader) k := by
  rcases hcared with hloaded | ⟨j, loader', hj, hcollection, hjworks⟩
  · exact .inl (hdocuments.trans hloaded)
  · have hji : j ≠ i := by
      rintro rfl
      rw [hother loader' hj hcollection] at hjworks
      cases hjworks
    refine .inr ⟨j, loader', ?_, hcollection, hjworks⟩
    simp only [State.at, Function.update_of_ne hji]
    exact hj

/-- A thread takes a step: it goes on with its collection, or has loaded it, or is dead. -/
theorem Inv.loader_at (h : Inv c s) {i : Fin w} {k : Nat} {pc pc' : LoaderPc}
    {documents : Finset Nat} {globalInserts globalWriterThreads : Nat}
    (hi : s.tWriterThreads i = some ⟨k, pc⟩)
    (hcounter : globalWriterThreads + (working (some ⟨k, pc⟩)).toNat =
      s.globalWriterThreads + (working (some ⟨k, pc'⟩)).toNat)
    (hprogress : Progress c documents pc')
    (hstill : working (some ⟨k, pc'⟩) = true → working (some ⟨k, pc⟩) = true)
    (hworks : working (some ⟨k, pc⟩) = true → working (some ⟨k, pc'⟩) = true ∨
      documents = Finset.Icc 1 (c.numRounds * c.documentsPerInsert))
    (hidle : ¬ working (some ⟨k, pc⟩) = true → documents = s.documents k) :
    Inv c ({ s with
      documents := Function.update s.documents k documents
      globalInserts
      globalWriterThreads }.at i ⟨k, pc'⟩) where
  given := h.given
  counted := by
    have hsum := sum_update (fun slot => (working slot).toNat) s.tWriterThreads i (some ⟨k, pc'⟩)
    have hcounted := h.counted
    simp only [hi] at hsum
    simp only [State.at]
    omega
  place := by
    have hle : globalWriterThreads ≤ s.globalWriterThreads := by
      by_cases hw : working (some ⟨k, pc'⟩) = true
      · rw [hw, hstill hw] at hcounter
        omega
      · rw [Bool.not_eq_true] at hw
        rw [hw, Bool.toNat_false] at hcounter
        omega
    have hplace := h.place
    simp only [Place, State.at] at hplace ⊢
    split at hplace <;> omega
  done := h.done
  fresh k' hk' := by
    have hk : k' ≠ k := by
      rintro rfl
      exact hk' (h.progress i _ hi).1
    simp only [State.at, Function.update_of_ne hk]
    exact h.fresh k' hk'
  progress := by
    intro j loader hj
    by_cases hji : j = i
    · subst hji
      simp only [State.at, Function.update_self, Option.some.injEq] at hj
      subst hj
      simp only [State.at, Function.update_self]
      exact ⟨(h.progress j _ hi).1, hprogress⟩
    · simp only [State.at, Function.update_of_ne hji] at hj
      have hk : loader.collectionNumber ≠ k := h.apart j i hji loader _ hj hi
      simp only [State.at, Function.update_of_ne hk]
      exact h.progress j loader hj
  apart := by
    refine pairwise_update (R := Apart) Apart.symm h.apart fun j hji loader loader' hnew hj => ?_
    cases hnew
    exact h.apart i j (Ne.symm hji) ⟨k, pc⟩ loader' hi hj
  cared k' hk' := by
    by_cases hkk : k' = k
    · subst hkk
      by_cases hnew : working (some ⟨k', pc'⟩) = true
      · exact .inr ⟨i, ⟨k', pc'⟩, by simp [State.at], rfl, hnew⟩
      · left
        simp only [State.at, Function.update_self]
        by_cases hold : working (some ⟨k', pc⟩) = true
        · exact (hworks hold).resolve_left hnew
        · rw [hidle hold]
          -- no other thread is at the collection
          refine (h.cared k' hk').resolve_right ?_
          rintro ⟨j, loader, hj, hcollection, hjworks⟩
          by_cases hji : j = i
          · subst hji
            rw [hi, Option.some.injEq] at hj
            subst hj
            exact hold hjworks
          · exact h.apart j i hji loader _ hj hi hcollection
    · refine (h.cared k' hk').elsewhere (fun loader hloader hcollection => ?_)
        (Function.update_of_ne hkk _ _)
      rw [hi, Option.some.injEq] at hloader
      subst hloader
      exact absurd hcollection.symm hkk

/-- A thread takes a step and leaves the documents as they are. -/
theorem Inv.loader_move (h : Inv c s) {i : Fin w} {k : Nat} {pc pc' : LoaderPc}
    {globalInserts globalWriterThreads : Nat} (hi : s.tWriterThreads i = some ⟨k, pc⟩)
    (hcounter : globalWriterThreads + (working (some ⟨k, pc⟩)).toNat =
      s.globalWriterThreads + (working (some ⟨k, pc'⟩)).toNat)
    (hprogress : Progress c (s.documents k) pc')
    (hstill : working (some ⟨k, pc'⟩) = true → working (some ⟨k, pc⟩) = true)
    (hworks : working (some ⟨k, pc⟩) = true → working (some ⟨k, pc'⟩) = true ∨
      s.documents k = Finset.Icc 1 (c.numRounds * c.documentsPerInsert)) :
    Inv c ({ s with globalInserts, globalWriterThreads }.at i ⟨k, pc'⟩) := by
  have hat : Inv c ({ s with
      documents := Function.update s.documents k (s.documents k)
      globalInserts
      globalWriterThreads }.at i ⟨k, pc'⟩) :=
    h.loader_at hi hcounter hprogress hstill hworks fun _ => rfl
  rw [Function.update_eq_self] at hat
  exact hat

theorem working_nextRound (k id rounds : Nat) : working (some ⟨k, nextRound id rounds⟩) = true := by
  cases rounds <;> rfl

theorem progress_nextRound {documents : Finset Nat} {id rounds : Nat}
    (hdocuments : documents = Finset.Icc 1 id)
    (hid : id + rounds * c.documentsPerInsert = c.numRounds * c.documentsPerInsert) :
    Progress c documents (nextRound id rounds) := by
  cases rounds with
  | zero =>
    rw [Nat.zero_mul, Nat.add_zero] at hid
    rw [nextRound, Progress, hdocuments, hid]
  | succ rounds => exact ⟨hdocuments, hid⟩

/-- A batch goes on where the one before it ended. -/
theorem Icc_union_Ioc (id rows : Nat) :
    Finset.Icc 1 id ∪ Finset.Ioc id (id + rows) = Finset.Icc 1 (id + rows) := by
  ext x
  rw [Finset.mem_union, Finset.mem_Icc, Finset.mem_Ioc, Finset.mem_Icc]
  omega

theorem Inv.loader (h : Inv c s) {i : Fin w} (hstep : stepLoader c i s = some s') : Inv c s' := by
  unfold stepLoader at hstep
  cases hi : s.tWriterThreads i with
  | none => simp [hi] at hstep
  | some loader =>
    obtain ⟨k, pc⟩ := loader
    obtain ⟨-, hprogress⟩ := h.progress i _ hi
    cases pc with
    | create =>
      simp only [hi, Option.some.injEq] at hstep
      subst hstep
      have hnext := working_nextRound k 0 c.numRounds
      refine h.loader_move hi (by rw [hnext]; rfl) ?_ (fun _ => rfl) fun _ => .inl hnext
      exact progress_nextRound hprogress (Nat.zero_add _)
    | insert id rounds =>
      simp only [hi, Option.some.injEq] at hstep
      subst hstep
      obtain ⟨hdocuments, hid⟩ := hprogress
      refine h.loader_at hi rfl ⟨?_, ?_⟩ (fun _ => rfl) (fun _ => .inl rfl) fun hidle => ?_
      · rw [hdocuments, Icc_union_Ioc]
      · rw [← hid, Nat.add_mul, Nat.one_mul]
        omega
      · exact absurd rfl hidle
    | countInserts id rounds =>
      simp only [hi, Option.some.injEq] at hstep
      subst hstep
      have hnext := working_nextRound k id rounds
      refine h.loader_move hi (by rw [hnext]; rfl) ?_ (fun _ => rfl) fun _ => .inl hnext
      exact progress_nextRound hprogress.1 hprogress.2
    | decrement =>
      simp only [hi, Option.some.injEq] at hstep
      subst hstep
      -- the counter has this loader in it
      have hpos : 1 ≤ s.globalWriterThreads := by
        rw [← h.counted]
        have hone := Finset.single_le_sum
          (fun j _ => Nat.zero_le (working (s.tWriterThreads j)).toNat) (Finset.mem_univ i)
        rw [hi] at hone
        exact hone
      refine h.loader_move hi ?_ trivial (fun hnew => (nomatch hnew)) fun _ => .inr hprogress
      exact Nat.sub_add_cancel hpos
    | ending =>
      simp only [hi, Option.some.injEq] at hstep
      subst hstep
      exact h.loader_move hi rfl trivial (fun hnew => (nomatch hnew)) fun hold => (nomatch hold)
    | dead => simp [hi] at hstep

theorem not_working_of_free {slot : Option Loader} (h : free slot = true) : working slot = false := by
  cases slot with
  | none => rfl
  | some loader =>
    have hdead : loader.pc = .dead := by simpa [free, LoaderPc.Alive] using h
    simp [working, hdead]

/-- `main` starts a loader for the next collection. -/
theorem Inv.start_loader (h : Inv c s) {k : Nat} {i : Fin w} (hmain : s.main = .look k i)
    (hfree : free (s.tWriterThreads i) = true) : Inv c ({ s with
      globalWriterThreads := s.globalWriterThreads + 1
      main := nextCollection w c (k + 1)
      given := s.given ++ [k + 1] }.at i ⟨k + 1, .create⟩) := by
  have hidle := not_working_of_free hfree
  have hplace := h.place
  have hgiven := h.given
  simp only [Place, hmain] at hplace
  rw [hmain, MainPc.passed] at hgiven
  have hnew : k + 1 ∉ s.given := by
    rw [hgiven, List.mem_range'_1]
    omega
  constructor
  case given =>
    simp only [State.at]
    rw [passed_nextCollection hplace.1, hgiven, List.range'_concat, Nat.one_mul, Nat.add_comm k 1]
  case counted =>
    have hsum := sum_update (fun slot => (working slot).toNat) s.tWriterThreads i
      (some ⟨k + 1, .create⟩)
    have hcounted := h.counted
    simp only [hidle] at hsum
    simp only [State.at]
    exact hsum.trans (congrArg (· + 1) hcounted)
  case place => exact place_nextCollection rfl
  case done =>
    intro hdone
    have hold := h.done hdone
    rw [hmain] at hold
    cases hold
  case fresh =>
    intro k' hk'
    exact h.fresh k' fun hmem => hk' (List.mem_append_left _ hmem)
  case progress =>
    intro j loader hj
    by_cases hji : j = i
    · subst hji
      simp only [State.at, Function.update_self, Option.some.injEq] at hj
      subst hj
      exact ⟨List.mem_append_right _ (List.mem_singleton_self _), h.fresh _ hnew⟩
    · simp only [State.at, Function.update_of_ne hji] at hj
      obtain ⟨hmem, hprogress⟩ := h.progress j loader hj
      exact ⟨List.mem_append_left _ hmem, hprogress⟩
  case apart =>
    refine pairwise_update (R := Apart) Apart.symm h.apart fun j _ loader loader' hloader hj => ?_
    cases hloader
    intro (hsame : k + 1 = loader'.collectionNumber)
    rw [hsame] at hnew
    exact hnew (h.progress j loader' hj).1
  case cared =>
    intro k' hk'
    rcases List.mem_append.mp hk' with hold | hthis
    · exact (h.cared k' hold).elsewhere (fun loader hloader _ => hloader ▸ hidle) rfl
    · rw [List.mem_singleton] at hthis
      exact .inr ⟨i, ⟨k + 1, .create⟩, by simp [State.at], hthis.symm, rfl⟩

/-- `main` goes on and starts nothing. -/
theorem Inv.main_move (h : Inv c s) {main : MainPc w} {allDone : Bool}
    (hpassed : main.passed c = s.main.passed c) (hplace : Place c { s with main })
    (hdone : allDone = true → main = .done) : Inv c { s with main, allDone } where
  given := h.given.trans (congrArg (List.range' 1) hpassed.symm)
  counted := h.counted
  place := hplace
  done := hdone
  fresh := h.fresh
  progress := h.progress
  apart := h.apart
  cared := h.cared

theorem Inv.main (h : Inv c s) (hfine : Fine .main s) (hstep : stepMain c s = some s') :
    Inv c s' := by
  have hplace := h.place
  have hnot : s.main ≠ .done → ¬ s.allDone = true := fun hmain hdone => hmain (h.done hdone)
  unfold stepMain at hstep
  cases hmain : s.main with
  | wait k =>
    simp only [hmain] at hstep
    simp only [Place, hmain] at hplace
    split at hstep
    case isTrue hfew =>
      cases hstep
      refine h.main_move (by rw [hmain]; rfl) ⟨hplace, hfew⟩ fun hdone => ?_
      exact absurd hdone (hnot (by rw [hmain]; nofun))
    case isFalse =>
      cases hstep
      exact h
  | look k i =>
    simp only [hmain] at hstep
    split at hstep
    case isTrue hfree =>
      cases hstep
      exact h.start_loader hmain hfree
    case isFalse halive =>
      split at hstep
      case isTrue hlt =>
        cases hstep
        simp only [Place, hmain] at hplace
        refine h.main_move (by rw [hmain]; rfl) hplace fun hdone => ?_
        exact absurd hdone (hnot (by rw [hmain]; nofun))
      case isFalse hlast => exact absurd (hfine k i hmain (by omega)) halive
  | drain =>
    simp only [hmain, Option.some.injEq] at hstep
    subst hstep
    refine h.main_move (by rw [hmain]; split <;> rfl) ?_ fun hdone =>
      absurd hdone (hnot (by rw [hmain]; nofun))
    split
    case isTrue => trivial
    case isFalse hzero => exact Nat.eq_zero_of_not_pos hzero
  | finish =>
    simp only [hmain, Option.some.injEq] at hstep
    subst hstep
    simp only [Place, hmain] at hplace
    exact h.main_move (by rw [hmain]; rfl) hplace fun _ => rfl
  | done => simp [hmain] at hstep

theorem Inv.step {e : Event w} (h : Inv c s) (hfine : Fine e s) (hstep : step c e s = some s') :
    Inv c s' := by
  cases e with
  | main => exact h.main hfine hstep
  | loader i => exact h.loader hstep

/-- When the last slot is taken too, the collection goes to no one. -/
theorem Inv.break_ {e : Event w} (h : Inv c s) (hbad : ¬ Fine e s) :
    ∃ s', Load.step c e s = some s' ∧ ¬ Loads c s' := by
  cases e with
  | loader => exact absurd trivial hbad
  | main =>
    simp only [Fine, not_forall] at hbad
    obtain ⟨k, i, hmain, hlast, halive⟩ := hbad
    refine ⟨{ s with main := nextCollection w c (k + 1) }, ?_, fun hloads => ?_⟩
    · simp [Load.step, stepMain, hmain, halive, hlast]
    · have hplace := h.place
      have hold := h.given
      have hnew := hloads.given
      simp only [Place, hmain] at hplace
      simp only [passed_nextCollection hplace.1] at hnew
      rw [hmain, MainPc.passed] at hold
      have hlength := congrArg List.length (hold.symm.trans hnew)
      simp at hlength

end

/-- **Every collection goes to one loader and is loaded, all along a run exactly when each time `main`
gets to the last slot, its thread is not alive.** -/
theorem loads_iff (c : Config) (es : List (Event w)) :
    (∀ pre s, pre <+: es → run (step c) pre (start c w) = some s → Loads c s) ↔
      AllSteps (step c) Fine es (start c w) :=
  prefixes_iff (W := fun _ => True) (J := Inv c) Inv.loads (fun h _ => h.step)
    (fun h _ => h.break_) (inv_start c) fun _ _ => trivial

/-- The only loader has counted down and is alive: the second collection is left out. -/
theorem not_loads_alive : ¬ ∀ pre s, pre <+: [.main, .main, .loader 0, .loader 0, .main, .main] →
    run (step ⟨2, 0, 1⟩) pre (start ⟨2, 0, 1⟩ 1) = some s → Loads ⟨2, 0, 1⟩ s := by
  intro h
  have hgiven := (h _ _ List.prefix_rfl rfl).given
  revert hgiven
  decide

end TokuQa.MongoSysbench.Load
