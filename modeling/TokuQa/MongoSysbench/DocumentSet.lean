import TokuQa.Lib.Run
import TokuQa.Lib.Threads
import TokuQa.MongoSysbench.Documents

/-!
# The documents of the benchmark, without transactions

Each operation is one of its own then. A writer removes an `_id` and inserts it again; another may do
the same to the same `_id` meanwhile, and one of them then finds it there and is dead of the duplicate
key. An `_id` is missing only while the writer that took it out has yet to put it back.

A step is one operation on the server, or a look at `allDone`. `removedBy` is the writer whose remove
took a document out last.
-/

set_option autoImplicit false

namespace TokuQa.MongoSysbench.DocumentSet

open TokuQa.Lib

variable {c : Config} {n : Nat}

/-- A collection has exactly the `_id`s up to `numMaxInserts`. -/
def Full (c : Config) (coll : Collection) : Prop :=
  ∀ id, (coll id).isSome = true ↔ 1 ≤ id ∧ id ≤ c.numMaxInserts

/-- The collections a benchmark starts from. -/
structure Tables (c : Config) where
  db : Db
  full : ∀ k, 1 ≤ k → k ≤ c.numCollections → Full c (db k)

/-- Where a writer is. -/
inductive Thread where
  | loop
  | within (collection : Nat) (ops : List Op)
  | stopped
  /-- Of an exception. -/
  | dead

structure State (n : Nat) where
  db : Db
  allDone : Bool
  thread : Fin n → Thread
  removedBy : Nat → Nat → Option (Fin n)

/-- A writer begins a transaction, leaves its loop or does its next operation; the time is up. -/
inductive Event (c : Config) (n : Nat) where
  | begin (i : Fin n) (d : Draws c)
  | leave (i : Fin n)
  | next (i : Fin n)
  | timeUp

def start (t : Tables c) (n : Nat) : State n := ⟨t.db, false, fun _ => .loop, fun _ _ => none⟩

def State.at (s : State n) (i : Fin n) (thread : Thread) : State n :=
  { s with thread := Function.update s.thread i thread }

/-- Who took a document out last, behind an operation of a writer. -/
def removed (s : State n) (i : Fin n) (k : Nat) : Op → Nat → Nat → Option (Fin n)
  | .remove id =>
    if (s.db k id).isSome then
      Function.update s.removedBy k (Function.update (s.removedBy k) id (some i))
    else s.removedBy
  | _ => s.removedBy

def stepNext (i : Fin n) (s : State n) : Option (State n) :=
  match s.thread i with
  | .within _ [] => some (s.at i .loop)
  | .within k (op :: ops) =>
    match op.apply (s.db k) with
    | none => some (s.at i .dead)
    | some coll => some ({ s with
        db := Function.update s.db k coll
        removedBy := removed s i k op }.at i (.within k ops))
  | _ => none

def step (e : Event c n) (s : State n) : Option (State n) :=
  match e with
  | .begin i d =>
    match s.thread i, s.allDone with
    | .loop, false => some (s.at i (.within d.collection (operations c d)))
    | _, _ => none
  | .leave i =>
    match s.thread i, s.allDone with
    | .loop, true => some (s.at i .stopped)
    | _, _ => none
  | .next i => stepNext i s
  | .timeUp => some { s with allDone := true }

/-- The writer is about to insert the `_id`. -/
def Thread.Inserting (k id : Nat) (thread : Thread) : Prop :=
  ∃ doc ops, thread = .within k (.insert id doc :: ops)

/-- A missing `_id` was removed by a writer that has yet to insert it; when all have stopped none is
missing. -/
structure Keeps (c : Config) (s : State n) : Prop where
  missing : ∀ k, 1 ≤ k → k ≤ c.numCollections → ∀ id, 1 ≤ id → id ≤ c.numMaxInserts →
    s.db k id = none → ∃ i, s.removedBy k id = some i ∧ (s.thread i).Inserting k id
  full : (∀ i, s.thread i = .stopped ∨ s.thread i = .dead) →
    ∀ k, 1 ≤ k → k ≤ c.numCollections → Full c (s.db k)

/-! ## The invariant -/

/-- What a writer has yet to do: pairs, or the insert of one first. -/
def Ready (c : Config) : Thread → Prop
  | .within _ ops => Paired c ops ∨ ∃ id doc rest, ops = .insert id doc :: rest ∧
      (1 ≤ id ∧ id ≤ c.numMaxInserts) ∧ Paired c rest
  | _ => True

structure Inv (c : Config) (s : State n) : Prop where
  missing : ∀ k, 1 ≤ k → k ≤ c.numCollections → ∀ id, 1 ≤ id → id ≤ c.numMaxInserts →
    s.db k id = none → ∃ i, s.removedBy k id = some i ∧ (s.thread i).Inserting k id
  present : ∀ k, 1 ≤ k → k ≤ c.numCollections → ∀ id, (s.db k id).isSome = true →
    1 ≤ id ∧ id ≤ c.numMaxInserts
  ready : ∀ i, Ready c (s.thread i)

theorem inv_start (t : Tables c) : Inv c (start t n) where
  missing k hk hle id hid hidle hnone := by
    have hsome := (t.full k hk hle id).mpr ⟨hid, hidle⟩
    rw [show t.db k id = none from hnone] at hsome
    cases hsome
  present k hk hle id hsome := (t.full k hk hle id).mp hsome
  ready _ := trivial

theorem Inv.keeps {s : State n} (h : Inv c s) : Keeps c s where
  missing := h.missing
  full hall k hk hle id := by
    refine ⟨h.present k hk hle id, fun hid => ?_⟩
    by_contra hnone
    rw [Option.not_isSome_iff_eq_none] at hnone
    obtain ⟨i, -, doc, ops, hi⟩ := h.missing k hk hle id hid.1 hid.2 hnone
    rcases hall i with hstopped | hdead
    · rw [hstopped] at hi
      cases hi
    · rw [hdead] at hi
      cases hi

section

variable {s : State n} {i : Fin n}

/-- What another writer took out is still on its way back when the writer `i` moves. -/
theorem Inv.missing_at (h : Inv c s) {k id : Nat} (hk : 1 ≤ k) (hle : k ≤ c.numCollections)
    (hid : 1 ≤ id) (hidle : id ≤ c.numMaxInserts) (hnone : s.db k id = none)
    (hold : ¬ (s.thread i).Inserting k id) (thread : Thread) :
    ∃ j, s.removedBy k id = some j ∧ ((s.at i thread).thread j).Inserting k id := by
  obtain ⟨j, hby, hj⟩ := h.missing k hk hle id hid hidle hnone
  have hji : j ≠ i := by
    rintro rfl
    exact hold hj
  refine ⟨j, hby, ?_⟩
  simp only [State.at, Function.update_of_ne hji]
  exact hj

/-- A writer that does not insert moves. -/
theorem Inv.at (h : Inv c s) {thread : Thread} (hready : Ready c thread)
    (hold : ∀ k id, ¬ (s.thread i).Inserting k id) : Inv c (s.at i thread) where
  missing k hk hle id hid hidle hnone :=
    h.missing_at hk hle hid hidle hnone (hold k id) thread
  present := h.present
  ready := forall_update (P := fun _ => Ready c) h.ready hready

/-- One entry of a table of tables is written. -/
theorem update_update_apply {α : Type} (f : Nat → Nat → α) (k id k' id' : Nat) (a : α) :
    Function.update f k (Function.update (f k) id a) k' id' =
      if k' = k ∧ id' = id then a else f k' id' := by
  by_cases hk : k' = k
  · subst hk
    rw [Function.update_self]
    by_cases hid : id' = id
    · subst hid
      rw [Function.update_self, if_pos ⟨rfl, rfl⟩]
    · rw [Function.update_of_ne hid, if_neg fun h => hid h.2]
  · rw [Function.update_of_ne hk, if_neg fun h => hk h.1]

/-- A read or an update takes no document in or out. -/
theorem apply_of_not_replaces {op : Op} (coll : Collection) (h : op.replaces = false) :
    ∃ coll', op.apply coll = some coll' ∧ ∀ id, coll' id = none ↔ coll id = none := by
  cases op with
  | remove | insert => cases h
  | findOne | find | aggregate | findSorted | distinct => exact ⟨coll, rfl, fun _ => Iff.rfl⟩
  | incK startId =>
    refine ⟨_, rfl, fun id => ?_⟩
    by_cases hid : id = startId
    · subst hid
      rw [Function.update_self, Option.map_eq_none_iff]
    · rw [Function.update_of_ne hid]
  | setC startId cVal =>
    refine ⟨_, rfl, fun id => ?_⟩
    by_cases hid : id = startId
    · subst hid
      rw [Function.update_self, Option.map_eq_none_iff]
    · rw [Function.update_of_ne hid]

/-- The writer reads or updates. -/
theorem Inv.other (h : Inv c s) {k : Nat} {op : Op} {ops : List Op} {coll : Collection}
    (hi : s.thread i = .within k (op :: ops)) (hop : op.replaces = false)
    (hcoll : ∀ id, coll id = none ↔ s.db k id = none) (hready : Ready c (.within k ops)) :
    Inv c ({ s with db := Function.update s.db k coll }.at i (.within k ops)) := by
  have hsame : ∀ k' id, Function.update s.db k coll k' id = none ↔ s.db k' id = none := by
    intro k' id
    by_cases hk : k' = k
    · subst hk
      rw [Function.update_self]
      exact hcoll id
    · rw [Function.update_of_ne hk]
  have hdb : Inv c { s with db := Function.update s.db k coll } :=
    { missing := fun k' hk hle id hid hidle hnone =>
        h.missing k' hk hle id hid hidle ((hsame k' id).mp hnone)
      present := fun k' hk hle id hsome => by
        refine h.present k' hk hle id ?_
        rw [Option.isSome_iff_ne_none] at hsome ⊢
        exact hsome ∘ (hsame k' id).mpr
      ready := h.ready }
  refine hdb.at hready fun k' id hinserting => ?_
  obtain ⟨doc, rest, hthread⟩ := hinserting
  rw [show s.thread i = .within k' (.insert id doc :: rest) from hthread] at hi
  cases hi
  cases hop

/-- The writer removes, and goes on to insert. -/
theorem Inv.remove (h : Inv c s) {k id : Nat} {doc : Document} {ops : List Op}
    (hi : s.thread i = .within k (.remove id :: .insert id doc :: ops))
    (hid : 1 ≤ id ∧ id ≤ c.numMaxInserts) (hops : Paired c ops) : Inv c ({ s with
      db := Function.update s.db k (Function.update (s.db k) id none)
      removedBy := removed s i k (.remove id) }.at i (.within k (.insert id doc :: ops))) where
  missing k' hk hle id' hid' hidle hnone := by
    by_cases hthis : k' = k ∧ id' = id ∧ (s.db k id).isSome = true
    · obtain ⟨rfl, rfl, hthere⟩ := hthis
      refine ⟨i, ?_, doc, ops, by simp [State.at]⟩
      simp [State.at, removed, hthere]
    · -- it was missing before, and its writer was not at a remove
      have hbefore : s.db k' id' = none := by
        simp only [State.at, update_update_apply] at hnone
        split at hnone
        case isTrue hsame =>
          obtain ⟨rfl, rfl⟩ := hsame
          exact Option.not_isSome_iff_eq_none.mp fun hthere => hthis ⟨rfl, rfl, hthere⟩
        case isFalse => exact hnone
      have hsame : removed s i k (.remove id) k' id' = s.removedBy k' id' := by
        simp only [removed]
        split
        case isTrue hthere =>
          rw [update_update_apply, if_neg fun h => hthis ⟨h.1, h.2, hthere⟩]
        case isFalse => rfl
      have hremoves : ¬ (s.thread i).Inserting k' id' := by
        rintro ⟨_, _, hthread⟩
        cases hi.symm.trans hthread
      obtain ⟨j, hby, hj⟩ := h.missing_at hk hle hid' hidle hbefore hremoves _
      exact ⟨j, hsame.trans hby, hj⟩
  present k' hk hle id' hsome := by
    refine h.present k' hk hle id' ?_
    simp only [State.at, update_update_apply] at hsome
    split at hsome
    · cases hsome
    · exact hsome
  ready := forall_update (P := fun _ => Ready c) h.ready (.inr ⟨id, doc, ops, rfl, hid, hops⟩)

/-- The writer inserts what is missing. -/
theorem Inv.insert (h : Inv c s) {k id : Nat} {doc : Document} {ops : List Op}
    (hi : s.thread i = .within k (.insert id doc :: ops))
    (hid : 1 ≤ id ∧ id ≤ c.numMaxInserts) (hops : Paired c ops) : Inv c ({ s with
      db := Function.update s.db k (Function.update (s.db k) id (some doc)) }.at i
        (.within k ops)) where
  missing k' hk hle id' hid' hidle hnone := by
    simp only [State.at, update_update_apply] at hnone
    split at hnone
    · cases hnone
    · next hother =>
      refine h.missing_at hk hle hid' hidle hnone ?_ _
      rintro ⟨_, _, hthread⟩
      cases hi.symm.trans hthread
      exact hother ⟨rfl, rfl⟩
  present k' hk hle id' hsome := by
    simp only [State.at, update_update_apply] at hsome
    split at hsome
    case isTrue hthis =>
      rw [hthis.2]
      exact hid
    case isFalse => exact h.present k' hk hle id' hsome
  ready := forall_update (P := fun _ => Ready c) h.ready (.inl hops)

/-- The writer finds what it wants to insert, and is dead. -/
theorem Inv.duplicate (h : Inv c s) {k id : Nat} {doc : Document} {ops : List Op}
    (hi : s.thread i = .within k (.insert id doc :: ops)) (hthere : (s.db k id).isSome = true) :
    Inv c (s.at i .dead) where
  missing k' hk hle id' hid' hidle hnone := by
    refine h.missing_at hk hle hid' hidle hnone ?_ _
    rintro ⟨_, _, hthread⟩
    cases hi.symm.trans hthread
    exact Option.not_isSome_iff_eq_none.mpr hnone hthere
  present := h.present
  ready := forall_update (P := fun _ => Ready c) h.ready trivial

theorem Inv.next {s' : State n} (h : Inv c s) (hstep : stepNext i s = some s') : Inv c s' := by
  unfold stepNext at hstep
  cases hi : s.thread i with
  | loop | stopped | dead => simp [hi] at hstep
  | within k ops =>
    have hready := h.ready i
    rw [hi] at hready
    rcases hready with hpaired | ⟨id, doc, rest, rfl, hid, hrest⟩
    · cases hpaired with
      | nil =>
        simp only [hi, Option.some.injEq] at hstep
        subst hstep
        refine h.at trivial fun k' id hinserting => ?_
        obtain ⟨_, _, hthread⟩ := hinserting
        rw [hthread] at hi
        cases hi
      | @other op ops hop hops =>
        obtain ⟨coll, happly, hcoll⟩ := apply_of_not_replaces (s.db k) hop
        simp only [hi, happly, Option.some.injEq] at hstep
        subst hstep
        have hremoved : removed s i k op = s.removedBy := by
          cases op with
          | remove => cases hop
          | _ => rfl
        rw [hremoved]
        exact h.other hi hop hcoll (.inl hops)
      | @pair id doc ops hid hops =>
        simp only [hi, Op.apply, Option.some.injEq] at hstep
        subst hstep
        exact h.remove hi hid hops
    · simp only [hi, Op.apply] at hstep
      split at hstep
      case h_1 hnone =>
        cases hstep
        have hthere : (s.db k id).isSome = true := by
          by_contra hmissing
          simp [hmissing] at hnone
        exact h.duplicate hi hthere
      case h_2 coll hcoll =>
        cases hstep
        by_cases hthere : (s.db k id).isSome = true
        · simp [hthere] at hcoll
        · rw [if_neg hthere, Option.some.injEq] at hcoll
          subst hcoll
          exact h.insert hi hid hrest

theorem Inv.step {s' : State n} {e : Event c n} (h : Inv c s) (hstep : step e s = some s') :
    Inv c s' := by
  cases e with
  | begin i d =>
    simp only [DocumentSet.step] at hstep
    split at hstep
    case h_1 hi hdone =>
      cases hstep
      refine h.at (.inl (paired_operations d)) fun k' id hinserting => ?_
      obtain ⟨_, _, hthread⟩ := hinserting
      rw [hthread] at hi
      cases hi
    case h_2 => cases hstep
  | leave i =>
    simp only [DocumentSet.step] at hstep
    split at hstep
    case h_1 hi hdone =>
      cases hstep
      refine h.at trivial fun k' id hinserting => ?_
      obtain ⟨_, _, hthread⟩ := hinserting
      rw [hthread] at hi
      cases hi
    case h_2 => cases hstep
  | next i => exact h.next hstep
  | timeUp =>
    cases hstep
    exact ⟨h.missing, h.present, h.ready⟩

end

/-- **A missing document is on its way back**, in every state of every run. -/
theorem keeps_run (t : Tables c) {es : List (Event c n)} {s : State n}
    (hrun : run step es (start t n) = some s) : Keeps c s :=
  (run_invariant Inv.step (inv_start t) hrun).keeps

/-- The only document is out, and its writer is about to insert it. -/
theorem keeps_removed : ∃ (t : Tables ⟨1, 1, 1, 0, 0, 0, 0, 0, 0, 0, 1⟩)
    (d : Draws ⟨1, 1, 1, 0, 0, 0, 0, 0, 0, 0, 1⟩) (s : State 1),
    run step [.begin 0 d, .next 0] (start t 1) = some s ∧ s.db 1 1 = none ∧
      Keeps ⟨1, 1, 1, 0, 0, 0, 0, 0, 0, 0, 1⟩ s := by
  let d : Draws ⟨1, 1, 1, 0, 0, 0, 0, 0, 0, 0, 1⟩ := ⟨0, fun _ => 0, fun _ => 0, fun _ => 0,
    fun _ => 0, fun _ => 0, fun _ => 0, fun _ => 0, fun _ => "", fun _ => 0, fun _ => ⟨1, "", ""⟩⟩
  have hfull : Full ⟨1, 1, 1, 0, 0, 0, 0, 0, 0, 0, 1⟩
      fun id => if id = 1 then some ⟨1, "", ""⟩ else none := by
    intro id
    by_cases hid : id = 1
    · simp [hid]
    · simp only [hid, if_false]
      exact iff_of_false nofun (by omega)
  let t : Tables ⟨1, 1, 1, 0, 0, 0, 0, 0, 0, 0, 1⟩ := ⟨_, fun _ _ _ => hfull⟩
  have hrun : run step [.begin 0 d, .next 0] (start t 1) = some _ := rfl
  exact ⟨t, d, _, hrun, rfl, keeps_run t hrun⟩

end TokuQa.MongoSysbench.DocumentSet
