import Mathlib.Data.List.Pairwise
import TokuQa.Lib.Thrown
import TokuQa.MongoSysbench.Documents

/-!
# A transaction of the benchmark

With TokuMX and auto commit off the operations of a transaction are one transaction of the server.
Whatever is thrown, `finally` sends `commitTransaction`; the `rollbackTransaction` beside it is a
comment. So what was done before the operation that throws is committed.

The transaction is alone with its collection: the server keeps others off the documents it writes.
An insert then never finds its `_id`, which the remove before it has taken out.
-/

set_option autoImplicit false

namespace TokuQa.MongoSysbench.Transaction

open TokuQa.Lib

variable {c : Config}

/-- The calls inside the `try`, the first of which is `requestEnsureConnection`. -/
def calls (c : Config) (d : Draws c) : List (Collection → Option Collection) :=
  some :: (operations c d).map Op.apply

/-- If nothing was thrown, and the database that `finally` commits. -/
def transaction (c : Config) (d : Draws c) (thrown : Option Nat) (db : Db) : Bool × Db :=
  let outcome := perform (calls c d) thrown (db d.collection)
  (outcome.1, Function.update db d.collection outcome.2)

/-- What an operation makes of a document, or of its place. -/
def leaves (id : Nat) : Op → Option Document → Option Document
  | .incK startId, o => if startId = id then o.map fun doc => { doc with k := doc.k + 1 } else o
  | .setC startId cVal, o => if startId = id then o.map fun doc => { doc with c := cVal } else o
  | .remove startId, o => if startId = id then none else o
  | .insert startId doc, o => if startId = id then some doc else o
  | _, o => o

/-- The state behind all the operations. -/
def after (ops : List Op) (coll : Collection) : Collection :=
  fun id => ops.foldl (fun o op => leaves id op o) (coll id)

/-- Nothing is committed of a transaction in which something is thrown, and all of one in which
nothing is. -/
structure AllOrNothing (c : Config) (d : Draws c) (thrown : Option Nat) (db : Db) : Prop where
  nothing : (transaction c d thrown db).1 = false → (transaction c d thrown db).2 = db
  all : (transaction c d thrown db).1 = true → (transaction c d thrown db).2 =
    Function.update db d.collection (after (operations c d) (db d.collection))

/-! ## When a document is as it was -/

/-- How often `k` is counted up. -/
def incs (id : Nat) (ops : List Op) : Nat := ops.count (.incK id)

/-- The last `c` that is set. -/
def lastC (id : Nat) : List Op → Option String
  | [] => none
  | op :: ops => (lastC id ops).or (match op with
    | .setC startId cVal => if startId = id then some cVal else none
    | _ => none)

/-- What the last remove or insert leaves. -/
def lastReplaced (id : Nat) : List Op → Option (Option Document)
  | [] => none
  | op :: ops => (lastReplaced id ops).or (match op with
    | .remove startId => if startId = id then some none else none
    | .insert startId doc => if startId = id then some (some doc) else none
    | _ => none)

/-- A document is left as it was: the last insert has put the same one back, or there was none and
the last remove has taken out what was inserted; or it was only updated, and its `k` not counted up
and its `c` set to what it was. -/
def Restored (id : Nat) (ops : List Op) (o : Option Document) : Prop :=
  match lastReplaced id ops with
  | some replaced => replaced = o
  | none => ∀ doc, o = some doc → incs id ops = 0 ∧ ∀ cVal, lastC id ops = some cVal → cVal = doc.c

/-! ## What is done -/

section

variable {ops : List Op} {op : Op} {coll : Collection} {thrown : Option Nat} {id : Nat}
  {o : Option Document}

theorem after_cons (op : Op) (ops : List Op) (coll : Collection) :
    after (op :: ops) coll = after ops (after [op] coll) := rfl

/-- An operation that does not throw does what it does to each place. -/
theorem apply_eq (h : ∀ id doc, op = .insert id doc → coll id = none) :
    op.apply coll = some (after [op] coll) := by
  have hupdate : ∀ (startId : Nat) (o : Option Document),
      Function.update coll startId o = fun id => if startId = id then o else coll id := by
    intro startId o
    funext id
    by_cases hid : id = startId
    · subst hid
      rw [Function.update_self, if_pos rfl]
    · rw [Function.update_of_ne hid, if_neg (Ne.symm hid)]
  cases op with
  | findOne | find | aggregate | findSorted | distinct => rfl
  | incK startId =>
    simp only [Op.apply, hupdate, Option.some.injEq]
    funext id
    simp only [after, List.foldl_cons, List.foldl_nil, leaves]
    split
    case isTrue hid => rw [hid]
    case isFalse => rfl
  | setC startId cVal =>
    simp only [Op.apply, hupdate, Option.some.injEq]
    funext id
    simp only [after, List.foldl_cons, List.foldl_nil, leaves]
    split
    case isTrue hid => rw [hid]
    case isFalse => rfl
  | remove startId =>
    simp only [Op.apply, hupdate, Option.some.injEq]
    rfl
  | insert startId doc =>
    simp only [Op.apply, h startId doc rfl, Option.isSome_none, Bool.false_eq_true, if_false, hupdate,
      Option.some.injEq]
    rfl

/-- The operations do not throw by themselves: what is done are those before the one that is made to
throw. -/
def Runs (ops : List Op) (coll : Collection) : Prop :=
  ∀ thrown, ((perform (ops.map Op.apply) thrown coll).1 = true ↔ Completes thrown ops.length) ∧
    (perform (ops.map Op.apply) thrown coll).2 = after (reached thrown ops) coll

theorem runs_cons (happly : op.apply coll = some (after [op] coll))
    (h : Runs ops (after [op] coll)) : Runs (op :: ops) coll := by
  intro thrown
  by_cases hzero : Passes thrown 0
  · rw [List.map_cons, perform_cons op.apply hzero happly, List.length_cons, completes_succ_iff,
      reached_cons hzero, after_cons, and_iff_right hzero]
    exact h _
  · rw [List.map_cons, perform_thrown hzero, List.length_cons, completes_succ_iff,
      reached_of_not_passes hzero]
    exact ⟨iff_of_false nofun fun h => hzero h.1, rfl⟩

/-- Pairs do not throw by themselves. -/
theorem runs_of_paired (coll : Collection) (h : Paired c ops) : Runs ops coll := by
  induction h generalizing coll with
  | nil =>
    intro thrown
    rw [reached_nil]
    exact ⟨iff_of_true rfl fun k _ => Nat.zero_le k, rfl⟩
  | other hop _ ih =>
    refine runs_cons (apply_eq fun id doc hinsert => ?_) (ih _)
    rw [hinsert] at hop
    cases hop
  | pair _ _ ih =>
    refine runs_cons (apply_eq nofun) (runs_cons (apply_eq fun id doc hinsert => ?_) (ih _))
    -- the `_id` has just been removed
    cases hinsert
    exact if_pos rfl

/-! ## What is left of a document -/

theorem ordered_operations (d : Draws c) : (operations c d).Pairwise fun op op' =>
    op.replaces = true → op'.replaces = true := by
  have hinserts : ∀ op ∈ inserts c d, op.replaces = true := by
    intro op hop
    obtain ⟨i, -, hmem⟩ := List.mem_flatMap.mp hop
    simp only [List.mem_cons, List.not_mem_nil, or_false] at hmem
    rcases hmem with rfl | rfl <;> rfl
  refine List.pairwise_append.mpr ⟨?_, ?_, fun op hop op' hop' _ => hinserts op' hop'⟩
  · refine List.pairwise_iff_forall_sublist.mpr fun {op op'} hsub hreplaces => ?_
    have hop := replaces_updates d op (hsub.subset List.mem_cons_self)
    rw [hreplaces] at hop
    cases hop
  · refine List.pairwise_iff_forall_sublist.mpr fun {op op'} hsub _ => ?_
    exact hinserts op' (hsub.subset (List.mem_cons_of_mem _ List.mem_cons_self))

/-- The updates of a document, one after the other. -/
def updated (id : Nat) (ops : List Op) (doc : Document) : Document :=
  { doc with k := doc.k + incs id ops, c := (lastC id ops).getD doc.c }

/-- Removes and inserts update nothing. -/
theorem updated_of_replaces (id : Nat) (h : ∀ op ∈ ops, op.replaces = true) (doc : Document) :
    updated id ops doc = doc := by
  induction ops with
  | nil => simp [updated, incs, lastC]
  | cons op ops ih =>
    rw [List.forall_mem_cons] at h
    have hrest := ih h.2
    cases op with
    | remove | insert => simpa [updated, incs, lastC] using hrest
    | _ => cases h.1

/-- An operation that is no update of the document. -/
theorem updated_cons_of_ne (hinc : op ≠ .incK id) (hset : ∀ cVal, op ≠ .setC id cVal) :
    updated id (op :: ops) = updated id ops := by
  have hcount : incs id (op :: ops) = incs id ops := List.count_cons_of_ne hinc
  have hlast : lastC id (op :: ops) = lastC id ops := by
    cases op with
    | setC startId cVal =>
      have hid : startId ≠ id := by
        rintro rfl
        exact hset cVal rfl
      simp [lastC, hid]
    | _ => simp [lastC]
  funext doc
  rw [updated, updated, hcount, hlast]

/-- **What is left of a document** when the updates come first. -/
theorem foldl_leaves (h : ops.Pairwise fun op op' => op.replaces = true → op'.replaces = true) :
    ops.foldl (fun o op => leaves id op o) o =
      match lastReplaced id ops with
      | some replaced => replaced
      | none => o.map (updated id ops) := by
  induction ops generalizing o with
  | nil =>
    have hnil : updated id [] = fun doc => doc :=
      funext fun doc => updated_of_replaces id (List.forall_mem_nil _) doc
    simp [lastReplaced, hnil]
  | cons op ops ih =>
    rw [List.pairwise_cons] at h
    rw [List.foldl_cons, ih h.2]
    cases hlast : lastReplaced id ops with
    | some replaced => simp [lastReplaced, hlast]
    | none =>
      cases op with
      | findOne | find | aggregate | findSorted | distinct =>
        rw [updated_cons_of_ne]
        · simp [lastReplaced, hlast, leaves]
        · nofun
        · nofun
      | incK startId =>
        by_cases hid : startId = id
        · subst hid
          simp only [lastReplaced, hlast, leaves, if_pos, Option.map_map, Option.or_none]
          congr 1
          funext doc
          simp [updated, incs, lastC]
          omega
        · rw [updated_cons_of_ne (fun h => hid (Op.incK.inj h)) fun _ => nofun]
          simp [lastReplaced, hlast, leaves, hid]
      | setC startId cVal =>
        by_cases hid : startId = id
        · subst hid
          simp only [lastReplaced, hlast, leaves, if_pos, Option.map_map, Option.or_none]
          congr 1
          funext doc
          cases hc : lastC startId ops <;> simp [updated, incs, lastC, hc]
        · rw [updated_cons_of_ne]
          · simp [lastReplaced, hlast, leaves, hid]
          · nofun
          · exact fun _ h => hid (Op.setC.inj h).1
      | remove startId =>
        by_cases hid : startId = id
        · simp [lastReplaced, hlast, leaves, hid]
        · rw [updated_cons_of_ne]
          · simp [lastReplaced, hlast, leaves, hid]
          · nofun
          · nofun
      | insert startId doc =>
        by_cases hid : startId = id
        · have hsame := updated_of_replaces id (fun op hop => h.1 op hop rfl) doc
          simp [lastReplaced, hlast, leaves, hid, hsame]
        · rw [updated_cons_of_ne]
          · simp [lastReplaced, hlast, leaves, hid]
          · nofun
          · nofun

theorem foldl_leaves_eq_iff
    (h : ops.Pairwise fun op op' => op.replaces = true → op'.replaces = true) :
    ops.foldl (fun o op => leaves id op o) o = o ↔ Restored id ops o := by
  rw [foldl_leaves h, Restored]
  cases lastReplaced id ops with
  | some replaced => rfl
  | none =>
    cases o with
    | none => exact iff_of_true rfl nofun
    | some doc =>
      obtain ⟨k, cOld, pad⟩ := doc
      simp only [Option.map_some, updated, Option.some.injEq, Document.mk.injEq, and_true,
        forall_eq']
      refine and_congr (by omega) ?_
      cases lastC id ops with
      | none => exact iff_of_true rfl nofun
      | some cVal => simp

end

theorem after_eq_iff (d : Draws c) (j : Nat) (coll : Collection) :
    after ((operations c d).take j) coll = coll ↔
      ∀ id, Restored id ((operations c d).take j) (coll id) := by
  have hordered := (ordered_operations d).sublist (List.take_sublist j (operations c d))
  rw [funext_iff]
  exact forall_congr' fun id => foldl_leaves_eq_iff hordered

theorem transaction_none (d : Draws c) (db : Db) : transaction c d none db =
    (true, Function.update db d.collection (after (operations c d) (db d.collection))) := by
  have hcall : perform (calls c d) none (db d.collection) =
      perform ((operations c d).map Op.apply) none (db d.collection) :=
    perform_cons some nofun rfl
  obtain ⟨hdone, hleft⟩ := runs_of_paired (db d.collection) (paired_operations d) none
  rw [transaction, hcall, hleft, hdone.mpr nofun]
  rfl

theorem transaction_zero (d : Draws c) (db : Db) : transaction c d (some 0) db = (false, db) := by
  rw [transaction, calls, perform_thrown fun h => absurd (h 0 rfl) (Nat.lt_irrefl 0)]
  exact congrArg (Prod.mk false) (Function.update_eq_self _ _)

theorem transaction_succ (d : Draws c) (j : Nat) (db : Db) :
    ((transaction c d (some (j + 1)) db).1 = true ↔ (operations c d).length ≤ j) ∧
      (transaction c d (some (j + 1)) db).2 = Function.update db d.collection
        (after ((operations c d).take j) (db d.collection)) := by
  have hcall : perform (calls c d) (some (j + 1)) (db d.collection) =
      perform ((operations c d).map Op.apply) (some j) (db d.collection) :=
    perform_cons some (fun k hk => Option.some.inj hk ▸ Nat.succ_pos j) rfl
  obtain ⟨hdone, hleft⟩ := runs_of_paired (db d.collection) (paired_operations d) (some j)
  simp only [transaction, hcall, hleft, hdone]
  exact ⟨by simp [Completes], rfl⟩

/-- **A transaction is all or nothing exactly when**, if a call throws, each document is left as it
was by the operations before it. Call 0 is `requestEnsureConnection`. -/
theorem allOrNothing_iff (c : Config) (d : Draws c) (thrown : Option Nat) (db : Db) :
    AllOrNothing c d thrown db ↔ ∀ j, thrown = some j → j ≤ (operations c d).length →
      ∀ id, Restored id ((operations c d).take (j - 1)) (db d.collection id) := by
  cases thrown with
  | none =>
    refine iff_of_true ⟨fun hthrown => ?_, fun _ => ?_⟩ nofun
    · rw [transaction_none] at hthrown
      cases hthrown
    · rw [transaction_none]
  | some j =>
    simp only [Option.some.injEq, forall_eq']
    cases j with
    | zero =>
      refine iff_of_true ⟨fun _ => ?_, fun hall => ?_⟩ fun _ id => ?_
      · rw [transaction_zero]
      · rw [transaction_zero] at hall
        cases hall
      · exact (after_eq_iff d 0 (db d.collection)).mp rfl id
    | succ j =>
      obtain ⟨hdone, hleft⟩ := transaction_succ d j db
      rw [Nat.add_sub_cancel, ← after_eq_iff]
      constructor
      · intro h hlt
        have hnothing := h.nothing (Bool.eq_false_iff.mpr fun htrue => by
          have hle := hdone.mp htrue
          omega)
        rw [hleft] at hnothing
        have hat := congrFun hnothing d.collection
        rw [Function.update_self] at hat
        exact hat
      · intro h
        refine ⟨fun hthrown => ?_, fun hall => ?_⟩
        · have hlt : ¬ (operations c d).length ≤ j := fun hle => by
            rw [hdone.mpr hle] at hthrown
            cases hthrown
          rw [hleft, h (by omega), Function.update_eq_self]
        · rw [hleft, List.take_of_length_le (hdone.mp hall)]

/-- The insert throws, and the document that was removed is gone. -/
theorem not_allOrNothing_insert : ∃ d : Draws ⟨1, 1, 1, 0, 0, 0, 0, 0, 0, 0, 1⟩,
    ¬ AllOrNothing ⟨1, 1, 1, 0, 0, 0, 0, 0, 0, 0, 1⟩ d (some 2) fun _ _ => some ⟨1, "", ""⟩ := by
  refine ⟨⟨0, fun _ => 0, fun _ => 0, fun _ => 0, fun _ => 0, fun _ => 0, fun _ => 0, fun _ => 0,
    fun _ => "", fun _ => 0, fun _ => ⟨1, "", ""⟩⟩, fun h => ?_⟩
  have hgone := congrFun (congrFun (h.nothing (by decide)) 1) 1
  revert hgone
  decide

end TokuQa.MongoSysbench.Transaction
