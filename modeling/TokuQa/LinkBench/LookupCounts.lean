import Mathlib.Algebra.Order.BigOperators.Group.List
import TokuQa.Lib.Run
import TokuQa.LinkBench.OpMultiple

/-!
# `LinkBenchRequest.java`, the links that are looked up

A requester counts the id2s it has asked the store for and found, and those it has not found. A
request adds to one of the two counts only: to the links found if there are any, and else to those
not found. So the id2s that a request does not find beside others that it does are counted nowhere,
and the counts make up for what was requested exactly when every request finds all or nothing
(`counted_iff`).

The counts are natural numbers, less than a `long` holds. `requested` is the number of id2s the
store was asked for; no step reads it.
-/

set_option autoImplicit false

namespace TokuQa.LinkBench

open TokuQa.Lib OpChooser

/-- What a requester, a `LinkBenchRequest`, has counted. -/
structure LookupCounts where
  numfound : Nat
  numnotfound : Nat
  requested : Nat
deriving DecidableEq

/-- What a request takes and gets: the number that `multigetDist`, where there is one, gives; the
id1, the type and the numbers that are drawn; and the answer of the store, which can be no array. -/
structure Lookup (Link : Type) where
  multigetDist : Option Nat
  id1 : Int
  linkType : Int
  nextInt : Nat → Int → Int
  links : Option (List Link)

namespace LookupCounts

variable {Link : Type}

def getLink (links : Option (List Link)) : Nat := links.elim 0 List.length

def nid2s (q : Lookup Link) : Nat := q.multigetDist.getD 1

def start : LookupCounts := ⟨0, 0, 0⟩

/-- `oneRequest`, for `MULTIGET_LINK`; nothing if the request fails. -/
def multigetLink (c : OpChooser) (q : Lookup Link) (s : LookupCounts) :
    Option LookupCounts := do
  let nid2s := nid2s q
  let id2s ← (c.chooseMultipleForOp q.nextInt q.id1 q.linkType nid2s pGetExist).toOption
  let found := getLink q.links
  let s := { s with requested := s.requested + id2s.length }
  if ¬ found ≤ nid2s then none
  else if 0 < found then some { s with numfound := s.numfound + found }
  else some { s with numnotfound := s.numnotfound + (nid2s - found) }

/-! ## The id2s of a request -/

theorem length_drawId2s {c : OpChooser} {nextInt : Nat → Int → Int} {id1 range : Int} {n k : Nat}
    {id2s out : List Int} (h : c.drawId2s nextInt id1 range n id2s k = .ok out) :
    out.length = id2s.length + n := by
  induction n generalizing id2s k with
  | zero =>
    cases h
    rfl
  | succ n ih =>
    cases hfirst : c.uniqueId2 nextInt id1 range id2s maxUniqIters k with
    | error e => simp [drawId2s, hfirst, bind, Except.bind] at h
    | ok r =>
      simp only [drawId2s, hfirst, bind, Except.bind] at h
      rw [ih h, List.length_append, List.length_singleton]
      omega

theorem length_chooseMultipleForOp {c : OpChooser} {nextInt : Nat → Int → Int} {id1 linkType : Int}
    {n : Nat} {p : ℚ} {id2s : List Int}
    (h : c.chooseMultipleForOp nextInt id1 linkType n p = .ok id2s) : id2s.length = n := by
  cases hcount : c.calcLinkCount id1 linkType with
  | error e => simp [chooseMultipleForOp, hcount, bind, Except.bind] at h
  | ok nlinks =>
    simp only [chooseMultipleForOp, hcount, bind, Except.bind] at h
    split at h
    · cases h
      rw [fillId2s, List.length_map, List.length_range]
    · rw [length_drawId2s h, List.length_nil, Nat.zero_add]

/-! ## What a request counts -/

/-- The id2s that a request has counted. -/
def counted (q : Lookup Link) : Nat :=
  if 0 < getLink q.links then getLink q.links else nid2s q - getLink q.links

theorem multigetLink_counts {c : OpChooser} {q : Lookup Link} {s s' : LookupCounts}
    (h : multigetLink c q s = some s') :
    s'.numfound + s'.numnotfound = s.numfound + s.numnotfound + counted q ∧
      s'.requested = s.requested + nid2s q := by
  obtain ⟨id2s, hid2s, hrest⟩ := Option.bind_eq_some_iff.mp h
  have hlen : id2s.length = nid2s q := by
    cases hchoose : c.chooseMultipleForOp q.nextInt q.id1 q.linkType (nid2s q) pGetExist with
    | error e =>
      rw [hchoose] at hid2s
      cases hid2s
    | ok out =>
      rw [hchoose] at hid2s
      cases hid2s
      exact length_chooseMultipleForOp hchoose
  dsimp only at hrest
  unfold counted
  split_ifs at hrest ⊢ with hle hpos
  all_goals
    cases hrest
    rw [hlen]
    dsimp only
    omega

/-- Nothing but a partly found request is counted too low. -/
theorem counted_le {q : Lookup Link} (h : getLink q.links ≤ nid2s q) :
    counted q ≤ nid2s q ∧
      (counted q = nid2s q ↔ getLink q.links = 0 ∨ getLink q.links = nid2s q) := by
  unfold counted
  split_ifs <;> omega

/-- **When the counts make up for what was requested.** -/
theorem counted_iff {c : OpChooser} {requests : List (Lookup Link)} {s : LookupCounts}
    (hfound : ∀ q ∈ requests, getLink q.links ≤ nid2s q)
    (h : run (multigetLink c) requests start = some s) :
    s.numfound + s.numnotfound = s.requested ↔
      ∀ q ∈ requests, getLink q.links = 0 ∨ getLink q.links = nid2s q := by
  have hcounted : s.numfound + s.numnotfound = 0 + (requests.map counted).sum :=
    run_adds (J := fun _ => True) (f := fun s : LookupCounts => s.numfound + s.numnotfound)
      (g := fun q : Lookup Link => counted q) (fun _ _ => trivial)
      (fun _ hstep => (multigetLink_counts hstep).1) trivial h
  have hrequested : s.requested = 0 + (requests.map nid2s).sum :=
    run_adds (J := fun _ => True) (f := fun s : LookupCounts => s.requested)
      (g := fun q : Lookup Link => nid2s q) (fun _ _ => trivial)
      (fun _ hstep => (multigetLink_counts hstep).2) trivial h
  rw [hcounted, hrequested, Nat.zero_add, Nat.zero_add]
  constructor
  · intro heq q hq
    rw [← (counted_le (hfound q hq)).2]
    by_contra hne
    have hlt := List.sum_lt_sum counted nid2s (fun q hq => (counted_le (hfound q hq)).1)
      ⟨q, hq, lt_of_le_of_ne (counted_le (hfound q hq)).1 hne⟩
    exact hlt.ne heq
  · intro hall
    exact congrArg List.sum
      (List.map_congr_left fun q hq => (counted_le (hfound q hq)).2.mpr (hall q hq))

/-- Two id2s, one of which is found. -/
def partlyFound : Lookup Unit := ⟨some 2, 2, defaultLinkType, fun _ _ => 0, some [()]⟩

/-- The other one, which is not. -/
def notFound : Lookup Unit := ⟨none, 2, defaultLinkType, fun _ _ => 0, none⟩

theorem counted_notFound :
    (⟨0, 1, 1⟩ : LookupCounts).numfound + (⟨0, 1, 1⟩ : LookupCounts).numnotfound =
        (⟨0, 1, 1⟩ : LookupCounts).requested ↔
      ∀ q ∈ [notFound], getLink q.links = 0 ∨ getLink q.links = nid2s q :=
  counted_iff (c := ofTwoRequesters) (by decide) (by decide +kernel)

theorem not_counted : ¬ ∀ (c : OpChooser) (requests : List (Lookup Unit)) (s : LookupCounts),
    (∀ q ∈ requests, getLink q.links ≤ nid2s q) →
      run (multigetLink c) requests start = some s →
        s.numfound + s.numnotfound = s.requested := by
  intro h
  have hsum := h ofTwoRequesters [partlyFound] ⟨1, 0, 2⟩ (by decide) (by decide +kernel)
  exact absurd hsum (by decide)

end LookupCounts

end TokuQa.LinkBench
