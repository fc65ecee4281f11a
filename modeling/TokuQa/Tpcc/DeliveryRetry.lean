import TokuQa.Tpcc.Delivery

/-!
# `do_delivery`: a delivery that fails is made again

`delivery` commits one district after another and reports an error of any of them as one of the
whole call, and `do_delivery` calls it again, from the first district on. What an attempt has
committed before its error is delivered again, from what is left: a second order of each of these
districts.

Each attempt comes with the statement at which an error strikes it, if any. A call delivers of
each district the order that was the oldest, and nothing else, exactly when no attempt gets past a
district with an undelivered order left of which an earlier attempt has delivered one
(`doDelivery_iff`).
-/

set_option autoImplicit false

namespace TokuQa.Tpcc

open TokuQa.Lib

/-- `MAX_RETRY`. -/
def maxRetry : Nat := 2000

/-- What an attempt meets: the error, what `ol_total` holds at the start, and the clock. -/
structure Attempt where
  strike : Option Site
  stale : ℚ
  datetime : String

/-- An attempt of a request for a warehouse and a carrier. -/
def Attempt.delivery (wId oCarrierId : Int) (x : Attempt) (t : Database) : Int × Database :=
  Tpcc.delivery ⟨wId, oCarrierId, x.datetime⟩ x.stale x.strike t

/-- The loop of `do_delivery`, with `n` attempts left, of which the next is the `i`th. -/
def doDeliveryLoop (wId oCarrierId : Int) (attempts : Nat → Attempt) :
    (n i : Nat) → Database → Int × Database
  | 0, _, t => (0, t)
  | n + 1, i, t =>
    let (ret, t) := (attempts i).delivery wId oCarrierId t
    if ret ≠ 0 then (1, t) else doDeliveryLoop wId oCarrierId attempts n (i + 1) t

/-- `do_delivery`: the return value and the committed tables. -/
def doDelivery (wId oCarrierId : Int) (attempts : Nat → Attempt) (t : Database) : Int × Database :=
  doDeliveryLoop wId oCarrierId attempts maxRetry 0 t

/-! ## What is asked of a request -/

/-- The order was undelivered and is not any more. -/
def Delivered (t₀ t : Database) (k : DistrictKey) (o : Int) : Prop :=
  o ∈ newOrdersOf t₀ k ∧ o ∉ newOrdersOf t k

def IsOldest (t : Database) (k : DistrictKey) (o : Int) : Prop :=
  o ∈ newOrdersOf t k ∧ ∀ o' ∈ newOrdersOf t k, o ≤ o'

/-- At most the oldest order of each district is delivered, and it is if the call returns 1. -/
structure DeliversOldest (wId : Int) (t₀ : Database) (r : Int × Database) : Prop where
  oldest : ∀ d ∈ districts, ∀ o, Delivered t₀ r.2 (wId, d) o → IsOldest t₀ (wId, d) o
  all : r.1 = 1 → ∀ d ∈ districts, newOrdersOf t₀ (wId, d) ≠ [] →
    ∃ o, Delivered t₀ r.2 (wId, d) o

/-- No district has 0, which stands for no order, for its oldest order. -/
def NoOrderZero (wId : Int) (t : Database) : Prop :=
  ∀ d ∈ districts, newOrdersOf t (wId, d) = [] ∨ oldest t (wId, d) ≠ 0

/-- **The condition**, for the attempts from the `i`th on: none gets past a district with an order
left of which one has been delivered since `t₀`, and if one gets past all of them there is no
order 0. -/
def RetriesSafely (wId oCarrierId : Int) (attempts : Nat → Attempt) (t₀ : Database) :
    (n i : Nat) → Database → Prop
  | 0, _, _ => True
  | n + 1, i, t =>
    (∀ d ∈ passed wId (attempts i).strike t districts,
      oldest t (wId, d) = 0 ∨ newOrdersOf t (wId, d) = newOrdersOf t₀ (wId, d)) ∧
    if passed wId (attempts i).strike t districts = districts then NoOrderZero wId t₀
    else RetriesSafely wId oCarrierId attempts t₀ n (i + 1)
      ((attempts i).delivery wId oCarrierId t).2

/-! ## An attempt -/

section

variable {wId oCarrierId : Int} {attempts : Nat → Attempt} {t₀ t : Database}

theorem nodup_districts : districts.Nodup := by decide

theorem Attempt.delivery_spec (wId oCarrierId : Int) (x : Attempt) (t : Database) :
    ((x.delivery wId oCarrierId t).1 =
      if passed wId x.strike t districts = districts then 1 else 0) ∧
    ∀ k, newOrdersOf (x.delivery wId oCarrierId t).2 k =
      if k.1 = wId ∧ k.2 ∈ passed wId x.strike t districts then newOrdersRest t k
      else newOrdersOf t k :=
  deliveryLoop_spec (a := ⟨wId, oCarrierId, x.datetime⟩) nodup_districts x.stale

theorem newOrdersRest_subset (t : Database) (k : DistrictKey) :
    newOrdersRest t k ⊆ newOrdersOf t k := by
  unfold newOrdersRest
  split
  · exact List.Subset.refl _
  · exact List.filter_subset_self _

theorem Attempt.delivery_subset (x : Attempt) (t : Database) (k : DistrictKey) :
    newOrdersOf (x.delivery wId oCarrierId t).2 k ⊆ newOrdersOf t k := by
  rw [(x.delivery_spec wId oCarrierId t).2 k]
  split
  · exact newOrdersRest_subset t k
  · exact List.Subset.refl _

theorem doDeliveryLoop_succ (n i : Nat) (t : Database) :
    doDeliveryLoop wId oCarrierId attempts (n + 1) i t =
      if passed wId (attempts i).strike t districts = districts then
        (1, ((attempts i).delivery wId oCarrierId t).2)
      else doDeliveryLoop wId oCarrierId attempts n (i + 1)
        ((attempts i).delivery wId oCarrierId t).2 := by
  have hret := ((attempts i).delivery_spec wId oCarrierId t).1
  show (if ((attempts i).delivery wId oCarrierId t).1 ≠ 0 then
      (1, ((attempts i).delivery wId oCarrierId t).2) else _) = _
  rw [hret]
  by_cases hall : passed wId (attempts i).strike t districts = districts
  · rw [if_pos hall, if_pos hall]
    rfl
  · rw [if_neg hall, if_neg hall]
    rfl

/-- Nothing comes back in the rest of a call. -/
theorem doDeliveryLoop_subset (n i : Nat) (t : Database) (k : DistrictKey) :
    newOrdersOf (doDeliveryLoop wId oCarrierId attempts n i t).2 k ⊆ newOrdersOf t k := by
  induction n generalizing i t with
  | zero => exact List.Subset.refl _
  | succ n ih =>
    rw [doDeliveryLoop_succ]
    split
    · exact (attempts i).delivery_subset t k
    · exact List.Subset.trans (ih _ _) ((attempts i).delivery_subset t k)

/-- So far each district is as it was, or its oldest order is delivered. -/
def AtMostOldest (wId : Int) (t₀ t : Database) : Prop :=
  ∀ d ∈ districts, newOrdersOf t (wId, d) = newOrdersOf t₀ (wId, d) ∨
    Tpcc.oldest t₀ (wId, d) ≠ 0 ∧ newOrdersOf t (wId, d) = newOrdersRest t₀ (wId, d)

/-- Only the oldest order is missing from the rest. -/
theorem isOldest_of_missing {k : DistrictKey} (hne : oldest t₀ k ≠ 0)
    {o : Int} (ho : o ∈ newOrdersOf t₀ k) (hno : o ∉ newOrdersRest t₀ k) : IsOldest t₀ k o := by
  rw [newOrdersRest, if_neg hne] at hno
  have heq : o = oldest t₀ k := by
    by_contra hdiff
    exact hno (List.mem_filter.mpr ⟨ho, decide_eq_true hdiff⟩)
  rw [heq]
  exact oldest_mem hne

theorem AtMostOldest.isOldest (h : AtMostOldest wId t₀ t) :
    ∀ d ∈ districts, ∀ o, Delivered t₀ t (wId, d) o → IsOldest t₀ (wId, d) o := by
  intro d hd o ⟨ho, hno⟩
  rcases h d hd with hsame | ⟨hne, hrest⟩
  · exact absurd (hsame ▸ ho) hno
  · exact isOldest_of_missing hne ho (hrest ▸ hno)

theorem oldest_notMem_rest {k : DistrictKey} (h : oldest t k ≠ 0) :
    oldest t k ∉ newOrdersRest t k := by
  rw [newOrdersRest, if_neg h]
  exact fun hm => of_decide_eq_true (List.mem_filter.mp hm).2 rfl

/-- **A careful attempt** delivers of each district at most what the call may. -/
theorem AtMostOldest.delivery {x : Attempt} (h : AtMostOldest wId t₀ t) (oCarrierId : Int)
    (hsafe : ∀ d ∈ passed wId x.strike t districts,
      oldest t (wId, d) = 0 ∨ newOrdersOf t (wId, d) = newOrdersOf t₀ (wId, d)) :
    AtMostOldest wId t₀ (x.delivery wId oCarrierId t).2 := by
  intro d hd
  rw [(x.delivery_spec wId oCarrierId t).2 (wId, d)]
  by_cases hpass : d ∈ passed wId x.strike t districts
  · rw [if_pos ⟨rfl, hpass⟩]
    by_cases hzero : oldest t (wId, d) = 0
    · rw [newOrdersRest, if_pos hzero]
      exact h d hd
    · have hsame := (hsafe d hpass).resolve_left hzero
      have hold : oldest t (wId, d) = oldest t₀ (wId, d) := by rw [oldest, oldest, hsame]
      refine .inr ⟨hold ▸ hzero, ?_⟩
      rw [newOrdersRest, newOrdersRest, hold, hsame]
  · rw [if_neg fun hp => hpass hp.2]
    exact h d hd

/-- An attempt that is not careful delivers a second order of a district. -/
theorem AtMostOldest.second {x : Attempt} (h : AtMostOldest wId t₀ t) (oCarrierId : Int) {d : Int}
    (hpass : d ∈ passed wId x.strike t districts) (hne : oldest t (wId, d) ≠ 0)
    (hdiff : newOrdersOf t (wId, d) ≠ newOrdersOf t₀ (wId, d)) :
    ∃ o, o ∈ newOrdersOf t₀ (wId, d) ∧ ¬ IsOldest t₀ (wId, d) o ∧
      o ∉ newOrdersOf (x.delivery wId oCarrierId t).2 (wId, d) := by
  have hd : d ∈ districts := (List.takeWhile_prefix _).subset hpass
  obtain ⟨hne₀, hrest⟩ := (h d hd).resolve_left hdiff
  obtain ⟨hmem, -⟩ := oldest_mem hne
  refine ⟨oldest t (wId, d), newOrdersRest_subset t₀ _ (hrest ▸ hmem), fun hold => ?_, ?_⟩
  · -- the oldest order of the beginning is not left
    have heq : oldest t (wId, d) = oldest t₀ (wId, d) :=
      le_antisymm (hold.2 _ (oldest_mem hne₀).1) ((oldest_mem hne₀).2 _ hold.1)
    rw [hrest, heq] at hmem
    exact oldest_notMem_rest hne₀ hmem
  · rw [(x.delivery_spec wId oCarrierId t).2 (wId, d), if_pos ⟨rfl, hpass⟩]
    exact oldest_notMem_rest hne

/-- A district that an attempt has got past, and whose oldest order is not 0, has a delivery. -/
theorem AtMostOldest.all_iff {x : Attempt}
    (h : AtMostOldest wId t₀ (x.delivery wId oCarrierId t).2)
    (hsub : ∀ d ∈ districts, newOrdersOf t (wId, d) ⊆ newOrdersOf t₀ (wId, d))
    (hall : passed wId x.strike t districts = districts) :
    (∀ d ∈ districts, newOrdersOf t₀ (wId, d) ≠ [] →
      ∃ o, Delivered t₀ (x.delivery wId oCarrierId t).2 (wId, d) o) ↔ NoOrderZero wId t₀ := by
  constructor
  · intro hdel d hd
    by_cases hnil : newOrdersOf t₀ (wId, d) = []
    · exact .inl hnil
    · obtain ⟨o, ho, hno⟩ := hdel d hd hnil
      rcases h d hd with hsame | ⟨hne, -⟩
      · exact absurd (hsame ▸ ho) hno
      · exact .inr hne
  · intro hzero d hd hnil
    have hne : oldest t₀ (wId, d) ≠ 0 := (hzero d hd).resolve_left hnil
    refine ⟨oldest t₀ (wId, d), (oldest_mem hne).1, fun hmem => ?_⟩
    rcases h d hd with hsame | ⟨-, hrest⟩
    · -- nothing is missing, so the attempt has found no order; but there is one
      rw [(x.delivery_spec wId oCarrierId t).2 (wId, d), hall, if_pos ⟨rfl, hd⟩] at hsame
      by_cases hzero' : oldest t (wId, d) = 0
      · rw [newOrdersRest, if_pos hzero'] at hsame
        rw [oldest, hsame] at hzero'
        exact hne hzero'
      · exact oldest_notMem_rest hzero' (hsame ▸ hsub d hd (oldest_mem hzero').1)
    · exact oldest_notMem_rest hne (hrest ▸ hmem)

theorem AtMostOldest.subset (h : AtMostOldest wId t₀ t) :
    ∀ d ∈ districts, newOrdersOf t (wId, d) ⊆ newOrdersOf t₀ (wId, d) := by
  intro d hd
  rcases h d hd with hsame | ⟨-, hrest⟩
  · exact hsame ▸ List.Subset.refl _
  · exact hrest ▸ newOrdersRest_subset t₀ _

theorem doDeliveryLoop_iff (n i : Nat) (h : AtMostOldest wId t₀ t) :
    DeliversOldest wId t₀ (doDeliveryLoop wId oCarrierId attempts n i t) ↔
      RetriesSafely wId oCarrierId attempts t₀ n i t := by
  induction n generalizing i t with
  | zero =>
    refine iff_of_true ⟨h.isOldest, fun hret => ?_⟩ trivial
    exact absurd (show (0 : Int) = 1 from hret) (by decide)
  | succ n ih =>
    rw [RetriesSafely]
    by_cases hsafe : ∀ d ∈ passed wId (attempts i).strike t districts,
        oldest t (wId, d) = 0 ∨ newOrdersOf t (wId, d) = newOrdersOf t₀ (wId, d)
    · have hnext := h.delivery oCarrierId hsafe
      rw [doDeliveryLoop_succ, and_iff_right hsafe]
      split
      · rename_i hall
        rw [← hnext.all_iff h.subset hall]
        exact ⟨fun hd => hd.all rfl, fun hd => ⟨hnext.isOldest, fun _ => hd⟩⟩
      · exact ih (i + 1) hnext
    · refine iff_of_false (fun hdel => ?_) fun hd => hsafe hd.1
      simp only [not_forall, not_or] at hsafe
      obtain ⟨d, hpass, hne, hdiff⟩ := hsafe
      obtain ⟨o, ho, hnot, hgone⟩ := h.second oCarrierId hpass hne hdiff
      have hfinal : o ∉ newOrdersOf
          (doDeliveryLoop wId oCarrierId attempts (n + 1) i t).2 (wId, d) := by
        intro hmem
        rw [doDeliveryLoop_succ] at hmem
        split at hmem
        · exact hgone hmem
        · exact hgone (doDeliveryLoop_subset _ _ _ _ hmem)
      exact hnot (hdel.oldest d ((List.takeWhile_prefix _).subset hpass) o ⟨ho, hfinal⟩)

end

/-- **A request delivers at most the oldest order of each district**, and all of these if it
returns 1, exactly when its attempts are careful. -/
theorem doDelivery_iff (wId oCarrierId : Int) (attempts : Nat → Attempt) (t₀ : Database) :
    DeliversOldest wId t₀ (doDelivery wId oCarrierId attempts t₀) ↔
      RetriesSafely wId oCarrierId attempts t₀ maxRetry 0 t₀ :=
  doDeliveryLoop_iff maxRetry 0 fun _ _ => .inl rfl

/-- Two undelivered orders in the first district of the warehouse 1. -/
def twoNewOrders : Database :=
  { Database.empty with
    newOrders := Rows.empty.insertAll [⟨1, 1, 1⟩, ⟨2, 1, 1⟩]
    orders := Rows.empty.insertAll [⟨1, 1, 1, 1, "", none, 1, 1⟩, ⟨2, 1, 1, 2, "", none, 1, 1⟩] }

/-- An error strikes the first attempt at the `SELECT` of the second district. -/
def struckOnce (i : Nat) : Attempt := ⟨if i = 0 then some (.stmt 25 2) else none, 0, "2014-01-01"⟩

/-- The request delivers both orders. -/
theorem doDelivery_struckOnce :
    ¬ DeliversOldest 1 twoNewOrders (doDelivery 1 7 struckOnce twoNewOrders) := by
  intro hdel
  have hsafe : RetriesSafely 1 7 struckOnce twoNewOrders 2000 0 twoNewOrders :=
    (doDeliveryLoop_iff 2000 0 fun _ _ => .inl rfl).mp hdel
  have hfirst : passed 1 (struckOnce 0).strike twoNewOrders districts ≠ districts := by decide
  have hsecond := hsafe.2
  rw [if_neg hfirst] at hsecond
  rcases hsecond.1 1 (by decide) with hzero | hsame
  · exact absurd hzero (by decide)
  · exact absurd hsame (by decide)

end TokuQa.Tpcc
