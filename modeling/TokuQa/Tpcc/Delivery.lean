import TokuQa.Tpcc.ByName

/-!
# `delivery.c`

For each district of the warehouse the oldest order in `new_orders` is taken out of it, the order
gets a carrier and its lines a date, and the customer is charged the sum of its lines. Each district
is committed for itself; an error ends the function with what the districts before it have
committed.

Number 0 stands for no order. `SUM` over no lines is `NULL`, which is not stored: `ol_total` keeps
what it has (`olTotal`), be it from the district before.
-/

set_option autoImplicit false

namespace TokuQa.Tpcc

open TokuQa.Lib

/-- `DIST_PER_WARE`. -/
def distPerWare : Nat := 10

/-- The districts of a warehouse, in the order of the loop. -/
def districts : List Int := (List.range distPerWare).map fun i : Nat => (i : Int) + 1

structure DeliveryArgs where
  wId : Int
  oCarrierId : Int
  datetime : String

/-- The numbers of the district's undelivered orders. -/
def newOrdersOf (t : Database) (k : DistrictKey) : List Int :=
  (t.newOrders.select fun r => (r.noWId, r.noDId) = k).map NewOrder.noOId

/-- `COALESCE(MIN(no_o_id), 0)`. -/
def oldest (t : Database) (k : DistrictKey) : Int := (newOrdersOf t k).min?.getD 0

def deleteNewOrder (k : DistrictKey × Int) (t : Database) : Database :=
  { t with newOrders := t.newOrders.delete fun r => r.key = k }

def setCarrier (k : DistrictKey × Int) (oCarrierId : Int) (t : Database) : Database :=
  { t with
    orders := t.orders.update (fun r => r.key = k)
      ⟨fun r => { r with oCarrierId := some oCarrierId }, fun _ => rfl⟩ }

def setDelivered (k : DistrictKey × Int) (datetime : String) (t : Database) : Database :=
  { t with
    orderLine := t.orderLine.update (fun r => r.order = k)
      ⟨fun r => { r with olDeliveryD := some datetime }, fun _ => rfl⟩ }

/-- `SUM(ol_amount)`. -/
def sumAmount (k : DistrictKey × Int) (t : Database) : Option ℚ :=
  match t.orderLine.select fun r => r.order = k with
  | [] => none
  | lines => some (lines.map OrderLine.olAmount).sum

def charge (k : DistrictKey × Int) (olTotal : ℚ) (t : Database) : Database :=
  { t with
    customer := t.customer.update (fun r => r.key = k)
      ⟨fun r => { r with cBalance := r.cBalance + olTotal, cDeliveryCnt := r.cDeliveryCnt + 1 },
        fun _ => rfl⟩ }

/-- A turn of the loop; it returns what `ol_total` holds behind it. -/
def deliveryDistrict (a : DeliveryArgs) (olTotal : ℚ) (dId : Int) :
    Work Site Label Database ℚ := do
  let noOId ← Work.fetch (.stmt 25 dId) .sqlerr fun t => some (oldest t (a.wId, dId))
  if noOId = 0 then return olTotal
  else
    Work.write (.stmt 26 dId) .sqlerr fun t => some (deleteNewOrder ((a.wId, dId), noOId) t)
    let cId ← Work.fetch (.stmt 27 dId) .sqlerr fun t =>
      (t.orders.find? ((a.wId, dId), noOId)).map Order.oCId
    Work.write (.stmt 28 dId) .sqlerr fun t =>
      some (setCarrier ((a.wId, dId), noOId) a.oCarrierId t)
    Work.write (.stmt 29 dId) .sqlerr fun t =>
      some (setDelivered ((a.wId, dId), noOId) a.datetime t)
    let sum ← Work.fetch (.stmt 30 dId) .sqlerr fun t => some (sumAmount ((a.wId, dId), noOId) t)
    let olTotal := sum.getD olTotal
    Work.write (.stmt 31 dId) .sqlerr fun t => some (charge ((a.wId, dId), cId) olTotal t)
    Work.write (.commit dId) .sqlerr some
    return olTotal

/-- The loop over the districts `ds`: the return value and the committed tables. -/
def deliveryLoop (a : DeliveryArgs) (strike : Option Site) :
    List Int → ℚ → Database → Int × Database
  | [], _, t => (1, t)
  | dId :: ds, olTotal, t =>
    match deliveryDistrict a olTotal dId strike t with
    | .ok (olTotal, t) => deliveryLoop a strike ds olTotal t
    | .error _ => (0, t)

/-- `stale` is what `ol_total` holds at the start. -/
def delivery (a : DeliveryArgs) (stale : ℚ) (strike : Option Site) (t : Database) :
    Int × Database :=
  deliveryLoop a strike districts stale t

/-! ## A district -/

/-- The tables after the delivery of the order `k` of the customer `cId`. -/
def delivered (a : DeliveryArgs) (k : DistrictKey × Int) (cId : Int) (olTotal : ℚ) (t : Database) :
    Database :=
  charge (k.1, cId) ((sumAmount k (setDelivered k a.datetime t)).getD olTotal)
    (setDelivered k a.datetime (setCarrier k a.oCarrierId (deleteNewOrder k t)))

/-- What a turn of the loop needs to be committed: the error strikes none of its statements,
and the order has its row. -/
def clean (wId : Int) (strike : Option Site) (t : Database) (dId : Int) : Bool :=
  decide (strike ≠ some (.stmt 25 dId)) &&
  (decide (oldest t (wId, dId) = 0) ||
    [26, 27, 28, 29, 30, 31].all (fun n => decide (strike ≠ some (.stmt n dId))) &&
    decide (strike ≠ some (.commit dId)) &&
    (t.orders.find? ((wId, dId), oldest t (wId, dId))).isSome)

section

variable {a : DeliveryArgs} {strike : Option Site} {t t' : Database} {dId : Int}
  {olTotal olTotal' : ℚ}

/-- **What a turn commits**: nothing if there is no order, or the oldest order's delivery. -/
theorem deliveryDistrict_eq_ok
    (h : deliveryDistrict a olTotal dId strike t = .ok (olTotal', t')) :
    oldest t (a.wId, dId) = 0 ∧ t' = t ∨
    oldest t (a.wId, dId) ≠ 0 ∧ ∃ r, t.orders.find? ((a.wId, dId), oldest t (a.wId, dId)) = some r ∧
      t' = delivered a ((a.wId, dId), oldest t (a.wId, dId)) r.oCId olTotal t := by
  unfold deliveryDistrict at h
  obtain ⟨noOId, t₁, hmin, h⟩ := Work.bind_eq_ok.mp h
  obtain ⟨-, hmin, rfl⟩ := Work.fetch_eq_ok.mp hmin
  obtain rfl := Option.some.inj hmin
  by_cases hzero : oldest t₁ (a.wId, dId) = 0
  · rw [if_pos hzero] at h
    exact .inl ⟨hzero, (Work.pure_eq_ok.mp h).2.symm⟩
  · rw [if_neg hzero] at h
    simp only [Work.bind_eq_ok, Work.write_eq_ok, Work.fetch_eq_ok, Work.pure_eq_ok] at h
    obtain ⟨_, t₂, ⟨-, ht₂⟩, cId, _, ⟨-, hcId, rfl⟩, _, t₃, ⟨-, ht₃⟩, _, t₄, ⟨-, ht₄⟩, sum, _,
      ⟨-, hsum, rfl⟩, _, t₅, ⟨-, ht₅⟩, _, t₆, ⟨-, ht₆⟩, -, rfl⟩ := h
    obtain rfl := Option.some.inj ht₂
    obtain ⟨r, hr, rfl⟩ := Option.map_eq_some_iff.mp hcId
    obtain rfl := Option.some.inj ht₃
    obtain rfl := Option.some.inj ht₄
    obtain rfl := Option.some.inj hsum
    obtain rfl := Option.some.inj ht₅
    obtain rfl := Option.some.inj ht₆
    exact .inr ⟨hzero, r, hr, rfl⟩

/-- A turn that is committed is a clean one. -/
theorem clean_of_eq_ok (h : deliveryDistrict a olTotal dId strike t = .ok (olTotal', t')) :
    clean a.wId strike t dId = true := by
  unfold deliveryDistrict at h
  obtain ⟨noOId, t₁, hmin, h⟩ := Work.bind_eq_ok.mp h
  obtain ⟨h25, hmin, rfl⟩ := Work.fetch_eq_ok.mp hmin
  obtain rfl := Option.some.inj hmin
  by_cases hzero : oldest t₁ (a.wId, dId) = 0
  · simp [clean, h25, hzero]
  · rw [if_neg hzero] at h
    simp only [Work.bind_eq_ok, Work.write_eq_ok, Work.fetch_eq_ok, Work.pure_eq_ok] at h
    obtain ⟨_, t₂, ⟨h26, ht₂⟩, cId, _, ⟨h27, hcId, rfl⟩, _, t₃, ⟨h28, -⟩, _, t₄, ⟨h29, -⟩, sum, _,
      ⟨h30, -, rfl⟩, _, t₅, ⟨h31, -⟩, _, t₆, ⟨hcommit, -⟩, -, -⟩ := h
    obtain rfl := Option.some.inj ht₂
    obtain ⟨r, hr, rfl⟩ := Option.map_eq_some_iff.mp hcId
    have hr' : t₁.orders.find? ((a.wId, dId), oldest t₁ (a.wId, dId)) = some r := hr
    simp [clean, *]

/-- A clean turn is committed. -/
theorem exists_ok_of_clean (h : clean a.wId strike t dId = true) (olTotal : ℚ) :
    ∃ olTotal' t', deliveryDistrict a olTotal dId strike t = .ok (olTotal', t') := by
  unfold clean at h
  simp only [Bool.and_eq_true, Bool.or_eq_true, decide_eq_true_eq, List.all_eq_true] at h
  obtain ⟨h25, hrest⟩ := h
  have hmin : Work.fetch (.stmt 25 dId) Label.sqlerr
      (fun t => some (oldest t (a.wId, dId))) strike t = .ok (oldest t (a.wId, dId), t) :=
    Work.fetch_eq_ok.mpr ⟨h25, rfl, rfl⟩
  unfold deliveryDistrict
  rw [Work.bind_of_ok hmin]
  by_cases hzero : oldest t (a.wId, dId) = 0
  · rw [if_pos hzero]
    exact ⟨_, _, rfl⟩
  · rw [if_neg hzero]
    obtain ⟨⟨hstrike, hcommit⟩, hrow⟩ := hrest.resolve_left hzero
    obtain ⟨r, hr⟩ := Option.isSome_iff_exists.mp hrow
    refine ⟨_, _, Work.bind_eq_ok.mpr ⟨(), _, Work.write_eq_ok.mpr ⟨hstrike 26 (by decide), rfl⟩,
      Work.bind_eq_ok.mpr ⟨r.oCId, _, Work.fetch_eq_ok.mpr ⟨hstrike 27 (by decide), ?_, rfl⟩,
      Work.bind_eq_ok.mpr ⟨(), _, Work.write_eq_ok.mpr ⟨hstrike 28 (by decide), rfl⟩,
      Work.bind_eq_ok.mpr ⟨(), _, Work.write_eq_ok.mpr ⟨hstrike 29 (by decide), rfl⟩,
      Work.bind_eq_ok.mpr ⟨_, _, Work.fetch_eq_ok.mpr ⟨hstrike 30 (by decide), rfl, rfl⟩,
      Work.bind_eq_ok.mpr ⟨(), _, Work.write_eq_ok.mpr ⟨hstrike 31 (by decide), rfl⟩,
      Work.bind_eq_ok.mpr ⟨(), _, Work.write_eq_ok.mpr ⟨hcommit, rfl⟩, rfl⟩⟩⟩⟩⟩⟩⟩⟩
    exact congrArg (Option.map Order.oCId) hr

end

/-! ## The undelivered orders -/

/-- The undelivered orders of the district behind a turn of the loop. -/
def newOrdersRest (t : Database) (k : DistrictKey) : List Int :=
  if oldest t k = 0 then newOrdersOf t k else (newOrdersOf t k).filter fun o => o ≠ oldest t k

section

variable {a : DeliveryArgs} {strike : Option Site} {t t' : Database} {k : DistrictKey}

theorem oldest_mem (h : oldest t k ≠ 0) :
    oldest t k ∈ newOrdersOf t k ∧ ∀ o ∈ newOrdersOf t k, oldest t k ≤ o := by
  unfold oldest at h ⊢
  cases hmin : (newOrdersOf t k).min? with
  | none => exact absurd (by rw [hmin]; rfl) h
  | some o => exact List.min?_eq_some_iff.mp hmin

theorem newOrdersOf_delivered (a : DeliveryArgs) (k k' : DistrictKey) (o cId : Int) (olTotal : ℚ)
    (t : Database) : newOrdersOf (delivered a (k, o) cId olTotal t) k' =
      if k' = k then (newOrdersOf t k).filter (fun o' => o' ≠ o) else newOrdersOf t k' := by
  have hrows : (delivered a (k, o) cId olTotal t).newOrders =
      t.newOrders.delete fun r => r.key = (k, o) := rfl
  unfold newOrdersOf Rows.select
  rw [hrows]
  unfold Rows.delete
  rw [List.filter_filter]
  split
  · rename_i hk
    subst hk
    rw [List.filter_map, List.filter_filter]
    refine congrArg (List.map _) (List.filter_congr fun r _ => ?_)
    simp only [Function.comp_apply, NewOrder.key, Prod.mk.injEq]
    by_cases hd : (r.noWId, r.noDId) = k' <;> by_cases ho : r.noOId = o <;> simp_all
  · rename_i hk
    refine congrArg (List.map _) (List.filter_congr fun r _ => ?_)
    simp only [NewOrder.key, Prod.mk.injEq]
    by_cases hd : (r.noWId, r.noDId) = k' <;> simp_all

theorem isSome_order_delivered (a : DeliveryArgs) (k k' : DistrictKey × Int) (cId : Int)
    (olTotal : ℚ) (t : Database) :
    ((delivered a k cId olTotal t).orders.find? k').isSome = (t.orders.find? k').isSome := by
  have hrows : (delivered a k cId olTotal t).orders = (setCarrier k a.oCarrierId t).orders := rfl
  rw [hrows, setCarrier, Rows.find?_update, Option.isSome_map]

/-- **A turn of the loop** takes the oldest order out of its district, and leaves the orders of
the others. -/
theorem newOrdersOf_of_eq_ok {olTotal olTotal' : ℚ} {dId : Int}
    (h : deliveryDistrict a olTotal dId strike t = .ok (olTotal', t')) :
    (∀ k, newOrdersOf t' k =
      if k = (a.wId, dId) then newOrdersRest t k else newOrdersOf t k) ∧
    ∀ k, (t'.orders.find? k).isSome = (t.orders.find? k).isSome := by
  rcases deliveryDistrict_eq_ok h with ⟨hzero, rfl⟩ | ⟨hne, r, -, rfl⟩
  · refine ⟨fun k => ?_, fun _ => rfl⟩
    split
    · rename_i hk
      rw [hk, newOrdersRest, if_pos hzero]
    · rfl
  · refine ⟨fun k => ?_, fun k => isSome_order_delivered ..⟩
    rw [newOrdersOf_delivered]
    split
    · rename_i hk
      rw [hk, newOrdersRest, if_neg hne]
    · rfl

theorem clean_congr {wId dId : Int}
    (hno : newOrdersOf t' (wId, dId) = newOrdersOf t (wId, dId))
    (horders : ∀ k, (t'.orders.find? k).isSome = (t.orders.find? k).isSome) :
    clean wId strike t' dId = clean wId strike t dId := by
  have hold : oldest t' (wId, dId) = oldest t (wId, dId) := by rw [oldest, oldest, hno]
  rw [clean, clean, hold, horders]

theorem takeWhile_congr {α : Type} {p q : α → Bool} {l : List α} (h : ∀ x ∈ l, p x = q x) :
    l.takeWhile p = l.takeWhile q := by
  induction l with
  | nil => rfl
  | cons x l ih =>
    rw [List.takeWhile_cons, List.takeWhile_cons, h x List.mem_cons_self,
      ih fun y hy => h y (List.mem_cons_of_mem _ hy)]

/-- The districts a call gets past. -/
def passed (wId : Int) (strike : Option Site) (t : Database) (ds : List Int) : List Int :=
  ds.takeWhile (clean wId strike t)

/-- **A call** takes the oldest order out of each district it gets past, and returns 1 if that
is all of them. -/
theorem deliveryLoop_spec {ds : List Int} (hnd : ds.Nodup) (olTotal : ℚ) :
    ((deliveryLoop a strike ds olTotal t).1 =
      if passed a.wId strike t ds = ds then 1 else 0) ∧
    ∀ k, newOrdersOf (deliveryLoop a strike ds olTotal t).2 k =
      if k.1 = a.wId ∧ k.2 ∈ passed a.wId strike t ds then newOrdersRest t k
      else newOrdersOf t k := by
  induction ds generalizing olTotal t with
  | nil => exact ⟨rfl, fun k => by simp [passed, deliveryLoop]⟩
  | cons d ds ih =>
    obtain ⟨hd, hnd⟩ := List.nodup_cons.mp hnd
    cases hclean : clean a.wId strike t d with
    | false =>
      have herror : ∃ e, deliveryDistrict a olTotal d strike t = .error e := by
        cases hturn : deliveryDistrict a olTotal d strike t with
        | error e => exact ⟨e, rfl⟩
        | ok p => exact absurd (clean_of_eq_ok hturn) (by rw [hclean]; decide)
      obtain ⟨e, he⟩ := herror
      have hnil : passed a.wId strike t (d :: ds) = [] := by simp [passed, hclean]
      rw [deliveryLoop, he, hnil]
      exact ⟨by simp, fun k => by simp⟩
    | true =>
      obtain ⟨olTotal', t₁, hturn⟩ := exists_ok_of_clean hclean olTotal
      obtain ⟨hno, horders⟩ := newOrdersOf_of_eq_ok hturn
      have hother : ∀ d' ∈ ds, clean a.wId strike t₁ d' = clean a.wId strike t d' := by
        intro d' hd'
        have hne : (a.wId, d') ≠ (a.wId, d) := by
          intro he
          rw [Prod.mk.injEq] at he
          exact hd (he.2 ▸ hd')
        exact clean_congr ((hno _).trans (if_neg hne)) horders
      have hpassed : passed a.wId strike t (d :: ds) = d :: passed a.wId strike t₁ ds := by
        rw [passed, List.takeWhile_cons, if_pos hclean, passed]
        exact congrArg _ (takeWhile_congr fun d' hd' => (hother d' hd').symm)
      obtain ⟨hret, hrest⟩ := ih hnd (t := t₁) olTotal'
      rw [deliveryLoop, hturn, hpassed]
      refine ⟨by simpa using hret, fun k => ?_⟩
      rw [hrest k]
      by_cases hk : k = (a.wId, d)
      · have hno_d : d ∉ passed a.wId strike t₁ ds := fun hm =>
          hd ((List.takeWhile_prefix _).subset hm)
        subst hk
        rw [if_neg fun h => hno_d h.2, if_pos ⟨rfl, List.mem_cons_self⟩, hno, if_pos rfl]
      · have hsame : newOrdersOf t₁ k = newOrdersOf t k := (hno k).trans (if_neg hk)
        have hold : newOrdersRest t₁ k = newOrdersRest t k := by
          rw [newOrdersRest, newOrdersRest, oldest, oldest, hsame]
        have hiff : k.1 = a.wId ∧ k.2 ∈ d :: passed a.wId strike t₁ ds ↔
            k.1 = a.wId ∧ k.2 ∈ passed a.wId strike t₁ ds := by
          refine and_congr_right fun hw => ⟨fun hm => ?_, List.mem_cons_of_mem _⟩
          exact (List.mem_cons.mp hm).resolve_left fun he => hk (Prod.ext hw he)
        rw [hold, hsame, if_congr hiff rfl rfl]

end

end TokuQa.Tpcc
