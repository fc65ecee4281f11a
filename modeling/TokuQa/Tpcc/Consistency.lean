import Mathlib.Order.Bounds.Basic
import Mathlib.Tactic.Linarith
import TokuQa.Lib.Run
import TokuQa.Tpcc.Delivery
import TokuQa.Tpcc.Neword
import TokuQa.Tpcc.Payment

/-!
# Consistency over runs of the three transactions that write

`Consistent` are the conditions on the tables, `Grows` what the payments do to the sums, and a
run is any list of calls, each with the statement at which an error of the server strikes it.

The conditions alone are not kept: nothing checks the quantities, of which one above 91 leaves
a negative stock; an order without lines is delivered without a trace in its lines; and a line
whose order does not exist yet becomes one of that order. `Sound` asks for what excludes the
last two, `NewordArgs.Valid` for what the arrays hold and the stock can give; with these all of
it is kept (`run_consistent`).
-/

set_option autoImplicit false

namespace TokuQa.Tpcc

open TokuQa.Lib

/-! ## The conditions -/

def HasNewOrder (t : Database) (k : DistrictKey × Int) : Prop := ∃ r ∈ t.newOrders, r.key = k

def HasOrderRow (t : Database) (k : DistrictKey × Int) : Prop := ∃ r ∈ t.orders, r.key = k

structure Consistent (t : Database) : Prop where
  nextOId : ∀ d ∈ t.district, IsGreatest { o | HasOrderRow t (d.key, o) } (d.dNextOId - 1)
  nextNoOId : ∀ d ∈ t.district, (∃ o, HasNewOrder t (d.key, o)) →
    IsGreatest { o | HasNewOrder t (d.key, o) } (d.dNextOId - 1)
  contiguous : ∀ k o₁ o₂ o, HasNewOrder t (k, o₁) → HasNewOrder t (k, o₂) → o₁ ≤ o → o ≤ o₂ →
    HasNewOrder t (k, o)
  undelivered : ∀ r ∈ t.orders, (HasNewOrder t r.key ↔ r.oCarrierId = none) ∧
    (r.oCarrierId = none ↔ ∀ l ∈ t.orderLine, l.order = r.key → l.olDeliveryD = none)
  lines : ∀ r ∈ t.orders, 0 ≤ r.oOlCnt ∧
    ((t.orderLine.select fun l => l.order = r.key).map OrderLine.olNumber).Perm
      ((List.range r.oOlCnt.toNat).map fun i : Nat => (1 : Int) + i)
  inStock : InStock t

/-- What the conditions do not say: no order is without lines, and no line without its order. -/
structure Sound (t : Database) : Prop where
  hasLines : ∀ r ∈ t.orders, 1 ≤ r.oOlCnt
  ofOrder : ∀ l ∈ t.orderLine, HasOrderRow t l.order

/-- The sum of the amounts paid to the warehouse. -/
def paidTo (wId : Int) (history : List History) : ℚ :=
  (history.map fun h => if h.hWId = wId then h.hAmount else 0).sum

/-- The sum of the warehouse's `d_ytd`. -/
def districtsYtd (wId : Int) (t : Database) : ℚ :=
  (t.district.rows.map fun r => if r.dWId = wId then r.dYtd else 0).sum

/-- The history has got the rows `new`, and `w_ytd` and the sum of `d_ytd` have grown by their
amounts. -/
structure GrowsBy (new : List History) (t t' : Database) : Prop where
  history : t'.history = t.history ++ new
  warehouse : ∀ wId, (t'.warehouse.find? wId).map Warehouse.wYtd =
    (t.warehouse.find? wId).map fun r => r.wYtd + paidTo wId new
  districts : ∀ wId, districtsYtd wId t' = districtsYtd wId t + paidTo wId new

def Grows (t t' : Database) : Prop := ∃ new, GrowsBy new t t'

/-! ## Runs -/

/-- A call; `stale` is what `ol_total` holds at the start of a delivery. -/
inductive Call where
  | neword (a : NewordArgs)
  | payment (a : PaymentArgs)
  | delivery (a : DeliveryArgs) (stale : ℚ)

/-- The committed tables behind a call that is struck at `strike`. -/
def Call.apply (strike : Option Site) (t : Database) : Call → Database
  | .neword a => (Tpcc.neword a strike t).2
  | .payment a => (Tpcc.payment a strike t).2
  | .delivery a stale => (Tpcc.delivery a stale strike t).2

def runCalls (calls : List (Call × Option Site)) (t : Database) : Database :=
  calls.foldl (fun t c => c.1.apply c.2 t) t

/-- The arrays hold the lines, and there is stock for each. -/
structure NewordArgs.Valid (a : NewordArgs) : Prop where
  one_le : 1 ≤ a.oOlCnt
  le_max : a.oOlCnt ≤ maxNumItems
  quantity : ∀ i, i < a.oOlCnt.toNat → 0 ≤ a.qty i ∧ a.qty i ≤ 91

def Call.Valid : Call → Prop
  | .neword a => a.Valid
  | _ => True

/-! ## Tables that are as they were -/

section

variable {t t' : Database}

theorem paidTo_append (wId : Int) (h h' : List History) :
    paidTo wId (h ++ h') = paidTo wId h + paidTo wId h' := by
  rw [paidTo, List.map_append, List.sum_append]
  rfl

theorem GrowsBy.refl (t : Database) : GrowsBy [] t t := by
  refine ⟨(List.append_nil _).symm, fun wId => ?_, fun wId => ?_⟩
  · simp [paidTo]
  · simp [paidTo]

theorem GrowsBy.trans {new new' : List History} {t'' : Database} (h : GrowsBy new t t')
    (h' : GrowsBy new' t' t'') : GrowsBy (new ++ new') t t'' := by
  refine ⟨by rw [h'.history, h.history, List.append_assoc], fun wId => ?_, fun wId => ?_⟩
  · rw [h'.warehouse]
    have hw := congrArg (Option.map (· + paidTo wId new')) (h.warehouse wId)
    rw [Option.map_map, Option.map_map] at hw
    refine hw.trans (congrArg (Option.map · _) (funext fun r => ?_))
    rw [Function.comp_apply, paidTo_append, add_assoc]
  · rw [h'.districts, h.districts, paidTo_append, add_assoc]

theorem Grows.refl (t : Database) : Grows t t := ⟨[], GrowsBy.refl t⟩

theorem Grows.trans {t'' : Database} (h : Grows t t') (h' : Grows t' t'') : Grows t t'' := by
  obtain ⟨new, hnew⟩ := h
  obtain ⟨new', hnew'⟩ := h'
  exact ⟨new ++ new', hnew.trans hnew'⟩

/-- Tables in which nothing is paid. -/
theorem Grows.of_unpaid (hh : t'.history = t.history) (hw : t'.warehouse = t.warehouse)
    (hd : ∀ wId, districtsYtd wId t' = districtsYtd wId t) : Grows t t' := by
  refine ⟨[], by rw [hh, List.append_nil], fun wId => ?_, fun wId => ?_⟩
  · rw [hw]
    simp [paidTo]
  · rw [hd]
    simp [paidTo]

/-- `w_ytd` less the sum of `d_ytd` stays. -/
theorem Grows.difference (h : Grows t t') {w : Warehouse} (hw : w ∈ t.warehouse) :
    ∃ w' ∈ t'.warehouse, w'.wId = w.wId ∧
      w'.wYtd - districtsYtd w.wId t' = w.wYtd - districtsYtd w.wId t := by
  obtain ⟨new, hnew⟩ := h
  have hfind := hnew.warehouse w.wId
  have hself : t.warehouse.find? w.wId = some w := Rows.find?_eq_some_iff.mpr ⟨hw, rfl⟩
  rw [hself] at hfind
  obtain ⟨w', hw', hytd⟩ := Option.map_eq_some_iff.mp hfind
  obtain ⟨hmem, hkey⟩ := Rows.find?_eq_some_iff.mp hw'
  refine ⟨w', hmem, hkey, ?_⟩
  rw [hytd, hnew.districts]
  ring

/-- The conditions only see the numbers of the districts, the orders and the stock. -/
theorem Consistent.congr (h : Consistent t)
    (hd : ∀ d' ∈ t'.district, ∃ d ∈ t.district, d.key = d'.key ∧ d.dNextOId = d'.dNextOId)
    (hno : t'.newOrders = t.newOrders) (ho : t'.orders = t.orders)
    (hl : t'.orderLine = t.orderLine) (hs : t'.stock = t.stock) : Consistent t' := by
  obtain ⟨w, d, c, hh, no, o, l, i, s⟩ := t'
  obtain rfl : no = t.newOrders := hno
  obtain rfl : o = t.orders := ho
  obtain rfl : l = t.orderLine := hl
  obtain rfl : s = t.stock := hs
  refine ⟨fun d' hd' => ?_, fun d' hd' hex => ?_, h.contiguous, h.undelivered, h.lines, h.inStock⟩
  · obtain ⟨d, hd, hkey, hnext⟩ := hd d' hd'
    rw [← hkey, ← hnext]
    exact h.nextOId d hd
  · obtain ⟨d, hd, hkey, hnext⟩ := hd d' hd'
    rw [← hkey] at hex ⊢
    rw [← hnext]
    exact h.nextNoOId d hd hex

theorem Sound.congr (h : Sound t) (ho : t'.orders = t.orders) (hl : t'.orderLine = t.orderLine) :
    Sound t' := by
  obtain ⟨w, d, c, hh, no, o, l, i, s⟩ := t'
  obtain rfl : o = t.orders := ho
  obtain rfl : l = t.orderLine := hl
  exact ⟨h.hasLines, h.ofOrder⟩

end

/-! ## A payment -/

section

variable {a : PaymentArgs} {t t' : Database} {w : Warehouse} {d : District} {c : Customer}

theorem districtsYtd_payDistrict (hd : t.district.find? (a.wId, a.dId) = some d) (wId : Int) :
    districtsYtd wId (payDistrict a.wId a.dId a.hAmount t) =
      districtsYtd wId t + if a.wId = wId then a.hAmount else 0 := by
  obtain ⟨hmem, hkey⟩ := Rows.find?_eq_some_iff.mp hd
  have hw : d.dWId = a.wId := congrArg Prod.fst hkey
  have hi : d.dId = a.dId := congrArg Prod.snd hkey
  have hone : ∀ b ∈ t.district, decide (b.dWId = a.wId ∧ b.dId = a.dId) = true ↔ b = d := by
    intro b hb
    rw [decide_eq_true_eq]
    constructor
    · rintro ⟨hbw, hbi⟩
      exact Rows.eq_of_key hb hmem (Prod.ext (hbw.trans hw.symm) (hbi.trans hi.symm))
    · rintro rfl
      exact ⟨hw, hi⟩
  have hsum := Rows.sum_update (fun r : District => if r.dWId = wId then r.dYtd else 0)
    (f := ⟨fun r => { r with dYtd := r.dYtd + a.hAmount }, fun _ => rfl⟩) hmem hone
  unfold districtsYtd payDistrict
  rw [hw] at hsum
  by_cases hwId : a.wId = wId
  · simp only [hwId, if_true] at hsum ⊢
    linarith
  · simp only [hwId, if_false] at hsum ⊢
    linarith

theorem paid_grows (h : PaysFor a t w d c) : Grows t (paid a w d c t) := by
  refine ⟨_, rfl, fun wId => ?_, fun wId => ?_⟩
  · show ((payWarehouse a.wId a.hAmount t).warehouse.find? wId).map Warehouse.wYtd = _
    rw [payWarehouse, Rows.find?_update, Option.map_map]
    cases hfind : t.warehouse.find? wId with
    | none => rfl
    | some r =>
      obtain rfl : r.wId = wId := (Rows.find?_eq_some_iff.mp hfind).2
      by_cases hw : r.wId = a.wId
      · simp [paidTo, hw]
      · simp [paidTo, hw, Ne.symm hw]
  · refine (districtsYtd_payDistrict h.district wId).trans ?_
    simp [paidTo]

theorem Consistent.paid (h : Consistent t) : Consistent (paid a w d c t) := by
  refine h.congr (fun d' hd' => ?_) rfl rfl rfl rfl
  obtain ⟨d, hd, rfl⟩ := Rows.mem_update.mp hd'
  refine ⟨d, hd, ?_⟩
  split <;> exact ⟨rfl, rfl⟩

theorem Sound.paid (h : Sound t) : Sound (paid a w d c t) := h.congr rfl rfl

end

/-! ## A delivery -/

section

variable {a : DeliveryArgs} {t : Database} {k : DistrictKey} {o cId : Int} {olTotal : ℚ}

theorem mem_newOrdersOf : o ∈ newOrdersOf t k ↔ HasNewOrder t (k, o) := by
  unfold newOrdersOf
  rw [List.mem_map]
  constructor
  · rintro ⟨r, hr, rfl⟩
    obtain ⟨hmem, hp⟩ := Rows.mem_select.mp hr
    exact ⟨r, hmem, Prod.ext (of_decide_eq_true hp) rfl⟩
  · rintro ⟨r, hr, hkey⟩
    exact ⟨r, Rows.mem_select.mpr ⟨hr, decide_eq_true (congrArg Prod.fst hkey)⟩,
      congrArg Prod.snd hkey⟩

theorem hasNewOrder_delivered {k' : DistrictKey × Int} :
    HasNewOrder (delivered a (k, o) cId olTotal t) k' ↔ HasNewOrder t k' ∧ k' ≠ (k, o) := by
  constructor
  · rintro ⟨r, hr, rfl⟩
    obtain ⟨hmem, hp⟩ := Rows.mem_delete.mp hr
    exact ⟨⟨r, hmem, rfl⟩, of_decide_eq_false hp⟩
  · rintro ⟨⟨r, hr, rfl⟩, hne⟩
    exact ⟨r, Rows.mem_delete.mpr ⟨hr, decide_eq_false hne⟩, rfl⟩

/-- The row of an order behind a delivery. -/
theorem mem_orders_delivered {r' : Order} :
    r' ∈ (delivered a (k, o) cId olTotal t).orders ↔ ∃ r ∈ t.orders,
      r' = if r.key = (k, o) then { r with oCarrierId := some a.oCarrierId } else r := by
  have horders : (delivered a (k, o) cId olTotal t).orders =
      t.orders.update (fun r => decide (r.key = (k, o)))
        ⟨fun r => { r with oCarrierId := some a.oCarrierId }, fun _ => rfl⟩ := rfl
  rw [horders, Rows.mem_update]
  simp only [decide_eq_true_eq]

theorem mem_orderLine_delivered {l' : OrderLine} :
    l' ∈ (delivered a (k, o) cId olTotal t).orderLine ↔ ∃ l ∈ t.orderLine,
      l' = if l.order = (k, o) then { l with olDeliveryD := some a.datetime } else l := by
  have hlines : (delivered a (k, o) cId olTotal t).orderLine =
      t.orderLine.update (fun l => decide (l.order = (k, o)))
        ⟨fun l => { l with olDeliveryD := some a.datetime }, fun _ => rfl⟩ := rfl
  rw [hlines, Rows.mem_update]
  simp only [decide_eq_true_eq]

theorem hasOrderRow_delivered {k' : DistrictKey × Int} :
    HasOrderRow (delivered a (k, o) cId olTotal t) k' ↔ HasOrderRow t k' := by
  constructor
  · rintro ⟨r', hr', rfl⟩
    obtain ⟨r, hr, rfl⟩ := mem_orders_delivered.mp hr'
    exact ⟨r, hr, by split <;> rfl⟩
  · rintro ⟨r, hr, rfl⟩
    exact ⟨_, mem_orders_delivered.mpr ⟨r, hr, rfl⟩, by split <;> rfl⟩

/-- The numbers of an order's lines. -/
theorem numbers_delivered (k' : DistrictKey × Int) :
    ((delivered a (k, o) cId olTotal t).orderLine.select fun l => l.order = k').map
      OrderLine.olNumber = (t.orderLine.select fun l => l.order = k').map OrderLine.olNumber := by
  show ((t.orderLine.rows.map fun l => if decide (l.order = (k, o)) = true then
    { l with olDeliveryD := some a.datetime } else l).filter _).map _ = _
  rw [List.filter_map, List.map_map]
  have hfilter : ∀ l : OrderLine, ((fun l : OrderLine => decide (l.order = k')) ∘ fun l =>
      if decide (l.order = (k, o)) = true then { l with olDeliveryD := some a.datetime } else l) l =
      decide (l.order = k') := by
    intro l
    rw [Function.comp_apply]
    split <;> rfl
  rw [List.filter_congr fun l _ => hfilter l]
  refine List.map_congr_left fun l _ => ?_
  rw [Function.comp_apply]
  split <;> rfl

theorem exists_line (h : Consistent t) (hs : Sound t) {r : Order} (hr : r ∈ t.orders) :
    ∃ l ∈ t.orderLine, l.order = r.key := by
  have hcnt := hs.hasLines r hr
  have hfirst : (1 : Int) ∈ (List.range r.oOlCnt.toNat).map fun i : Nat => (1 : Int) + i :=
    List.mem_map.mpr ⟨0, List.mem_range.mpr (by omega), rfl⟩
  obtain ⟨l, hl, -⟩ := List.mem_map.mp ((h.lines r hr).2.mem_iff.mpr hfirst)
  obtain ⟨hmem, horder⟩ := Rows.mem_select.mp hl
  exact ⟨l, hmem, of_decide_eq_true horder⟩

/-- The lines of another order keep their dates. -/
theorem undated_delivered {k' : DistrictKey × Int} (hne : k' ≠ (k, o)) :
    (∀ l ∈ (delivered a (k, o) cId olTotal t).orderLine, l.order = k' → l.olDeliveryD = none) ↔
      ∀ l ∈ t.orderLine, l.order = k' → l.olDeliveryD = none := by
  constructor
  · intro h l hl horder
    refine h l (mem_orderLine_delivered.mpr ⟨l, hl, ?_⟩) horder
    rw [if_neg (horder ▸ hne)]
  · intro h l' hl' horder
    obtain ⟨l, hl, rfl⟩ := mem_orderLine_delivered.mp hl'
    by_cases hk : l.order = (k, o)
    · rw [if_pos hk] at horder
      exact absurd (horder.symm.trans hk) hne
    · rw [if_neg hk] at horder ⊢
      exact h l hl horder

/-- The oldest order of a district is delivered. -/
theorem Consistent.delivered (h : Consistent t) (hs : Sound t) (hne : oldest t k ≠ 0) :
    Consistent (delivered a (k, oldest t k) cId olTotal t) := by
  obtain ⟨holdest, hleast⟩ := oldest_mem hne
  have hle : ∀ o, HasNewOrder t (k, o) → oldest t k ≤ o := fun o ho =>
    hleast o (mem_newOrdersOf.mpr ho)
  refine ⟨fun d hd => ?_, fun d hd hex => ?_, fun k' o₁ o₂ o h₁ h₂ hlo hhi => ?_, ?_, ?_, h.inStock⟩
  · simp only [hasOrderRow_delivered]
    exact h.nextOId d hd
  · obtain ⟨o', ho'⟩ := hex
    obtain ⟨hin, hother⟩ := hasNewOrder_delivered.mp ho'
    obtain ⟨hmem, hgreatest⟩ := h.nextNoOId d hd ⟨o', hin⟩
    -- the greatest number stays: if it were the oldest it would be the only one
    refine ⟨hasNewOrder_delivered.mpr ⟨hmem, fun he => ?_⟩, fun o ho => ?_⟩
    · obtain ⟨hk, ho⟩ := Prod.mk.inj he
      have hup : o' ≤ d.dNextOId - 1 := hgreatest hin
      have hlow := hle o' (hk ▸ hin)
      exact hother (Prod.ext hk (by show o' = oldest t k; omega))
    · exact hgreatest (hasNewOrder_delivered.mp ho).1
  · rw [hasNewOrder_delivered] at h₁ h₂ ⊢
    refine ⟨h.contiguous k' o₁ o₂ o h₁.1 h₂.1 hlo hhi, fun he => ?_⟩
    obtain ⟨rfl, rfl⟩ := Prod.mk.inj he
    have hlow := hle o₁ h₁.1
    exact h₁.2 (Prod.ext rfl (le_antisymm hlo hlow))
  · intro r' hr'
    obtain ⟨r, hr, rfl⟩ := mem_orders_delivered.mp hr'
    by_cases hk : r.key = (k, oldest t k)
    · rw [if_pos hk]
      obtain ⟨l, hl, horder⟩ := exists_line h hs hr
      have hgone : ¬HasNewOrder (Tpcc.delivered a (k, oldest t k) cId olTotal t) r.key :=
        fun hn => (hasNewOrder_delivered.mp hn).2 hk
      refine ⟨⟨fun hn => absurd hn hgone, fun hn => nomatch hn⟩, (fun hn => nomatch hn), fun hl' => ?_⟩
      have hdate := hl' _ (mem_orderLine_delivered.mpr ⟨l, hl, rfl⟩)
      rw [if_pos (horder.trans hk)] at hdate
      exact nomatch hdate horder
    · rw [if_neg hk, undated_delivered hk, hasNewOrder_delivered, and_iff_left hk]
      exact h.undelivered r hr
  · intro r' hr'
    obtain ⟨r, hr, rfl⟩ := mem_orders_delivered.mp hr'
    simp only [numbers_delivered]
    split <;> exact h.lines r hr

theorem Sound.delivered (hs : Sound t) : Sound (Tpcc.delivered a (k, o) cId olTotal t) := by
  constructor
  · intro r' hr'
    obtain ⟨r, hr, rfl⟩ := mem_orders_delivered.mp hr'
    split <;> exact hs.hasLines r hr
  · intro l' hl'
    obtain ⟨l, hl, rfl⟩ := mem_orderLine_delivered.mp hl'
    rw [hasOrderRow_delivered]
    split <;> exact hs.ofOrder l hl

end

/-! ## A new order -/

section

variable {a : NewordArgs} {d : District} {t t' : Database} {k : DistrictKey × Int}

theorem Ordered.mem_orders (h : Ordered a d t t') {r : Order} : r ∈ t'.orders ↔ r ∈ t.orders ∨
    r = ⟨d.dNextOId, a.dId, a.wId, a.cId, a.datetime, none, a.oOlCnt, a.oAllLocal⟩ := by
  rw [Rows.mem_def, h.orders, List.mem_append, List.mem_singleton]
  rfl

theorem Ordered.hasOrderRow (h : Ordered a d t t') :
    HasOrderRow t' k ↔ HasOrderRow t k ∨ k = (a.district, d.dNextOId) := by
  constructor
  · rintro ⟨r, hr, rfl⟩
    rcases h.mem_orders.mp hr with hr | rfl
    · exact .inl ⟨r, hr, rfl⟩
    · exact .inr rfl
  · rintro (⟨r, hr, rfl⟩ | rfl)
    · exact ⟨r, h.mem_orders.mpr (.inl hr), rfl⟩
    · exact ⟨_, h.mem_orders.mpr (.inr rfl), rfl⟩

theorem Ordered.hasNewOrder (h : Ordered a d t t') :
    HasNewOrder t' k ↔ HasNewOrder t k ∨ k = (a.district, d.dNextOId) := by
  have hmem : ∀ r : NewOrder, r ∈ t'.newOrders ↔
      r ∈ t.newOrders ∨ r = ⟨d.dNextOId, a.dId, a.wId⟩ := by
    intro r
    rw [Rows.mem_def, h.newOrders, List.mem_append, List.mem_singleton]
    rfl
  constructor
  · rintro ⟨r, hr, rfl⟩
    rcases (hmem r).mp hr with hr | rfl
    · exact .inl ⟨r, hr, rfl⟩
    · exact .inr rfl
  · rintro (⟨r, hr, rfl⟩ | rfl)
    · exact ⟨r, (hmem r).mpr (.inl hr), rfl⟩
    · exact ⟨_, (hmem _).mpr (.inr rfl), rfl⟩

theorem Ordered.mem_district (h : Ordered a d t t') {d' : District} (hd' : d' ∈ t'.district) :
    ∃ d₀ ∈ t.district, d' = if d₀.key = a.district then { d₀ with dNextOId := d.dNextOId + 1 }
      else d₀ := by
  rw [h.districts] at hd'
  obtain ⟨d₀, hd₀, rfl⟩ := Rows.mem_update.mp hd'
  exact ⟨d₀, hd₀, by simp only [decide_eq_true_eq]⟩

/-- The number is above those of the district. -/
theorem Ordered.fresh (h : Ordered a d t t') (hc : Consistent t) {o : Int}
    (ho : HasOrderRow t (a.district, o)) : o < d.dNextOId := by
  obtain ⟨hmem, hkey⟩ := Rows.find?_eq_some_iff.mp h.district
  have hle : o ≤ d.dNextOId - 1 := (hc.nextOId d hmem).2 (by rw [hkey]; exact ho)
  omega

theorem Ordered.not_hasOrderRow (h : Ordered a d t t') (hc : Consistent t) :
    ¬HasOrderRow t (a.district, d.dNextOId) := fun ho => lt_irrefl _ (h.fresh hc ho)

/-- The number is the next one of those without a delivery, if there are any. -/
theorem Ordered.newOrder_next (h : Ordered a d t t') (hc : Consistent t) {o : Int}
    (ho : HasNewOrder t (a.district, o)) :
    o < d.dNextOId ∧ HasNewOrder t (a.district, d.dNextOId - 1) := by
  obtain ⟨hmem, hkey⟩ := Rows.find?_eq_some_iff.mp h.district
  have hgreatest := hc.nextNoOId d hmem ⟨o, by rw [hkey]; exact ho⟩
  rw [hkey] at hgreatest
  have hle : o ≤ d.dNextOId - 1 := hgreatest.2 ho
  exact ⟨by omega, hgreatest.1⟩

theorem Ordered.nextOId (h : Ordered a d t t') (hc : Consistent t) {d' : District}
    (hd' : d' ∈ t'.district) :
    IsGreatest { o | HasOrderRow t' (d'.key, o) } (d'.dNextOId - 1) := by
  obtain ⟨d₀, hd₀, rfl⟩ := h.mem_district hd'
  by_cases hk : d₀.key = a.district
  · rw [if_pos hk]
    have hkey : ({ d₀ with dNextOId := d.dNextOId + 1 } : District).key = a.district := hk
    rw [hkey]
    refine ⟨h.hasOrderRow.mpr (.inr ?_), fun o ho => ?_⟩
    · rw [add_sub_cancel_right]
    · rw [add_sub_cancel_right]
      rcases h.hasOrderRow.mp ho with ho | ho
      · exact le_of_lt (h.fresh hc ho)
      · exact le_of_eq (Prod.mk.inj ho).2
  · rw [if_neg hk]
    refine ⟨h.hasOrderRow.mpr (.inl (hc.nextOId d₀ hd₀).1), fun o ho => ?_⟩
    rcases h.hasOrderRow.mp ho with ho | ho
    · exact (hc.nextOId d₀ hd₀).2 ho
    · exact absurd (Prod.mk.inj ho).1 hk

theorem Ordered.nextNoOId (h : Ordered a d t t') (hc : Consistent t) {d' : District}
    (hd' : d' ∈ t'.district) (hex : ∃ o, HasNewOrder t' (d'.key, o)) :
    IsGreatest { o | HasNewOrder t' (d'.key, o) } (d'.dNextOId - 1) := by
  obtain ⟨d₀, hd₀, rfl⟩ := h.mem_district hd'
  by_cases hk : d₀.key = a.district
  · rw [if_pos hk]
    have hkey : ({ d₀ with dNextOId := d.dNextOId + 1 } : District).key = a.district := hk
    rw [hkey]
    refine ⟨h.hasNewOrder.mpr (.inr ?_), fun o ho => ?_⟩
    · rw [add_sub_cancel_right]
    · rw [add_sub_cancel_right]
      rcases h.hasNewOrder.mp ho with ho | ho
      · exact le_of_lt (h.newOrder_next hc ho).1
      · exact le_of_eq (Prod.mk.inj ho).2
  · rw [if_neg hk] at hex ⊢
    obtain ⟨o, ho⟩ := hex
    have ho' : HasNewOrder t (d₀.key, o) :=
      (h.hasNewOrder.mp ho).resolve_right fun he => hk (Prod.mk.inj he).1
    have hgreatest := hc.nextNoOId d₀ hd₀ ⟨o, ho'⟩
    refine ⟨h.hasNewOrder.mpr (.inl hgreatest.1), fun o ho => ?_⟩
    exact hgreatest.2 ((h.hasNewOrder.mp ho).resolve_right fun he => hk (Prod.mk.inj he).1)

theorem Ordered.contiguous (h : Ordered a d t t') (hc : Consistent t) {k : DistrictKey}
    {o₁ o₂ o : Int} (h₁ : HasNewOrder t' (k, o₁)) (h₂ : HasNewOrder t' (k, o₂)) (hlo : o₁ ≤ o)
    (hhi : o ≤ o₂) : HasNewOrder t' (k, o) := by
  rw [h.hasNewOrder] at h₁ h₂ ⊢
  by_cases hnew : (k, o) = (a.district, d.dNextOId)
  · exact .inr hnew
  · refine .inl ?_
    rcases h₁ with h₁ | h₁ <;> rcases h₂ with h₂ | h₂
    · exact hc.contiguous k o₁ o₂ o h₁ h₂ hlo hhi
    · -- between an old one and the new one
      obtain ⟨rfl, rfl⟩ := Prod.mk.inj h₂
      have hlast := (h.newOrder_next hc h₁).2
      refine hc.contiguous _ o₁ _ o h₁ hlast hlo ?_
      have hne : o ≠ d.dNextOId := fun he => hnew (by rw [he])
      omega
    · obtain ⟨rfl, rfl⟩ := Prod.mk.inj h₁
      have hlt := (h.newOrder_next hc h₂).1
      omega
    · obtain ⟨rfl, rfl⟩ := Prod.mk.inj h₁
      have he : o₂ = d.dNextOId := (Prod.mk.inj h₂).2
      exact absurd (by rw [le_antisymm (he ▸ hhi) hlo]) hnew

/-- The lines of an order that was there, and of the new one. -/
theorem Ordered.select_lines (h : Ordered a d t t') (hs : Sound t) (hc : Consistent t) :
    (∀ k, HasOrderRow t k → (t'.orderLine.select fun l => l.order = k) =
      t.orderLine.select fun l => l.order = k) ∧
    ((t'.orderLine.select fun l => l.order = (a.district, d.dNextOId)).map OrderLine.olNumber =
      (List.range a.oOlCnt.toNat).map fun i : Nat => (1 : Int) + i) ∧
    ∀ l ∈ t'.orderLine, l.order = (a.district, d.dNextOId) → l.olDeliveryD = none := by
  obtain ⟨lines, hrows, hnumbers, hlines⟩ := h.lines
  have hfresh := h.not_hasOrderRow hc
  refine ⟨fun k hk => ?_, ?_, fun l hl horder => ?_⟩
  · unfold Rows.select
    rw [hrows, List.filter_append]
    have hnil : lines.filter (fun l => decide (l.order = k)) = [] := by
      refine List.filter_eq_nil_iff.mpr fun l hl => ?_
      rw [decide_eq_true_eq, (hlines l hl).1]
      rintro rfl
      exact hfresh hk
    rw [hnil, List.append_nil]
  · unfold Rows.select
    rw [hrows, List.filter_append]
    have hnil : t.orderLine.rows.filter (fun l => decide (l.order = (a.district, d.dNextOId))) =
        [] := by
      refine List.filter_eq_nil_iff.mpr fun l hl => ?_
      rw [decide_eq_true_eq]
      intro horder
      exact hfresh (horder ▸ hs.ofOrder l hl)
    have hall : lines.filter (fun l => decide (l.order = (a.district, d.dNextOId))) = lines :=
      List.filter_eq_self.mpr fun l hl => decide_eq_true (hlines l hl).1
    rw [hnil, hall, List.nil_append, hnumbers]
  · rw [Rows.mem_def, hrows, List.mem_append] at hl
    rcases hl with hl | hl
    · exact absurd (horder ▸ hs.ofOrder l hl) hfresh
    · exact (hlines l hl).2

theorem Ordered.undated (h : Ordered a d t t') (hs : Sound t) (hc : Consistent t)
    (hk : HasOrderRow t k) : (∀ l ∈ t'.orderLine, l.order = k → l.olDeliveryD = none) ↔
      ∀ l ∈ t.orderLine, l.order = k → l.olDeliveryD = none := by
  have hselect := (h.select_lines hs hc).1 k hk
  have hiff : ∀ l : OrderLine, l ∈ t'.orderLine ∧ l.order = k ↔ l ∈ t.orderLine ∧ l.order = k := by
    intro l
    have hmem : l ∈ t'.orderLine.select (fun l => l.order = k) ↔
        l ∈ t.orderLine.select (fun l => l.order = k) := by rw [hselect]
    simpa only [Rows.mem_select, decide_eq_true_eq] using hmem
  constructor
  · intro hnone l hl horder
    exact hnone l ((hiff l).mpr ⟨hl, horder⟩).1 horder
  · intro hnone l hl horder
    exact hnone l ((hiff l).mp ⟨hl, horder⟩).1 horder

theorem Consistent.ordered (hc : Consistent t) (hs : Sound t) (hv : a.Valid)
    (h : Ordered a d t t') : Consistent t' := by
  refine ⟨fun d' hd' => h.nextOId hc hd', fun d' hd' hex => h.nextNoOId hc hd' hex,
    fun k o₁ o₂ o h₁ h₂ hlo hhi => h.contiguous hc h₁ h₂ hlo hhi, fun r hr => ?_, fun r hr => ?_,
    h.stock hc.inStock hv.quantity⟩
  · rcases h.mem_orders.mp hr with hr | rfl
    · have hne : r.key ≠ (a.district, d.dNextOId) := fun he =>
        h.not_hasOrderRow hc (he ▸ ⟨r, hr, rfl⟩)
      rw [h.hasNewOrder, or_iff_left hne, h.undated hs hc ⟨r, hr, rfl⟩]
      exact hc.undelivered r hr
    · refine ⟨⟨fun _ => rfl, fun _ => h.hasNewOrder.mpr (.inr rfl)⟩, fun _ => ?_, fun _ => rfl⟩
      exact (h.select_lines hs hc).2.2
  · rcases h.mem_orders.mp hr with hr | rfl
    · rw [(h.select_lines hs hc).1 r.key ⟨r, hr, rfl⟩]
      exact hc.lines r hr
    · exact ⟨le_trans (by decide) hv.one_le, List.Perm.of_eq (h.select_lines hs hc).2.1⟩

theorem Sound.ordered (hs : Sound t) (hv : a.Valid) (h : Ordered a d t t') : Sound t' := by
  constructor
  · intro r hr
    rcases h.mem_orders.mp hr with hr | rfl
    · exact hs.hasLines r hr
    · exact hv.one_le
  · intro l hl
    obtain ⟨lines, hrows, -, hlines⟩ := h.lines
    rw [Rows.mem_def, hrows, List.mem_append] at hl
    rw [h.hasOrderRow]
    rcases hl with hl | hl
    · exact .inl (hs.ofOrder l hl)
    · exact .inr (hlines l hl).1

theorem Ordered.grows (h : Ordered a d t t') : Grows t t' := by
  refine .of_unpaid h.history h.warehouse fun wId => ?_
  unfold districtsYtd
  rw [h.districts, setNextOId, Rows.rows_update, List.map_map]
  refine congrArg List.sum (List.map_congr_left fun r _ => ?_)
  rw [Function.comp_apply]
  split <;> rfl

end

/-! ## Runs of the three -/

/-- What a run keeps, from `t` on. -/
structure Kept (t t' : Database) : Prop where
  consistent : Consistent t'
  sound : Sound t'
  grows : Grows t t'

section

variable {t t' : Database} {strike : Option Site}

theorem Kept.refl (h : Consistent t) (hs : Sound t) : Kept t t := ⟨h, hs, .refl t⟩

theorem Kept.trans {t'' : Database} (h : Kept t t') (h' : Kept t' t'') : Kept t t'' :=
  ⟨h'.consistent, h'.sound, h.grows.trans h'.grows⟩

theorem deliveryLoop_kept {a : DeliveryArgs} {ds : List Int} {olTotal : ℚ} (h : Consistent t)
    (hs : Sound t) : Kept t (deliveryLoop a strike ds olTotal t).2 := by
  induction ds generalizing olTotal t with
  | nil => exact .refl h hs
  | cons dId ds ih =>
    rw [deliveryLoop]
    cases hturn : deliveryDistrict a olTotal dId strike t with
    | error _ => exact .refl h hs
    | ok p =>
      obtain ⟨olTotal', t₁⟩ := p
      rcases deliveryDistrict_eq_ok hturn with ⟨-, rfl⟩ | ⟨hne, r, -, rfl⟩
      · exact ih h hs
      · have hkept : Kept t (delivered a ((a.wId, dId), oldest t (a.wId, dId)) r.oCId olTotal t) :=
          ⟨h.delivered hs hne, hs.delivered, .of_unpaid rfl rfl fun _ => rfl⟩
        exact hkept.trans (ih hkept.consistent hkept.sound)

/-- **A call** keeps the conditions. -/
theorem Call.apply_kept {c : Call} (hv : c.Valid) (h : Consistent t) (hs : Sound t) :
    Kept t (c.apply strike t) := by
  cases c with
  | neword a =>
    show Kept t (Tpcc.neword a strike t).2
    unfold Tpcc.neword
    cases hwork : newordWork a strike t with
    | error e => cases e <;> exact .refl h hs
    | ok p =>
      obtain ⟨d, hd⟩ := newordWork_eq_ok hwork
      exact ⟨h.ordered hs hv hd, hs.ordered hv hd, hd.grows⟩
  | payment a =>
    show Kept t (Tpcc.payment a strike t).2
    unfold Tpcc.payment
    cases hwork : paymentWork a strike t with
    | error _ => exact .refl h hs
    | ok p =>
      obtain ⟨w, d, c, hpays, ht⟩ := paymentWork_eq_ok hwork
      show Kept t p.2
      rw [ht]
      exact ⟨h.paid, hs.paid, paid_grows hpays⟩
  | delivery a stale => exact deliveryLoop_kept h hs

/-- **A run** keeps the conditions, if no order is without lines and no line without its order. -/
theorem run_consistent {calls : List (Call × Option Site)} (hv : ∀ c ∈ calls, c.1.Valid)
    (h : Consistent t) (hs : Sound t) :
    Consistent (runCalls calls t) ∧ Grows t (runCalls calls t) ∧
      ∀ w ∈ t.warehouse, ∃ w' ∈ (runCalls calls t).warehouse, w'.wId = w.wId ∧
        w'.wYtd - districtsYtd w.wId (runCalls calls t) = w.wYtd - districtsYtd w.wId t := by
  have hkept : Kept t (runCalls calls t) := by
    induction calls generalizing t with
    | nil => exact .refl h hs
    | cons c calls ih =>
      have hfirst : Kept t (c.1.apply c.2 t) := Call.apply_kept (hv c List.mem_cons_self) h hs
      exact hfirst.trans (ih (fun c' hc' => hv c' (List.mem_cons_of_mem _ hc')) hfirst.consistent
        hfirst.sound)
  exact ⟨hkept.consistent, hkept.grows, fun w hw => hkept.grows.difference hw⟩

end

/-! ## Runs that start at one order -/

/-- A line of the order `olOId`, without a date. -/
def undatedLine (olOId olNumber : Int) : OrderLine :=
  ⟨olOId, 1, 1, olNumber, 1, 1, none, 5, 5, "dist"⟩

/-- A district with one order, which is undelivered; the stock of its item is down to 1. -/
def oneOrder (lines : List OrderLine) : Database :=
  { Database.empty with
    warehouse := Rows.empty.insertAll [⟨1, "w", "s", "s", "c", "st", "zip", 0, 300⟩]
    district := Rows.empty.insertAll [⟨1, 1, "d", "s", "s", "c", "st", "zip", 0, 300, 2⟩]
    customer := Rows.empty.insertAll [⟨1, 1, 1, "f", "OE", "l", "s", "s", "c", "st", "zip", "p",
      "2014-01-01", "GC", 50000, 0, 0, 0, 0, 0, "data"⟩]
    newOrders := Rows.empty.insertAll [⟨1, 1, 1⟩]
    orders := Rows.empty.insertAll [⟨1, 1, 1, 1, "2014-01-01", none, 1, 1⟩]
    orderLine := Rows.empty.insertAll lines
    item := Rows.empty.insertAll [⟨1, 1, "i", 1, "data"⟩]
    stock := Rows.empty.insertAll [⟨1, 1, 1, Vector.replicate 10 "dist", 0, 0, 0, "data"⟩] }

/-- An order of `oOlCnt` lines, each of `olQuantity` pieces of the item. -/
def orderOf (oOlCnt olQuantity : Int) : Call :=
  .neword ⟨1, 1, 1, oOlCnt, 1, fun _ => 1, fun _ => 1, fun _ => olQuantity, "2014-01-02", "dist"⟩

def deliverAll : Call := .delivery ⟨1, 3, "2014-01-03"⟩ 0

def payTen : Call := .payment ⟨1, 1, false, 1, 1, 1, "l", 10, "2014-01-02"⟩

theorem hasNewOrder_oneOrder {lines : List OrderLine} {k : DistrictKey × Int} :
    HasNewOrder (oneOrder lines) k ↔ k = ((1, 1), 1) := by
  constructor
  · rintro ⟨r, hr, rfl⟩
    obtain rfl := List.mem_singleton.mp hr
    rfl
  · rintro rfl
    exact ⟨_, List.mem_singleton.mpr rfl, rfl⟩

theorem hasOrderRow_oneOrder {lines : List OrderLine} {k : DistrictKey × Int} :
    HasOrderRow (oneOrder lines) k ↔ k = ((1, 1), 1) := by
  constructor
  · rintro ⟨r, hr, rfl⟩
    obtain rfl := List.mem_singleton.mp hr
    rfl
  · rintro rfl
    exact ⟨_, List.mem_singleton.mpr rfl, rfl⟩

/-- The conditions hold whatever undated lines of other orders are in the table. -/
theorem oneOrder_consistent {lines : List OrderLine}
    (hundated : ∀ l ∈ (oneOrder lines).orderLine, l.olDeliveryD = none)
    (hnumbers : ((oneOrder lines).orderLine.select fun l => l.order = ((1, 1), 1)).map
      OrderLine.olNumber = [1]) : Consistent (oneOrder lines) := by
  refine ⟨fun d hd => ?_, fun d hd _ => ?_, fun k o₁ o₂ o h₁ h₂ hlo hhi => ?_, fun r hr => ?_,
    fun r hr => ?_, fun s hs => ?_⟩
  · obtain rfl := List.mem_singleton.mp hd
    refine ⟨hasOrderRow_oneOrder.mpr rfl, fun o ho => ?_⟩
    exact le_of_eq (Prod.mk.inj (hasOrderRow_oneOrder.mp ho)).2
  · obtain rfl := List.mem_singleton.mp hd
    refine ⟨hasNewOrder_oneOrder.mpr rfl, fun o ho => ?_⟩
    exact le_of_eq (Prod.mk.inj (hasNewOrder_oneOrder.mp ho)).2
  · obtain ⟨rfl, rfl⟩ := Prod.mk.inj (hasNewOrder_oneOrder.mp h₁)
    have ho₂ : o₂ = 1 := (Prod.mk.inj (hasNewOrder_oneOrder.mp h₂)).2
    exact hasNewOrder_oneOrder.mpr (Prod.ext rfl (le_antisymm (ho₂ ▸ hhi) hlo))
  · obtain rfl := List.mem_singleton.mp hr
    exact ⟨⟨fun _ => rfl, fun _ => hasNewOrder_oneOrder.mpr rfl⟩, fun _ l hl _ => hundated l hl,
      fun _ => rfl⟩
  · obtain rfl := List.mem_singleton.mp hr
    exact ⟨by decide, List.Perm.of_eq hnumbers⟩
  · obtain rfl := List.mem_singleton.mp hs
    decide

/-- An order, a payment and a delivery of both orders. -/
theorem run_consistent_three :
    Consistent (runCalls [(orderOf 1 5, none), (payTen, none), (deliverAll, none)]
      (oneOrder [undatedLine 1 1])) ∧
    Grows (oneOrder [undatedLine 1 1])
      (runCalls [(orderOf 1 5, none), (payTen, none), (deliverAll, none)]
        (oneOrder [undatedLine 1 1])) := by
  have hsound : Sound (oneOrder [undatedLine 1 1]) := by
    constructor
    · intro r hr
      obtain rfl := List.mem_singleton.mp hr
      decide
    · intro l hl
      obtain rfl := List.mem_singleton.mp hl
      exact hasOrderRow_oneOrder.mpr rfl
  have hvalid : ∀ c ∈ [(orderOf 1 5, none), (payTen, none), (deliverAll, none)],
      Call.Valid (Prod.fst (β := Option Site) c) := by
    intro c hc
    simp only [List.mem_cons, List.not_mem_nil, or_false] at hc
    rcases hc with rfl | rfl | rfl
    · have hfive : 0 ≤ (5 : Int) ∧ (5 : Int) ≤ 91 := by decide
      exact ⟨by decide, by decide, fun _ _ => hfive⟩
    · trivial
    · trivial
  have h := run_consistent hvalid (oneOrder_consistent (by decide) (by decide)) hsound
  exact ⟨h.1, h.2.1⟩

/-- Without what `Sound` and `NewordArgs.Valid` ask for the conditions are lost: by a quantity of
100, by an order without lines once it is delivered, and by a line that is there before its
order. -/
theorem run_not_consistent :
    (Consistent (oneOrder [undatedLine 1 1]) ∧
      ¬Consistent (runCalls [(orderOf 1 100, none)] (oneOrder [undatedLine 1 1])) ∧
      ¬Consistent (runCalls [(orderOf 0 5, none), (deliverAll, none), (deliverAll, none)]
        (oneOrder [undatedLine 1 1]))) ∧
    Consistent (oneOrder [undatedLine 1 1, undatedLine 2 9]) ∧
      ¬Consistent (runCalls [(orderOf 1 5, none)] (oneOrder [undatedLine 1 1, undatedLine 2 9])) := by
  refine ⟨⟨oneOrder_consistent (by decide) (by decide), fun h => ?_, fun h => ?_⟩,
    oneOrder_consistent (by decide) (by decide), fun h => ?_⟩
  · have hquantity : ¬∀ s ∈ (runCalls [(orderOf 1 100, none)]
        (oneOrder [undatedLine 1 1])).stock.rows, 1 ≤ s.sQuantity := by decide
    exact hquantity fun s hs => (h.inStock s hs).1
  · have hcarrier : ¬∀ r ∈ (runCalls [(orderOf 0 5, none), (deliverAll, none), (deliverAll, none)]
        (oneOrder [undatedLine 1 1])).orders.rows, (∀ l ∈ (runCalls [(orderOf 0 5, none),
          (deliverAll, none), (deliverAll, none)] (oneOrder [undatedLine 1 1])).orderLine.rows,
            l.order = r.key → l.olDeliveryD = none) → r.oCarrierId = none := by decide
    exact hcarrier fun r hr => (h.undelivered r hr).2.mpr
  · have hcount : ¬∀ r ∈ (runCalls [(orderOf 1 5, none)]
        (oneOrder [undatedLine 1 1, undatedLine 2 9])).orders.rows,
          ((runCalls [(orderOf 1 5, none)] (oneOrder [undatedLine 1 1, undatedLine 2 9])).orderLine.select
            fun l => l.order = r.key).length = r.oOlCnt.toNat := by decide
    refine hcount fun r hr => ?_
    have hlen := (h.lines r hr).2.length_eq
    rwa [List.length_map, List.length_map, List.length_range] at hlen

end TokuQa.Tpcc
