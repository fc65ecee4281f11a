import Mathlib.Algebra.Order.BigOperators.Group.List
import Mathlib.Tactic.Linarith
import Mathlib.Tactic.NormNum
import TokuQa.Tpcc.Consistency
import TokuQa.Tpcc.LoadTables

/-!
# The consistency of a loaded database

`LoadConsistent` says of the tables what they should be like before a run. The numbers of the
orders, their lines and their customers are as they should be (`LoadedWith.orders_consistent`),
and so is what the districts have been paid; but `LoadWare` gives a warehouse ten times the sum of
its districts, and `Orders` gives the lines of the delivered orders the amounts, and those of
the others none, so that the balances of the customers are right where nothing has been
delivered only (`LoadedWith.balance_iff`).
-/

set_option autoImplicit false

namespace TokuQa.Tpcc

open TokuQa.Lib

/-- The sum of what the district has been paid. -/
def districtHistory (k : DistrictKey) (t : Database) : ℚ :=
  (t.history.map fun h => if (h.hWId, h.hDId) = k then h.hAmount else 0).sum

/-- The sum of what the customer has paid. -/
def customerHistory (k : DistrictKey × Int) (t : Database) : ℚ :=
  (t.history.map fun h => if ((h.hCWId, h.hCDId), h.hCId) = k then h.hAmount else 0).sum

/-- The customer of an order. -/
def Order.customer (r : Order) : DistrictKey × Int := ((r.oWId, r.oDId), r.oCId)

/-- The sum of the delivered lines of the customer's orders. -/
def deliveredAmount (k : DistrictKey × Int) (t : Database) : ℚ :=
  (t.orderLine.rows.map fun l => if l.olDeliveryD ≠ none ∧
    (t.orders.find? l.order).map Order.customer = some k then l.olAmount else 0).sum

/-- The conditions on the orders, and on what the districts have been paid. -/
structure OrdersConsistent (t : Database) : Prop where
  dYtd : ∀ d ∈ t.district, d.dYtd = districtHistory d.key t
  nextOId : ∀ d ∈ t.district, IsGreatest { o | HasOrderRow t (d.key, o) } (d.dNextOId - 1)
  nextNoOId : ∀ d ∈ t.district, IsGreatest { o | HasNewOrder t (d.key, o) } (d.dNextOId - 1)
  newOrders : ∀ k, HasNewOrder t k ↔ ∃ r ∈ t.orders, r.key = k ∧ r.oCarrierId = none
  lines : ∀ r ∈ t.orders,
    ((t.orderLine.select fun l => l.order = r.key).length : Int) = r.oOlCnt
  customers : ∀ c ∈ t.customer, ∃! r, r ∈ t.orders ∧ r.customer = c.key

/-- What a database should be like before a run. -/
structure LoadConsistent (t : Database) : Prop extends OrdersConsistent t where
  wYtd : ∀ w ∈ t.warehouse, w.wYtd = districtsYtd w.wId t
  balance : ∀ c ∈ t.customer, c.cBalance = deliveredAmount c.key t - customerHistory c.key t

theorem mem_ofDistricts {n : Nat} {minWare maxWare : Int} {k : DistrictKey × Int} :
    k ∈ ofDistricts n minWare maxWare ↔
      k.1 ∈ districtsOf minWare maxWare ∧ 1 ≤ k.2 ∧ k.2 ≤ n := by
  rw [ofDistricts, List.mem_flatMap]
  constructor
  · rintro ⟨k', hk', hmem⟩
    obtain ⟨id, hid, rfl⟩ := List.mem_map.mp hmem
    exact ⟨hk', mem_upTo.mp hid⟩
  · rintro ⟨hk, hid⟩
    exact ⟨k.1, hk, List.mem_map.mpr ⟨k.2, mem_upTo.mpr hid, rfl⟩⟩

/-- A number that is the same for each. -/
theorem sum_upTo (n : Nat) (c : ℚ) : ((upTo n).map fun _ => c).sum = n * c := by
  rw [List.map_const', List.sum_replicate, length_upTo, nsmul_eq_mul]

section

variable {d : LoadDraws} {now : String} {minWare maxWare : Int} {t : Database}

/-! ## What has been paid -/

/-- The districts of a warehouse together have a tenth of what the warehouse has. -/
theorem LoadedWith.districtsYtd_eq (h : LoadedWith d now minWare maxWare t) {wId : Int}
    (hw : wId ∈ wares minWare maxWare) : districtsYtd wId t = 300000 := by
  have hrow : ∀ w dId, (districtRow (d.district w dId) w dId).dWId = w := fun _ _ => rfl
  have hytd : ∀ w dId, (districtRow (d.district w dId) w dId).dYtd = 30000 := fun _ _ => rfl
  unfold districtsYtd
  rw [h.district, Rows.sum_flatMap, Rows.sum_of_one (nodup_wares minWare maxWare) hw]
  · rw [List.map_map, Function.comp_def]
    simp only [hrow, hytd, if_true]
    rw [sum_upTo]
    norm_num [distPerWare]
  · intro w _ hne
    rw [List.map_map, Function.comp_def]
    simp only [hrow, hne, if_false]
    rw [sum_upTo, mul_zero]

theorem LoadedWith.wYtd_ne (h : LoadedWith d now minWare maxWare t) {w : Warehouse}
    (hw : w ∈ t.warehouse) : w.wYtd ≠ districtsYtd w.wId t := by
  rw [Rows.mem_def, h.warehouse] at hw
  obtain ⟨wId, hwId, rfl⟩ := List.mem_map.mp hw
  have hytd : (wareRow (d.ware wId) wId).wYtd = 3000000 := rfl
  have hid : (wareRow (d.ware wId) wId).wId = wId := rfl
  rw [hytd, hid, h.districtsYtd_eq hwId]
  norm_num

theorem LoadedWith.mem_district (h : LoadedWith d now minWare maxWare t) {r : District}
    (hr : r ∈ t.district) : r.key ∈ districtsOf minWare maxWare ∧ r.dYtd = 30000 ∧
      r.dNextOId = 3001 := by
  rw [Rows.mem_def, h.district] at hr
  obtain ⟨wId, hwId, hr⟩ := List.mem_flatMap.mp hr
  obtain ⟨dId, hdId, rfl⟩ := List.mem_map.mp hr
  exact ⟨List.mem_flatMap.mpr ⟨wId, hwId, List.mem_map.mpr ⟨dId, hdId, rfl⟩⟩, rfl, rfl⟩

theorem LoadedWith.districtHistory_eq (h : LoadedWith d now minWare maxWare t) {k : DistrictKey}
    (hk : k ∈ districtsOf minWare maxWare) : districtHistory k t = 30000 := by
  have hrow : ∀ k' cId, ((historyRow (d.customer k'.1 k'.2 cId) now k'.1 k'.2 cId).hWId,
      (historyRow (d.customer k'.1 k'.2 cId) now k'.1 k'.2 cId).hDId) = k' := fun _ _ => rfl
  have hamount : ∀ (k' : DistrictKey) (cId : Int),
      (historyRow (d.customer k'.1 k'.2 cId) now k'.1 k'.2 cId).hAmount = 10 := fun _ _ => rfl
  unfold districtHistory
  rw [h.history, Rows.sum_flatMap, Rows.sum_of_one (nodup_districtsOf minWare maxWare) hk]
  · rw [List.map_map, Function.comp_def]
    simp only [hrow, hamount, if_true]
    rw [sum_upTo]
    norm_num [custPerDist]
  · intro k' _ hne
    rw [List.map_map, Function.comp_def]
    simp only [hrow, hne, if_false]
    rw [sum_upTo, mul_zero]

/-! ## The orders -/

theorem LoadedWith.hasOrderRow (h : LoadedWith d now minWare maxWare t) {k : DistrictKey × Int} :
    HasOrderRow t k ↔ k.1 ∈ districtsOf minWare maxWare ∧ 1 ≤ k.2 ∧ k.2 ≤ ordPerDist := by
  rw [← mem_ofDistricts, ← h.once.orders, List.mem_map]
  rfl

theorem LoadedWith.hasNewOrder (h : LoadedWith d now minWare maxWare t) {k : DistrictKey × Int} :
    HasNewOrder t k ↔
      (k.1 ∈ districtsOf minWare maxWare ∧ 1 ≤ k.2 ∧ k.2 ≤ ordPerDist) ∧ 2100 < k.2 := by
  rw [← mem_ofDistricts, ← decide_eq_true_iff (p := 2100 < k.2),
    ← List.mem_filter (p := fun k : DistrictKey × Int => decide (2100 < k.2)), ← h.once.newOrders,
    List.mem_map]
  rfl

/-- The row of an order. -/
def loadedOrder (d : LoadDraws) (now : String) (k : DistrictKey × Int) : Order :=
  orderRow ((d.orders k.1.1 k.1.2).order k.2) now k.1.1 k.1.2 k.2 ((d.orders k.1.1 k.1.2).oCId k.2)

theorem loadedOrder_customer (d : LoadDraws) (now : String) (k : DistrictKey × Int) :
    (loadedOrder d now k).customer = (k.1, (d.orders k.1.1 k.1.2).oCId k.2) := by
  simp only [loadedOrder, orderRow, Order.customer]

theorem loadedOrder_key (d : LoadDraws) (now : String) (k : DistrictKey × Int) :
    (loadedOrder d now k).key = k := by
  simp only [loadedOrder, orderRow, Order.key]

theorem LoadedWith.mem_orders (h : LoadedWith d now minWare maxWare t) {r : Order} :
    r ∈ t.orders ↔ HasOrderRow t r.key ∧ r = loadedOrder d now r.key := by
  constructor
  · intro hr
    refine ⟨⟨r, hr, rfl⟩, ?_⟩
    rw [Rows.mem_def, h.orders] at hr
    obtain ⟨k, -, hr⟩ := List.mem_flatMap.mp hr
    obtain ⟨oId, -, rfl⟩ := List.mem_map.mp hr
    rfl
  · rintro ⟨⟨r', hr', hkey⟩, hr⟩
    have hsame : r' = loadedOrder d now r'.key := by
      rw [Rows.mem_def, h.orders] at hr'
      obtain ⟨k, -, hr'⟩ := List.mem_flatMap.mp hr'
      obtain ⟨oId, -, rfl⟩ := List.mem_map.mp hr'
      rfl
    rw [hr, ← hkey, ← hsame]
    exact hr'

theorem LoadedWith.carrier (h : LoadedWith d now minWare maxWare t) {r : Order}
    (hr : r ∈ t.orders) : r.oCarrierId = none ↔ 2100 < r.oId := by
  obtain ⟨-, hrow⟩ := h.mem_orders.mp hr
  have hcarrier : r.oCarrierId = if 2100 < r.oId then none
      else some (randomNumber ((d.orders r.oWId r.oDId).order r.oId).carrier 1 10 : Int) :=
    congrArg Order.oCarrierId hrow
  rw [hcarrier]
  by_cases ho : 2100 < r.oId
  · simp [ho]
  · simp [ho]

/-- Each number of the permutation is that of one order. -/
theorem exists_order (d : OrdersDraws) {cId : Int} (hc : 1 ≤ cId ∧ cId ≤ ordPerDist) :
    ∃! oId : Int, (1 ≤ oId ∧ oId ≤ ordPerDist) ∧ d.oCId oId = cId := by
  have hperm := nums_perm d
  have hlen : d.nums.length = ordPerDist := hperm.length_eq.trans (length_upTo _)
  have hnd : d.nums.Nodup := hperm.nodup_iff.mpr (nodup_upTo _)
  have hat : ∀ oId : Int, (ho : 1 ≤ oId ∧ oId ≤ ordPerDist) →
      d.nums[(oId - 1).toNat]? = some (d.oCId oId) := by
    intro oId ho
    have hlt : (oId - 1).toNat < d.nums.length := by omega
    rw [OrdersDraws.oCId, List.getD_eq_getElem?_getD, List.getElem?_eq_getElem hlt]
    rfl
  obtain ⟨i, hi, hget⟩ := List.getElem_of_mem (hperm.mem_iff.mpr (mem_upTo.mpr hc))
  refine ⟨(i : Int) + 1, ⟨by omega, ?_⟩, ?_⟩
  · have hsome := hat ((i : Int) + 1) (by omega)
    rw [show ((i : Int) + 1 - 1).toNat = i by omega, List.getElem?_eq_getElem hi, hget] at hsome
    exact (Option.some.inj hsome).symm
  · rintro oId ⟨ho, hcId⟩
    have hsome := hat oId ho
    have hlt : (oId - 1).toNat < d.nums.length := by omega
    rw [hcId, List.getElem?_eq_getElem hlt, ← hget] at hsome
    have hidx := (hnd.getElem_inj_iff).mp (Option.some.inj hsome)
    omega

/-- The lines with the order `r`, by the keys of all lines. -/
theorem LoadedOnce.length_lines (h : LoadedOnce minWare maxWare t) {r : Order}
    (hr : r ∈ t.orders) :
    (t.orderLine.select fun l => l.order = r.key).length = r.oOlCnt.toNat := by
  have hkeys : (t.orderLine.select fun l => l.order = r.key).length =
      ((t.orderLine.rows.map OrderLine.key).filter fun k => k.1 = r.key).length := by
    rw [List.filter_map, List.length_map]
    rfl
  have hpart : ∀ r' : Order, (((upTo r'.oOlCnt.toNat).map fun ol => (r'.key, ol)).filter fun k =>
      k.1 = r.key).length = if r'.key = r.key then r'.oOlCnt.toNat else 0 := by
    intro r'
    rw [List.filter_map, List.length_map, Function.comp_def]
    by_cases hk : r'.key = r.key
    · simp [hk, length_upTo]
    · simp [hk]
  rw [hkeys, h.orderLine, List.filter_flatMap, List.length_flatMap]
  simp only [hpart]
  rw [Rows.sum_of_one (t.orders.nodup.of_map Order.key) hr, if_pos rfl]
  intro r' hr' hne
  exact if_neg fun hk => hne (Rows.eq_of_key hr' hr hk)

theorem LoadedWith.mem_customer (h : LoadedWith d now minWare maxWare t) {c : Customer}
    (hc : c ∈ t.customer) : c.key.1 ∈ districtsOf minWare maxWare ∧
      (1 ≤ c.key.2 ∧ c.key.2 ≤ custPerDist) ∧ c.cBalance = -10 := by
  have hkey : c.key ∈ ofDistricts custPerDist minWare maxWare := by
    rw [← h.once.customer]
    exact List.mem_map_of_mem hc
  obtain ⟨hk, hid⟩ := mem_ofDistricts.mp hkey
  refine ⟨hk, hid, ?_⟩
  rw [Rows.mem_def, h.customer] at hc
  obtain ⟨k, -, hc⟩ := List.mem_flatMap.mp hc
  obtain ⟨cId, -, rfl⟩ := List.mem_map.mp hc
  rfl

/-- **The orders are as they should be.** -/
theorem LoadedWith.orders_consistent (h : LoadedWith d now minWare maxWare t) :
    OrdersConsistent t := by
  have hlast : ((1 : Int) ≤ 3001 - 1 ∧ (3001 : Int) - 1 ≤ ordPerDist) ∧ (2100 : Int) < 3001 - 1 := by
    decide
  refine ⟨fun r hr => ?_, fun r hr => ?_, fun r hr => ?_, fun k => ?_, fun r hr => ?_,
    fun c hc => ?_⟩
  · obtain ⟨hk, hytd, -⟩ := h.mem_district hr
    rw [hytd, h.districtHistory_eq hk]
  · obtain ⟨hk, -, hnext⟩ := h.mem_district hr
    rw [hnext]
    refine ⟨h.hasOrderRow.mpr ⟨hk, hlast.1⟩, fun o ho => ?_⟩
    exact (h.hasOrderRow.mp ho).2.2
  · obtain ⟨hk, -, hnext⟩ := h.mem_district hr
    rw [hnext]
    refine ⟨h.hasNewOrder.mpr ⟨⟨hk, hlast.1⟩, hlast.2⟩, fun o ho => ?_⟩
    exact (h.hasNewOrder.mp ho).1.2.2
  · rw [h.hasNewOrder, ← h.hasOrderRow]
    constructor
    · rintro ⟨⟨r, hr, rfl⟩, hnew⟩
      exact ⟨r, hr, rfl, (h.carrier hr).mpr hnew⟩
    · rintro ⟨r, hr, rfl, hcarrier⟩
      exact ⟨⟨r, hr, rfl⟩, (h.carrier hr).mp hcarrier⟩
  · rw [h.once.length_lines hr]
    have hcnt : r.oOlCnt = ((d.orders r.oWId r.oDId).order r.oId).oOlCnt :=
      congrArg Order.oOlCnt (h.mem_orders.mp hr).2
    omega
  · obtain ⟨hk, hid, -⟩ := h.mem_customer hc
    obtain ⟨oId, ⟨ho, hcId⟩, honly⟩ := exists_order (d.orders c.key.1.1 c.key.1.2) hid
    have hcust : (loadedOrder d now (c.key.1, oId)).customer = c.key := by
      rw [loadedOrder_customer, hcId]
    have hmem : loadedOrder d now (c.key.1, oId) ∈ t.orders := by
      rw [h.mem_orders, loadedOrder_key]
      exact ⟨h.hasOrderRow.mpr ⟨hk, ho⟩, rfl⟩
    refine ⟨loadedOrder d now (c.key.1, oId), ⟨hmem, hcust⟩, ?_⟩
    rintro r ⟨hr, hcustomer⟩
    obtain ⟨hrow, hr⟩ := h.mem_orders.mp hr
    rw [hr, loadedOrder_customer] at hcustomer
    obtain ⟨hdistrict, hcust⟩ := Prod.ext_iff.mp hcustomer
    simp only at hdistrict hcust
    have hoId : r.key.2 = oId := by
      refine honly _ ⟨(h.hasOrderRow.mp hrow).2, ?_⟩
      rw [← hdistrict]
      exact hcust
    rw [hr, ← hdistrict, ← hoId]

/-! ## The balances -/

theorem LoadedWith.customerHistory_eq (h : LoadedWith d now minWare maxWare t)
    {k : DistrictKey × Int} (hk : k ∈ ofDistricts custPerDist minWare maxWare) :
    customerHistory k t = 10 := by
  have hamount : ∀ r ∈ t.history, r.hAmount = 10 := by
    intro r hr
    rw [h.history] at hr
    obtain ⟨k', -, hr⟩ := List.mem_flatMap.mp hr
    obtain ⟨cId, -, rfl⟩ := List.mem_map.mp hr
    rfl
  have hsum : customerHistory k t = ((t.history.map fun r => ((r.hCWId, r.hCDId), r.hCId)).map
      fun k' => if k' = k then (10 : ℚ) else 0).sum := by
    rw [List.map_map]
    refine congrArg List.sum (List.map_congr_left fun r hr => ?_)
    rw [hamount r hr]
    rfl
  rw [hsum, h.once.history, Rows.sum_of_one (nodup_ofDistricts custPerDist) hk, if_pos rfl]
  exact fun k' _ hne => if_neg hne

/-- A line is delivered, and has an amount, exactly if its order is not one of the last. -/
theorem LoadedWith.line (h : LoadedWith d now minWare maxWare t) {l : OrderLine}
    (hl : l ∈ t.orderLine) : if 2100 < l.olOId then l.olDeliveryD = none ∧ l.olAmount = 0
      else l.olDeliveryD = some now ∧ 0 < l.olAmount := by
  rw [Rows.mem_def, h.orderLine] at hl
  obtain ⟨k, -, hl⟩ := List.mem_flatMap.mp hl
  obtain ⟨oId, -, hl⟩ := List.mem_flatMap.mp hl
  obtain ⟨ol, -, rfl⟩ := List.mem_map.mp hl
  have hid : (lineRow (((d.orders k.1 k.2).order oId).line ol) now k.1 k.2 oId ol).olOId = oId := rfl
  rw [hid]
  unfold lineRow
  by_cases ho : 2100 < oId
  · simp [ho]
  · have hle := le_randomNumber (((d.orders k.1 k.2).order oId).line ol).amount 10 10000
    have hpos : (0 : ℚ) <
        (randomNumber (((d.orders k.1 k.2).order oId).line ol).amount 10 10000 : Nat) :=
      Nat.cast_pos.mpr (by omega)
    simp only [ho, if_false]
    exact ⟨trivial, div_pos hpos (by norm_num)⟩

/-- **The balance** of a customer is right exactly if the order has not been delivered. -/
theorem LoadedWith.balance_iff (h : LoadedWith d now minWare maxWare t) {c : Customer}
    (hc : c ∈ t.customer) {r : Order} (hr : r ∈ t.orders) (hcust : r.customer = c.key) :
    c.cBalance = deliveredAmount c.key t - customerHistory c.key t ↔ r.oCarrierId = none := by
  obtain ⟨hk, hid, hbalance⟩ := h.mem_customer hc
  rw [hbalance, h.customerHistory_eq (mem_ofDistricts.mpr ⟨hk, hid⟩), h.carrier hr]
  have hzero : (-10 : ℚ) = deliveredAmount c.key t - 10 ↔ deliveredAmount c.key t = 0 := by
    constructor <;> intro he <;> linarith
  rw [hzero]
  have hnonneg : ∀ l ∈ t.orderLine, 0 ≤ l.olAmount := by
    intro l hl
    have hline := h.line hl
    split at hline
    · exact hline.2.ge
    · exact hline.2.le
  constructor
  · -- a line of a delivered order would contribute
    intro hsum
    by_contra ho
    have hlen := h.once.length_lines hr
    have hcnt : 5 ≤ r.oOlCnt.toNat := by
      have hrow : r.oOlCnt = ((d.orders r.oWId r.oDId).order r.oId).oOlCnt :=
        congrArg Order.oOlCnt (h.mem_orders.mp hr).2
      have hle : 5 ≤ ((d.orders r.oWId r.oDId).order r.oId).oOlCnt := le_randomNumber _ _ _
      omega
    obtain ⟨l, hl⟩ := List.exists_mem_of_length_pos
      (show 0 < (t.orderLine.select fun l => l.order = r.key).length by omega)
    obtain ⟨hmem, horder⟩ := Rows.mem_select.mp hl
    have horder' : l.order = r.key := of_decide_eq_true horder
    have hoId : l.olOId = r.oId := congrArg Prod.snd horder'
    have hline := h.line hmem
    rw [hoId, if_neg ho] at hline
    have hfind : t.orders.find? l.order = some r := Rows.find?_eq_some_iff.mpr ⟨hr, horder'.symm⟩
    have hle : l.olAmount ≤ deliveredAmount c.key t := by
      refine le_trans (le_of_eq ?_) (List.single_le_sum ?_ _ (List.mem_map_of_mem hmem))
      · simp [hline.1, hfind, hcust]
      · intro x hx
        obtain ⟨l', hl', rfl⟩ := List.mem_map.mp hx
        split
        · exact hnonneg l' hl'
        · exact le_refl _
    exact absurd hsum (hline.2.trans_le hle).ne'
  · -- no line of an order that is not delivered has an amount
    intro ho
    refine List.sum_eq_zero fun x hx => ?_
    obtain ⟨l, hl, rfl⟩ := List.mem_map.mp hx
    by_cases hcond : l.olDeliveryD ≠ none ∧
        (t.orders.find? l.order).map Order.customer = some c.key
    · exfalso
      obtain ⟨hdate, hfind⟩ := hcond
      obtain ⟨r', hr', hcust'⟩ := Option.map_eq_some_iff.mp hfind
      obtain ⟨hmem, hkey⟩ := Rows.find?_eq_some_iff.mp hr'
      obtain rfl : r' = r :=
        (h.orders_consistent.customers c hc).unique ⟨hmem, hcust'⟩ ⟨hr, hcust⟩
      have hoId : l.olOId = r'.oId := congrArg Prod.snd hkey.symm
      have hline := h.line hl
      rw [hoId, if_pos ho] at hline
      exact hdate hline.1
    · exact if_neg hcond

end

/-! ## What the loader makes -/

/-- A load in which nothing fails. -/
theorem load_loadedWith (d : LoadDraws) (now : String) (countWare : Int) :
    ∃ s, load (fun _ => d) now 1 countWare 1 (started []) = some s ∧
      LoadedWith d now 1 countWare s.conn.committed := by
  obtain ⟨s, hs⟩ : ∃ s, load (fun _ => d) now 1 countWare 1 (started []) = some s :=
    load_ends rfl (fun _ => applyAll_allInserts_isSome) Nat.one_pos
  obtain ⟨_, _, _, _, happly⟩ := load_eq_some (s := started []) rfl hs
  rw [pick_const] at happly
  exact ⟨s, hs, loadedWith_of_applyAll happly⟩

theorem LoadedWith.inconsistent {d : LoadDraws} {now : String} {countWare : Int} {t : Database}
    (h : LoadedWith d now 1 countWare t) (hcount : 1 ≤ countWare) : ¬LoadConsistent t := by
  intro hall
  have hware : wareRow (d.ware 1) 1 ∈ t.warehouse := by
    rw [Rows.mem_def, h.warehouse]
    exact List.mem_map_of_mem (mem_wares.mpr ⟨le_refl 1, hcount⟩)
  exact h.wYtd_ne hware (hall.wYtd _ hware)

end TokuQa.Tpcc
