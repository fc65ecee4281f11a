import TokuQa.Tpcc.Payment

/-!
# `ordstat.c`

The customer is looked for by last name or by its number; then the last of its orders is
selected, and the order's lines. The function shows nothing: what it reports is what it has
fetched when it returns.

By last name the balance and the names of the customer at the middle are fetched, but not its
number. The orders are those of the number the function was given, whoever that is.
-/

set_option autoImplicit false

namespace TokuQa.Tpcc

open TokuQa.Lib

structure OrdstatArgs where
  wId : Int
  dId : Int
  byname : Bool
  cId : Int
  cLast : String

namespace OrdstatArgs

def customerDistrict (a : OrdstatArgs) : DistrictKey := (a.wId, a.dId)

end OrdstatArgs

/-- `c_balance`, `c_first`, `c_middle` and `c_last`. -/
structure CustomerColumns where
  cBalance : ℚ
  cFirst : String
  cMiddle : String
  cLast : String
deriving DecidableEq

def Customer.columns (c : Customer) : CustomerColumns :=
  ⟨c.cBalance, c.cFirst, c.cMiddle, c.cLast⟩

structure LineColumns where
  olIId : Int
  olSupplyWId : Int
  olQuantity : Int
  olAmount : ℚ
  olDeliveryD : Option String
deriving DecidableEq

def OrderLine.columns (l : OrderLine) : LineColumns :=
  ⟨l.olIId, l.olSupplyWId, l.olQuantity, l.olAmount, l.olDeliveryD⟩

structure OrderReport where
  customer : CustomerColumns
  oId : Int
  oEntryD : String
  oCarrierId : Int
  lines : List LineColumns
deriving DecidableEq

/-- `SELECT .. WHERE o_c_id = ? AND o_id = (SELECT MAX(o_id) ..)`. -/
def lastOrder (t : Database) (k : DistrictKey) (cId : Int) : Option Order :=
  let orders := t.orders.select fun r => (r.oWId, r.oDId) = k ∧ r.oCId = cId
  match (orders.map Order.oId).max? with
  | none => none
  | some oId => orders.find? fun r => r.oId = oId

/-- The lines of the order. -/
def linesOf (t : Database) (k : DistrictKey × Int) : List OrderLine :=
  t.orderLine.select fun r => r.order = k

/-- `stale` is what the columns' variables hold before they are fetched. -/
def ordstatCustomer (stale : CustomerColumns) (a : OrdstatArgs) :
    Work Site Label Database CustomerColumns := do
  if a.byname then
    let namecnt ← Work.fetch (.stmt 20 0) .sqlerr fun t =>
      some (byName t a.customerDistrict a.cLast).length
    let rows ← Work.fetch (.stmt 21 0) .sqlerr fun t =>
      some ((byName t a.customerDistrict a.cLast).map Customer.columns)
    match fetchRows (fetches namecnt) rows stale with
    | some columns => return columns
    | none => Work.fail .sqlerr
  else
    Work.fetch (.stmt 22 0) .sqlerr fun t =>
      (t.customer.find? (a.customerDistrict, a.cId)).map Customer.columns

def ordstatWork (stale : CustomerColumns) (a : OrdstatArgs) :
    Work Site Label Database OrderReport := do
  let customer ← ordstatCustomer stale a
  let order ← Work.fetch (.stmt 23 0) .sqlerr fun t => lastOrder t a.customerDistrict a.cId
  let lines ← Work.fetch (.stmt 24 0) .sqlerr fun t =>
    some ((linesOf t (a.customerDistrict, order.oId)).map OrderLine.columns)
  Work.write (.commit 0) .sqlerr some
  return ⟨customer, order.oId, order.oEntryD, order.oCarrierId.getD 0, lines⟩

/-- What is reported by a call that returns 1; `none` for one that returns 0. -/
def ordstat (stale : CustomerColumns) (a : OrdstatArgs) (strike : Option Site) (t : Database) :
    Option OrderReport :=
  match ordstatWork stale a strike t with
  | .ok (report, _) => some report
  | .error _ => none

/-! ## The last order -/

/-- The order is one of the customer's. -/
def Order.isOf (k : DistrictKey) (cId : Int) (r : Order) : Prop :=
  (r.oWId, r.oDId) = k ∧ r.oCId = cId

/-- The customer has an order. -/
def HasOrder (t : Database) (k : DistrictKey) (cId : Int) : Prop := ∃ r ∈ t.orders, r.isOf k cId

/-- The order with the largest number among the customer's. -/
structure IsLastOrder (t : Database) (k : DistrictKey) (cId : Int) (r : Order) : Prop where
  mem : r ∈ t.orders
  isOf : r.isOf k cId
  largest : ∀ r' ∈ t.orders, r'.isOf k cId → r'.oId ≤ r.oId

section

variable {t : Database} {k : DistrictKey} {cId : Int}

theorem lastOrder_eq_some {r : Order} (h : lastOrder t k cId = some r) :
    IsLastOrder t k cId r := by
  simp only [lastOrder] at h
  split at h
  · cases h
  · rename_i oId hmax
    obtain ⟨-, hle⟩ := List.max?_eq_some_iff.mp hmax
    obtain ⟨hmem, hp⟩ := Rows.mem_select.mp (List.mem_of_find?_eq_some h)
    have hfound := List.find?_some h
    have hid : r.oId = oId := of_decide_eq_true hfound
    have hof : (r.oWId, r.oDId) = k ∧ r.oCId = cId := of_decide_eq_true hp
    refine ⟨hmem, hof, fun r' hr' hof' => ?_⟩
    rw [hid]
    exact hle _ (List.mem_map.mpr ⟨r', Rows.mem_select.mpr
      ⟨hr', decide_eq_true (p := (r'.oWId, r'.oDId) = k ∧ r'.oCId = cId) hof'⟩, rfl⟩)

theorem lastOrder_isSome_iff : (lastOrder t k cId).isSome = true ↔ HasOrder t k cId := by
  constructor
  · intro h
    obtain ⟨r, hr⟩ := Option.isSome_iff_exists.mp h
    exact ⟨r, (lastOrder_eq_some hr).mem, (lastOrder_eq_some hr).isOf⟩
  · rintro ⟨r, hr, hof⟩
    have hmem : r ∈ t.orders.select fun r => (r.oWId, r.oDId) = k ∧ r.oCId = cId :=
      Rows.mem_select.mpr
        ⟨hr, decide_eq_true (p := (r.oWId, r.oDId) = k ∧ r.oCId = cId) hof⟩
    simp only [lastOrder]
    split
    · rename_i hmax
      rw [List.max?_eq_none_iff] at hmax
      exact absurd (List.mem_map.mpr ⟨r, hmem, rfl⟩) (hmax ▸ List.not_mem_nil)
    · rename_i oId hmax
      obtain ⟨hoId, -⟩ := List.max?_eq_some_iff.mp hmax
      obtain ⟨r', hr', hid⟩ := List.mem_map.mp hoId
      exact List.find?_isSome.mpr ⟨r', hr', decide_eq_true hid⟩

end

/-! ## By last name -/

/-- The report is about the customer: its columns, the last of its orders and that order's
lines. -/
def Reports (t : Database) (c : Customer) (report : OrderReport) : Prop :=
  report.customer = c.columns ∧
  ∃ r, IsLastOrder t (c.cWId, c.cDId) c.cId r ∧ report.oId = r.oId ∧ report.oEntryD = r.oEntryD ∧
    report.oCarrierId = r.oCarrierId.getD 0 ∧ report.lines = (linesOf t r.key).map OrderLine.columns

section

variable {stale : CustomerColumns} {a : OrdstatArgs} {t : Database} {c : Customer}

/-- **What `ordstat` reports by name**: the customer at the middle, and the last order of the
customer whose number it is given. -/
theorem ordstat_byName (hby : a.byname = true)
    (hc : middle t a.customerDistrict a.cLast = some c) :
    ordstat stale a none t = (lastOrder t a.customerDistrict a.cId).map fun r =>
      ⟨c.columns, r.oId, r.oEntryD, r.oCarrierId.getD 0,
        (linesOf t (a.customerDistrict, r.oId)).map OrderLine.columns⟩ := by
  have hcustomer : ordstatCustomer stale a none t = .ok (c.columns, t) := by
    unfold ordstatCustomer
    rw [if_pos hby]
    refine Work.bind_eq_ok.mpr ⟨_, _, Work.fetch_eq_ok.mpr ⟨nofun, rfl, rfl⟩,
      Work.bind_eq_ok.mpr ⟨_, _, Work.fetch_eq_ok.mpr ⟨nofun, rfl, rfl⟩, ?_⟩⟩
    rw [fetchRows_middle Customer.columns hc]
    rfl
  unfold ordstat
  rw [ordstatWork, Work.bind_of_ok hcustomer]
  cases hlast : lastOrder t a.customerDistrict a.cId with
  | none =>
    have hfetch : Work.fetch (.stmt 23 0) Label.sqlerr
        (fun t => lastOrder t a.customerDistrict a.cId) (none : Option Site) t = .error .sqlerr :=
      Work.fetch_of_none hlast
    rw [Work.bind_of_error hfetch]
    rfl
  | some r =>
    have hfetch : Work.fetch (.stmt 23 0) Label.sqlerr
        (fun t => lastOrder t a.customerDistrict a.cId) (none : Option Site) t = .ok (r, t) :=
      Work.fetch_eq_ok.mpr ⟨nofun, hlast, rfl⟩
    rw [Work.bind_of_ok hfetch]
    rfl

/-- A report by name is about the customer at the middle exactly when the order is. -/
theorem reports_iff (stale : CustomerColumns) (a : OrdstatArgs) (hby : a.byname = true)
    (hc : middle t a.customerDistrict a.cLast = some c) :
    (match ordstat stale a none t with
      | some report => Reports t c report
      | none => ¬ HasOrder t a.customerDistrict c.cId) ↔
    a.cId = c.cId ∨
      ¬ HasOrder t a.customerDistrict a.cId ∧ ¬ HasOrder t a.customerDistrict c.cId := by
  obtain ⟨-, hk, -⟩ := middle_mem hc
  rw [ordstat_byName hby hc]
  cases hlast : lastOrder t a.customerDistrict a.cId with
  | none =>
    have hnone : ¬ HasOrder t a.customerDistrict a.cId := by
      rw [← lastOrder_isSome_iff, hlast]
      decide
    constructor
    · exact fun h => .inr ⟨hnone, h⟩
    · rintro (he | ⟨-, h⟩)
      · exact he ▸ hnone
      · exact h
  | some r =>
    have hr := lastOrder_eq_some hlast
    constructor
    · rintro ⟨-, r', hr', hid, -⟩
      -- one number, one order
      have hkey : r'.key = r.key := by
        unfold Order.key
        rw [hr'.isOf.1, hr.isOf.1, hk, ← hid]
      obtain rfl : r' = r := Rows.eq_of_key hr'.mem hr.mem hkey
      exact .inl (hr.isOf.2.symm.trans hr'.isOf.2)
    · rintro (he | ⟨h, -⟩)
      · refine ⟨rfl, r, ?_, rfl, rfl, rfl, ?_⟩
        · rw [hk, ← he]
          exact hr
        · unfold Order.key
          rw [hr.isOf.1]
      · exact absurd ⟨r, hr.mem, hr.isOf⟩ h

end

/-- A payment and an inquiry by name, for the same name in the same district. -/
structure SameName (p : PaymentArgs) (o : OrdstatArgs) : Prop where
  payment : p.byname = true
  ordstat : o.byname = true
  district : p.customerDistrict = o.customerDistrict
  last : p.cLast = o.cLast

/-- Both work on the customer `c`: one pays for it, and the other reports its last order, or
nothing if it has none. -/
def WorkOn (stale : CustomerColumns) (p : PaymentArgs) (o : OrdstatArgs) (w : Warehouse)
    (d : District) (t : Database) (c : Customer) : Prop :=
  payment p none t = (1, paid p w d c t) ∧
  match ordstat stale o none t with
  | some report => Reports t c report
  | none => ¬ HasOrder t o.customerDistrict c.cId

/-- **By name, both work on the customer at the middle** of those with the name exactly when the
inquiry is given that customer's number, or neither customer has an order. -/
theorem byname_workOn_iff (stale : CustomerColumns) (t : Database) (p : PaymentArgs)
    (o : OrdstatArgs) (hname : SameName p o) (w : Warehouse) (d : District)
    (hw : t.warehouse.find? p.wId = some w) (hd : t.district.find? (p.wId, p.dId) = some d)
    (hn : 0 < (byName t o.customerDistrict o.cLast).length) :
    ∃ c, middle t o.customerDistrict o.cLast = some c ∧ (WorkOn stale p o w d t c ↔
      o.cId = c.cId ∨
        ¬ HasOrder t o.customerDistrict o.cId ∧ ¬ HasOrder t o.customerDistrict c.cId) := by
  obtain ⟨c, hc⟩ : ∃ c, middle t o.customerDistrict o.cLast = some c :=
    ⟨_, List.getElem?_eq_getElem (by omega)⟩
  have hc' : middle t p.customerDistrict p.cLast = some c := by
    rw [hname.district, hname.last]
    exact hc
  refine ⟨c, hc, ?_⟩
  rw [WorkOn, payment_byName hname.payment hw hd hc', ← reports_iff stale o hname.ordstat hc]
  exact and_iff_right rfl

/-- A district with two customers, of which each has an order. -/
def twoCustomers : Database :=
  { Database.empty with
    warehouse := Rows.empty.insertAll [⟨1, "W", "", "", "", "", "", 0, 0⟩]
    district := Rows.empty.insertAll [⟨1, 1, "D", "", "", "", "", "", 0, 0, 3⟩]
    customer := Rows.empty.insertAll
      [⟨1, 1, 1, "A", "OE", "BARBARBAR", "", "", "", "", "", "", "", "GC", 0, 0, 0, 0, 0, 0, ""⟩,
        ⟨2, 1, 1, "B", "OE", "BARBAROUGHT", "", "", "", "", "", "", "", "GC", 0, 0, 0, 0, 0, 0, ""⟩]
    orders := Rows.empty.insertAll [⟨1, 1, 1, 1, "", none, 0, 1⟩, ⟨2, 1, 1, 2, "", none, 0, 1⟩] }

/-- The inquiry about the first by its name, with the number `cId`. -/
def inquiry (cId : Int) : OrdstatArgs := ⟨1, 1, true, cId, "BARBARBAR"⟩

/-- A payment for it. -/
def namedPayment : PaymentArgs := ⟨1, 1, true, 1, 1, 0, "BARBARBAR", 5, "2014-01-01 00:00:00"⟩

theorem byname_workOn_own_number : SameName namedPayment (inquiry 1) ∧
    ∃ c, middle twoCustomers (1, 1) "BARBARBAR" = some c ∧
      (WorkOn ⟨0, "", "", ""⟩ namedPayment (inquiry 1) ⟨1, "W", "", "", "", "", "", 0, 0⟩
          ⟨1, 1, "D", "", "", "", "", "", 0, 0, 3⟩ twoCustomers c ↔
        1 = c.cId ∨ ¬ HasOrder twoCustomers (1, 1) 1 ∧ ¬ HasOrder twoCustomers (1, 1) c.cId) :=
  ⟨⟨rfl, rfl, rfl, rfl⟩, byname_workOn_iff ⟨0, "", "", ""⟩ twoCustomers namedPayment (inquiry 1)
    ⟨rfl, rfl, rfl, rfl⟩ _ _ (by decide) (by decide) (by decide)⟩

/-- With the number of the second customer the inquiry reports the second one's order. -/
theorem inquiry_stale_number : SameName namedPayment (inquiry 2) ∧
    ∃ c, middle twoCustomers (1, 1) "BARBARBAR" = some c ∧
      ¬ WorkOn ⟨0, "", "", ""⟩ namedPayment (inquiry 2) ⟨1, "W", "", "", "", "", "", 0, 0⟩
        ⟨1, 1, "D", "", "", "", "", "", 0, 0, 3⟩ twoCustomers c := by
  refine ⟨⟨rfl, rfl, rfl, rfl⟩, ?_⟩
  have hcId : (middle twoCustomers (1, 1) "BARBARBAR").map Customer.cId = some 1 := by decide
  obtain ⟨c, hc, hone⟩ := Option.map_eq_some_iff.mp hcId
  have horder : HasOrder twoCustomers (1, 1) 2 := by
    refine ⟨⟨2, 1, 1, 2, "", none, 0, 1⟩, ?_, rfl, rfl⟩
    show _ ∈ twoCustomers.orders.rows
    decide
  refine ⟨c, hc, fun ⟨_, hreport⟩ => ?_⟩
  rcases (reports_iff ⟨0, "", "", ""⟩ (inquiry 2) rfl hc).mp hreport with he | ⟨hno, -⟩
  · exact absurd (he.trans hone) (by decide)
  · exact hno horder

end TokuQa.Tpcc
