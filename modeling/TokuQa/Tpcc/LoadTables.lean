import TokuQa.Tpcc.Load

/-!
# The tables of a load

What a load has put in row by row (`LoadedWith`), and by the keys of the rows (`LoadedOnce`).
The lists of the loops are long, so what is shown of the rows part by part is shown for any lists
(`partRows`).
-/

set_option autoImplicit false

namespace TokuQa.Tpcc

open TokuQa.Lib
open Loading (applyAll)

/-! ## What the rows of a table are -/

namespace Row

def item? : Row → Option Item
  | .item r => some r
  | _ => none

def warehouse? : Row → Option Warehouse
  | .warehouse r => some r
  | _ => none

def stock? : Row → Option Stock
  | .stock r => some r
  | _ => none

def district? : Row → Option District
  | .district r => some r
  | _ => none

def customer? : Row → Option Customer
  | .customer r => some r
  | _ => none

def history? : Row → Option History
  | .history r => some r
  | _ => none

def newOrder? : Row → Option NewOrder
  | .newOrder r => some r
  | _ => none

def order? : Row → Option Order
  | .order r => some r
  | _ => none

def orderLine? : Row → Option OrderLine
  | .orderLine r => some r
  | _ => none

end Row

/-- The tables `t'` are `t` and the rows `l` behind them. -/
structure Appended (l : List Row) (t t' : Database) : Prop where
  item : t'.item.rows = t.item.rows ++ l.filterMap Row.item?
  warehouse : t'.warehouse.rows = t.warehouse.rows ++ l.filterMap Row.warehouse?
  stock : t'.stock.rows = t.stock.rows ++ l.filterMap Row.stock?
  district : t'.district.rows = t.district.rows ++ l.filterMap Row.district?
  customer : t'.customer.rows = t.customer.rows ++ l.filterMap Row.customer?
  history : t'.history = t.history ++ l.filterMap Row.history?
  newOrders : t'.newOrders.rows = t.newOrders.rows ++ l.filterMap Row.newOrder?
  orders : t'.orders.rows = t.orders.rows ++ l.filterMap Row.order?
  orderLine : t'.orderLine.rows = t.orderLine.rows ++ l.filterMap Row.orderLine?

/-- No two rows of `t` and `l` have the same key. -/
structure Distinct (l : List Row) (t : Database) : Prop where
  item : ((t.item.rows ++ l.filterMap Row.item?).map Item.key).Nodup
  warehouse : ((t.warehouse.rows ++ l.filterMap Row.warehouse?).map Warehouse.key).Nodup
  stock : ((t.stock.rows ++ l.filterMap Row.stock?).map Stock.key).Nodup
  district : ((t.district.rows ++ l.filterMap Row.district?).map District.key).Nodup
  customer : ((t.customer.rows ++ l.filterMap Row.customer?).map Customer.key).Nodup
  newOrders : ((t.newOrders.rows ++ l.filterMap Row.newOrder?).map NewOrder.key).Nodup
  orders : ((t.orders.rows ++ l.filterMap Row.order?).map Order.key).Nodup
  orderLine : ((t.orderLine.rows ++ l.filterMap Row.orderLine?).map OrderLine.key).Nodup

section

variable {l l' : List Row} {t t' t'' : Database} {r : Row}

theorem Appended.refl (t : Database) : Appended [] t t := by
  constructor <;> exact (List.append_nil _).symm

theorem Appended.trans (h : Appended l t t') (h' : Appended l' t' t'') :
    Appended (l ++ l') t t'' := by
  constructor
  · rw [h'.item, h.item, List.filterMap_append, List.append_assoc]
  · rw [h'.warehouse, h.warehouse, List.filterMap_append, List.append_assoc]
  · rw [h'.stock, h.stock, List.filterMap_append, List.append_assoc]
  · rw [h'.district, h.district, List.filterMap_append, List.append_assoc]
  · rw [h'.customer, h.customer, List.filterMap_append, List.append_assoc]
  · rw [h'.history, h.history, List.filterMap_append, List.append_assoc]
  · rw [h'.newOrders, h.newOrders, List.filterMap_append, List.append_assoc]
  · rw [h'.orders, h.orders, List.filterMap_append, List.append_assoc]
  · rw [h'.orderLine, h.orderLine, List.filterMap_append, List.append_assoc]

theorem Row.insert_appended (h : r.insert t = some t') : Appended [r] t t' := by
  cases r with
  | history r =>
    cases h
    constructor <;> first | rfl | exact (List.append_nil _).symm
  | _ =>
    obtain ⟨rows, hinsert, rfl⟩ := Option.map_eq_some_iff.mp h
    have hrows := (Rows.insert?_eq_some_iff.mp hinsert).2
    constructor <;> first | exact hrows | exact (List.append_nil _).symm

theorem Row.insert_of_distinct (h : Distinct (r :: l) t) :
    ∃ t', r.insert t = some t' ∧ Distinct l t' := by
  cases r with
  | item r =>
    obtain ⟨rows, hinsert, hrows⟩ := Rows.exists_insert? h.item
    refine ⟨_, congrArg (Option.map _) hinsert, { h with item := ?_ }⟩
    rw [hrows, List.append_assoc]
    exact h.item
  | warehouse r =>
    obtain ⟨rows, hinsert, hrows⟩ := Rows.exists_insert? h.warehouse
    refine ⟨_, congrArg (Option.map _) hinsert, { h with warehouse := ?_ }⟩
    rw [hrows, List.append_assoc]
    exact h.warehouse
  | stock r =>
    obtain ⟨rows, hinsert, hrows⟩ := Rows.exists_insert? h.stock
    refine ⟨_, congrArg (Option.map _) hinsert, { h with stock := ?_ }⟩
    rw [hrows, List.append_assoc]
    exact h.stock
  | district r =>
    obtain ⟨rows, hinsert, hrows⟩ := Rows.exists_insert? h.district
    refine ⟨_, congrArg (Option.map _) hinsert, { h with district := ?_ }⟩
    rw [hrows, List.append_assoc]
    exact h.district
  | customer r =>
    obtain ⟨rows, hinsert, hrows⟩ := Rows.exists_insert? h.customer
    refine ⟨_, congrArg (Option.map _) hinsert, { h with customer := ?_ }⟩
    rw [hrows, List.append_assoc]
    exact h.customer
  | history r => exact ⟨_, rfl, { h with }⟩
  | newOrder r =>
    obtain ⟨rows, hinsert, hrows⟩ := Rows.exists_insert? h.newOrders
    refine ⟨_, congrArg (Option.map _) hinsert, { h with newOrders := ?_ }⟩
    rw [hrows, List.append_assoc]
    exact h.newOrders
  | order r =>
    obtain ⟨rows, hinsert, hrows⟩ := Rows.exists_insert? h.orders
    refine ⟨_, congrArg (Option.map _) hinsert, { h with orders := ?_ }⟩
    rw [hrows, List.append_assoc]
    exact h.orders
  | orderLine r =>
    obtain ⟨rows, hinsert, hrows⟩ := Rows.exists_insert? h.orderLine
    refine ⟨_, congrArg (Option.map _) hinsert, { h with orderLine := ?_ }⟩
    rw [hrows, List.append_assoc]
    exact h.orderLine

/-- **The statements append their rows**, if they do not fail. -/
theorem appended_of_applyAll {is : List Insert} (h : applyAll (statements is) t = some t') :
    Appended (is.map Insert.row) t t' := by
  induction is generalizing t with
  | nil =>
    cases h
    exact .refl _
  | cons i is ih =>
    rw [statements, List.map_cons, applyAll, List.foldlM_cons] at h
    obtain ⟨t₁, hfirst, hrest⟩ := Option.bind_eq_some_iff.mp h
    exact (Row.insert_appended hfirst).trans (ih hrest)

/-- **They do not fail** if the keys are distinct. -/
theorem applyAll_of_distinct {is : List Insert} (h : Distinct (is.map Insert.row) t) :
    (applyAll (statements is) t).isSome := by
  induction is generalizing t with
  | nil => rfl
  | cons i is ih =>
    obtain ⟨t₁, hfirst, hrest⟩ := Row.insert_of_distinct h
    rw [statements, List.map_cons, applyAll, List.foldlM_cons, hfirst]
    exact ih hrest

end

/-! ## The rows of a load -/

theorem filterMap_none {α β : Type} (l : List α) : l.filterMap (fun _ => (none : Option β)) = [] :=
  List.filterMap_eq_nil_iff.mpr fun _ _ => rfl

theorem flatMap_nil {α β : Type} (l : List α) : l.flatMap (fun _ => ([] : List β)) = [] :=
  List.flatMap_eq_nil_iff.mpr fun _ _ => rfl

theorem flatMap_if {α β : Type} (l : List α) (p : α → Prop) [DecidablePred p] (f : α → β) :
    (l.flatMap fun a => if p a then [f a] else []) = (l.filter fun a => p a).map f := by
  induction l with
  | nil => rfl
  | cons a l ih =>
    rw [List.flatMap_cons, List.filter_cons, ih]
    by_cases hp : p a
    · simp [hp]
    · simp [hp]

section

variable (items dists custs ords wares : List Int) (ks : List DistrictKey) (item : Int → Item)
  (ware : Int → Warehouse) (stock : Int → Int → Stock) (district : Int → Int → District)
  (customer : DistrictKey → Int → Customer) (history : DistrictKey → Int → History)
  (newOrder : DistrictKey → Int → NewOrder) (order : DistrictKey → Int → Order)
  (lines : DistrictKey → Int → List Int) (line : DistrictKey → Int → Int → OrderLine)

/-- The rows of a load in the order of the loops, over any lists and rows. -/
def partRows : List Row :=
  items.map (fun iId => .item (item iId)) ++
  (wares.flatMap (fun wId => .warehouse (ware wId) ::
    (items.map (fun iId => .stock (stock wId iId)) ++
      dists.map fun dId => .district (district wId dId))) ++
  (ks.flatMap (fun k => custs.flatMap fun cId =>
    [.customer (customer k cId), .history (history k cId)]) ++
  ks.flatMap fun k => ords.flatMap fun oId => .order (order k oId) ::
    ((if 2100 < oId then [.newOrder (newOrder k oId)] else []) ++
      (lines k oId).map fun ol => .orderLine (line k oId ol))))

variable {items dists custs ords wares ks item ware stock district customer history newOrder order
  lines line}

theorem partRows_tables {l : List Row} (hl : l = partRows items dists custs ords wares ks item
    ware stock district customer history newOrder order lines line) :
    (l.filterMap Row.item? = items.map item ∧ l.filterMap Row.warehouse? = wares.map ware ∧
      l.filterMap Row.stock? = wares.flatMap fun wId => items.map (stock wId)) ∧
    (l.filterMap Row.district? = (wares.flatMap fun wId => dists.map (district wId)) ∧
      l.filterMap Row.customer? = (ks.flatMap fun k => custs.map (customer k)) ∧
      l.filterMap Row.history? = ks.flatMap fun k => custs.map (history k)) ∧
    l.filterMap Row.newOrder? =
        (ks.flatMap fun k => (ords.filter fun oId => 2100 < oId).map (newOrder k)) ∧
      l.filterMap Row.order? = (ks.flatMap fun k => ords.map (order k)) ∧
      l.filterMap Row.orderLine? = ks.flatMap fun k => ords.flatMap fun oId =>
        (lines k oId).map (line k oId) := by
  subst hl
  refine ⟨⟨?_, ?_, ?_⟩, ⟨?_, ?_, ?_⟩, ?_, ?_, ?_⟩ <;>
    simp only [partRows, List.nil_append, List.filterMap_append,
      List.filterMap_flatMap, List.filterMap_map, List.filterMap_cons, List.filterMap_nil,
      Function.comp_def, Row.item?, Row.warehouse?, Row.stock?, Row.district?, Row.customer?,
      Row.history?, Row.newOrder?, Row.order?, Row.orderLine?, apply_ite (List.filterMap _),
      List.filterMap_eq_map', filterMap_none, ite_self, List.append_nil, flatMap_nil, flatMap_if,
      ← List.map_eq_flatMap]

end

/-- The tables are what a load with the draws `d` puts in. -/
structure LoadedWith (d : LoadDraws) (now : String) (minWare maxWare : Int) (t : Database) :
    Prop where
  item : t.item.rows = (upTo maxItems.toNat).map fun iId => itemRow (d.item iId) iId
  warehouse : t.warehouse.rows = (wares minWare maxWare).map fun wId => wareRow (d.ware wId) wId
  stock : t.stock.rows = (wares minWare maxWare).flatMap fun wId =>
    (upTo maxItems.toNat).map fun iId => stockRow (d.stock wId iId) wId iId
  district : t.district.rows = (wares minWare maxWare).flatMap fun wId =>
    (upTo distPerWare).map fun dId => districtRow (d.district wId dId) wId dId
  customer : t.customer.rows = (districtsOf minWare maxWare).flatMap fun k =>
    (upTo custPerDist).map fun cId => customerRow (d.customer k.1 k.2 cId) now k.1 k.2 cId
  history : t.history = (districtsOf minWare maxWare).flatMap fun k =>
    (upTo custPerDist).map fun cId => historyRow (d.customer k.1 k.2 cId) now k.1 k.2 cId
  newOrders : t.newOrders.rows = (districtsOf minWare maxWare).flatMap fun k =>
    ((upTo ordPerDist).filter fun oId => 2100 < oId).map fun oId => ⟨oId, k.2, k.1⟩
  orders : t.orders.rows = (districtsOf minWare maxWare).flatMap fun k =>
    (upTo ordPerDist).map fun oId => orderRow ((d.orders k.1 k.2).order oId) now k.1 k.2 oId
      ((d.orders k.1 k.2).oCId oId)
  orderLine : t.orderLine.rows = (districtsOf minWare maxWare).flatMap fun k =>
    (upTo ordPerDist).flatMap fun oId => (upTo ((d.orders k.1 k.2).order oId).oOlCnt).map fun ol =>
      lineRow (((d.orders k.1 k.2).order oId).line ol) now k.1 k.2 oId ol

section

variable {d : LoadDraws} {now : String} {minWare maxWare : Int} {t : Database}

/-- The rows of the load, part by part. -/
theorem rows_allInserts (d : LoadDraws) (now : String) (minWare maxWare : Int) :
    (allInserts d now minWare maxWare).map Insert.row =
    partRows (upTo maxItems.toNat) (upTo distPerWare) (upTo custPerDist) (upTo ordPerDist)
      (wares minWare maxWare) (districtsOf minWare maxWare)
      (fun iId => itemRow (d.item iId) iId) (fun wId => wareRow (d.ware wId) wId)
      (fun wId iId => stockRow (d.stock wId iId) wId iId)
      (fun wId dId => districtRow (d.district wId dId) wId dId)
      (fun k cId => customerRow (d.customer k.1 k.2 cId) now k.1 k.2 cId)
      (fun k cId => historyRow (d.customer k.1 k.2 cId) now k.1 k.2 cId)
      (fun k oId => ⟨oId, k.2, k.1⟩)
      (fun k oId => orderRow ((d.orders k.1 k.2).order oId) now k.1 k.2 oId
        ((d.orders k.1 k.2).oCId oId))
      (fun k oId => upTo ((d.orders k.1 k.2).order oId).oOlCnt)
      (fun k oId ol => lineRow (((d.orders k.1 k.2).order oId).line ol) now k.1 k.2 oId ol) := by
  simp only [allInserts, itemInserts, wareInserts, stockInserts, districtInserts, customerInserts,
    ordersInserts, partRows, List.map_append, List.map_cons, List.map_nil, List.map_flatMap,
    List.map_map, Function.comp_def, itemInsert_row, wareInsert_row, stockInsert_row,
    districtInsert_row, customerInsert_row, historyInsert_row, lineInsert_row, orderInserts_rows,
    List.cons_append]

theorem loadedWith_of_appended (h : Appended ((allInserts d now minWare maxWare).map Insert.row)
    Database.empty t) : LoadedWith d now minWare maxWare t := by
  obtain ⟨⟨h₁, h₂, h₃⟩, ⟨h₄, h₅, h₆⟩, h₇, h₈, h₉⟩ :=
    partRows_tables (rows_allInserts d now minWare maxWare)
  exact ⟨(h.item.trans (List.nil_append _)).trans h₁, (h.warehouse.trans (List.nil_append _)).trans h₂,
    (h.stock.trans (List.nil_append _)).trans h₃, (h.district.trans (List.nil_append _)).trans h₄,
    (h.customer.trans (List.nil_append _)).trans h₅, (h.history.trans (List.nil_append _)).trans h₆,
    (h.newOrders.trans (List.nil_append _)).trans h₇, (h.orders.trans (List.nil_append _)).trans h₈,
    (h.orderLine.trans (List.nil_append _)).trans h₉⟩

end

/-! ## Their keys -/

/-- The customers, or the orders, of these warehouses. -/
def ofDistricts (n : Nat) (minWare maxWare : Int) : List (DistrictKey × Int) :=
  (districtsOf minWare maxWare).flatMap fun k => (upTo n).map fun id => (k, id)

/-- **Each row is there once**, and no others. -/
structure LoadedOnce (minWare maxWare : Int) (t : Database) : Prop where
  item : t.item.rows.map Item.key = upTo maxItems.toNat
  warehouse : t.warehouse.rows.map Warehouse.key = wares minWare maxWare
  stock : t.stock.rows.map Stock.key = (wares minWare maxWare).flatMap fun wId =>
    (upTo maxItems.toNat).map fun iId => (wId, iId)
  district : t.district.rows.map District.key = districtsOf minWare maxWare
  customer : t.customer.rows.map Customer.key = ofDistricts custPerDist minWare maxWare
  history : t.history.map (fun h => ((h.hCWId, h.hCDId), h.hCId)) =
    ofDistricts custPerDist minWare maxWare
  newOrders : t.newOrders.rows.map NewOrder.key =
    (ofDistricts ordPerDist minWare maxWare).filter fun k => 2100 < k.2
  orders : t.orders.rows.map Order.key = ofDistricts ordPerDist minWare maxWare
  orderLine : t.orderLine.rows.map OrderLine.key =
    t.orders.rows.flatMap fun r => (upTo r.oOlCnt.toNat).map fun ol => (r.key, ol)

theorem map_key {α β κ : Type} {l : List α} {row : α → β} {key : β → κ} {g : α → κ}
    (h : ∀ a, key (row a) = g a) : (l.map row).map key = l.map g := by
  rw [List.map_map]
  exact List.map_congr_left fun a _ => h a

theorem map_key_self {α β : Type} {l : List α} {row : α → β} {key : β → α}
    (h : ∀ a, key (row a) = a) : (l.map row).map key = l :=
  (map_key (g := id) h).trans (List.map_id l)

theorem map_key_flatMap {α β γ κ : Type} {as : List α} {f : α → List β} {row : α → β → γ}
    {key : γ → κ} {g : α → β → κ} (h : ∀ a b, key (row a b) = g a b) :
    (as.flatMap fun a => (f a).map (row a)).map key = as.flatMap fun a => (f a).map (g a) := by
  rw [List.map_flatMap]
  exact List.flatMap_congr fun a _ => map_key (h a)

theorem map_key_lines {α β γ δ κ ι : Type} (ks : List α) (ords : List β) (f : γ → List δ)
    (line : α → β → δ → ι) (order : α → β → γ) (key : ι → κ × δ) (orderKey : γ → κ)
    (h : ∀ k o b, key (line k o b) = (orderKey (order k o), b)) :
    (ks.flatMap fun k => ords.flatMap fun o => (f (order k o)).map (line k o)).map key =
      (ks.flatMap fun k => ords.map (order k)).flatMap fun r =>
        (f r).map fun b => (orderKey r, b) := by
  rw [List.map_flatMap, List.flatMap_assoc]
  refine List.flatMap_congr fun k _ => ?_
  rw [List.map_flatMap, List.flatMap_map]
  exact List.flatMap_congr fun o _ => map_key (h k o)

theorem filter_pairs {α : Type} (ks : List α) (ords : List Int) (p : Int → Bool) :
    (ks.flatMap fun k => (ords.filter p).map fun o => (k, o)) =
      (ks.flatMap fun k => ords.map fun o => (k, o)).filter fun k => p k.2 := by
  rw [List.filter_flatMap]
  refine List.flatMap_congr fun k _ => ?_
  rw [List.filter_map]
  rfl

theorem distinct_empty {l : List Row} (hitem : ((l.filterMap Row.item?).map Item.key).Nodup)
    (hware : ((l.filterMap Row.warehouse?).map Warehouse.key).Nodup)
    (hstock : ((l.filterMap Row.stock?).map Stock.key).Nodup)
    (hdistrict : ((l.filterMap Row.district?).map District.key).Nodup)
    (hcustomer : ((l.filterMap Row.customer?).map Customer.key).Nodup)
    (hnewOrder : ((l.filterMap Row.newOrder?).map NewOrder.key).Nodup)
    (horder : ((l.filterMap Row.order?).map Order.key).Nodup)
    (horderLine : ((l.filterMap Row.orderLine?).map OrderLine.key).Nodup) :
    Distinct l Database.empty :=
  ⟨hitem, hware, hstock, hdistrict, hcustomer, hnewOrder, horder, horderLine⟩

section

variable {d : LoadDraws} {now : String} {minWare maxWare : Int} {t : Database}

theorem LoadedWith.once (h : LoadedWith d now minWare maxWare t) :
    LoadedOnce minWare maxWare t := by
  constructor
  · rw [h.item]
    exact map_key_self fun _ => rfl
  · rw [h.warehouse]
    exact map_key_self fun _ => rfl
  · rw [h.stock, map_key_flatMap (g := fun wId iId => (wId, iId)) fun _ _ => rfl]
  · rw [h.district, map_key_flatMap (g := fun wId dId => (wId, dId)) fun _ _ => rfl]
    rfl
  · rw [h.customer, map_key_flatMap (g := fun k cId => (k, cId)) fun _ _ => rfl]
    rfl
  · rw [h.history, map_key_flatMap (g := fun k cId => (k, cId)) fun _ _ => rfl]
    rfl
  · rw [h.newOrders, map_key_flatMap (g := fun k oId => (k, oId)) fun _ _ => rfl, filter_pairs]
    rfl
  · rw [h.orders, map_key_flatMap (g := fun k oId => (k, oId)) fun _ _ => rfl]
    rfl
  · rw [h.orderLine, h.orders]
    exact map_key_lines (districtsOf minWare maxWare) (upTo ordPerDist)
      (fun r : Order => upTo r.oOlCnt.toNat)
      (fun k oId ol => lineRow (((d.orders k.1 k.2).order oId).line ol) now k.1 k.2 oId ol)
      (fun k oId => orderRow ((d.orders k.1 k.2).order oId) now k.1 k.2 oId
        ((d.orders k.1 k.2).oCId oId)) OrderLine.key Order.key fun _ _ _ => rfl

theorem nodup_ofDistricts (n : Nat) : (ofDistricts n minWare maxWare).Nodup :=
  nodup_pairs_self (nodup_districtsOf minWare maxWare) fun _ => nodup_upTo n

/-- No statement of a load is refused. -/
theorem distinct_allInserts :
    Distinct ((allInserts d now minWare maxWare).map Insert.row) Database.empty := by
  obtain ⟨⟨h₁, h₂, h₃⟩, ⟨h₄, h₅, -⟩, h₇, h₈, h₉⟩ :=
    partRows_tables (rows_allInserts d now minWare maxWare)
  have horders : ((districtsOf minWare maxWare).flatMap fun k => (upTo ordPerDist).map fun oId =>
      orderRow ((d.orders k.1 k.2).order oId) now k.1 k.2 oId ((d.orders k.1 k.2).oCId oId)).map
        Order.key = ofDistricts ordPerDist minWare maxWare :=
    map_key_flatMap (g := fun k oId => (k, oId)) fun _ _ => rfl
  refine distinct_empty ?_ ?_ ?_ ?_ ?_ ?_ ?_ ?_
  · rw [h₁, map_key_self fun _ => rfl]
    exact nodup_upTo _
  · rw [h₂, map_key_self fun _ => rfl]
    exact nodup_wares _ _
  · rw [h₃, map_key_flatMap (g := fun wId iId => (wId, iId)) fun _ _ => rfl]
    exact nodup_pairs_self (nodup_wares _ _) fun _ => nodup_upTo _
  · rw [h₄, map_key_flatMap (g := fun wId dId => (wId, dId)) fun _ _ => rfl]
    exact nodup_districtsOf _ _
  · rw [h₅, map_key_flatMap (g := fun k cId => (k, cId)) fun _ _ => rfl]
    exact nodup_ofDistricts _
  · rw [h₇, map_key_flatMap (g := fun k oId => (k, oId)) fun _ _ => rfl, filter_pairs]
    exact (nodup_ofDistricts _).filter _
  · rw [h₈, horders]
    exact nodup_ofDistricts _
  · rw [h₉]
    refine (congrArg List.Nodup (map_key_lines (districtsOf minWare maxWare) (upTo ordPerDist)
      (fun r : Order => upTo r.oOlCnt.toNat)
      (fun k oId ol => lineRow (((d.orders k.1 k.2).order oId).line ol) now k.1 k.2 oId ol)
      (fun k oId => orderRow ((d.orders k.1 k.2).order oId) now k.1 k.2 oId
        ((d.orders k.1 k.2).oCId oId)) OrderLine.key Order.key fun _ _ _ => rfl)).mpr ?_
    exact nodup_pairs (by rw [horders]; exact nodup_ofDistricts _) fun _ => nodup_upTo _

theorem applyAll_allInserts_isSome :
    (applyAll (statements (allInserts d now minWare maxWare)) Database.empty).isSome :=
  applyAll_of_distinct distinct_allInserts

theorem loadedWith_of_applyAll
    (h : applyAll (statements (allInserts d now minWare maxWare)) Database.empty = some t) :
    LoadedWith d now minWare maxWare t := loadedWith_of_appended (appended_of_applyAll h)

end

/-- The connection a load starts with, and the executions that fail. -/
def started (fails : List Bool) : Loading Database := ⟨Conn.idle Database.empty, fails, 0⟩

/-- **Loading is exactly-once**: however the executions fail, as long as the number of starts is
not cut short a load ends, and one that ends has put in every row once, and the tables a load
without a failure puts in. -/
theorem load_once (draws : Nat → LoadDraws) (now : String) (minWare maxWare : Int)
    (fails : List Bool) :
    (∀ fuel, fails.count true < fuel →
      (load draws now minWare maxWare fuel (started fails)).isSome) ∧
    ∀ fuel s, load draws now minWare maxWare fuel (started fails) = some s →
      LoadedOnce minWare maxWare s.conn.committed ∧
      ∃ d s', load (fun _ => d) now minWare maxWare 1 (started []) = some s' ∧
        s'.conn.committed = s.conn.committed := by
  have hall : ∀ d, (applyAll (statements (allInserts d now minWare maxWare))
      Database.empty).isSome := fun _ => applyAll_allInserts_isSome
  refine ⟨fun fuel hfuel => ?_, fun fuel s h => ?_⟩
  · exact Option.isSome_iff_exists.mpr (load_ends (s := started fails) rfl hall hfuel)
  · obtain ⟨items, ware, cust, ord, happly⟩ := load_eq_some (s := started fails) rfl h
    refine ⟨(loadedWith_of_applyAll happly).once, pick draws items ware cust ord, ?_⟩
    obtain ⟨s', hs'⟩ : ∃ s', load (fun _ => pick draws items ware cust ord) now minWare maxWare 1
        (started []) = some s' := load_ends rfl hall Nat.one_pos
    obtain ⟨_, _, _, _, happly'⟩ := load_eq_some (s := started []) rfl hs'
    rw [pick_const] at happly'
    exact ⟨s', hs', Option.some.inj (happly'.symm.trans happly)⟩

/-- `rand` returns 0 always. -/
def zeroDraws : LoadDraws :=
  let string : StringDraws := ⟨0, fun _ => 0⟩
  let address : AddressDraws := ⟨string, string, string, string, string⟩
  { item := fun _ => ⟨0, string, 0, string, false, 0⟩
    ware := fun _ => ⟨string, address, 0⟩
    stock := fun _ _ => ⟨0, fun _ => string, string, false, 0⟩
    district := fun _ _ => ⟨string, address, 0⟩
    customer := fun _ _ _ => ⟨string, ⟨0, 0, 0, 0, 0⟩, ⟨0, 0, 0⟩, true, address, string, 0, 0, string,
      string⟩
    orders := fun _ _ => ⟨fun _ => 0, fun _ => ⟨0, 0, fun _ => ⟨0, string, 0⟩⟩⟩ }

/-- Two warehouses, and two failures of which the first is that of the first statement. -/
theorem load_once_twice : ∃ s, load (fun _ => zeroDraws) "2014-01-01 00:00:00" 1 2 3
    (started [true, false, true]) = some s ∧ LoadedOnce 1 2 s.conn.committed := by
  have h := load_once (fun _ => zeroDraws) "2014-01-01 00:00:00" 1 2 [true, false, true]
  obtain ⟨s, hs⟩ := Option.isSome_iff_exists.mp (h.1 3 (by decide))
  exact ⟨s, hs, (h.2 3 s hs).1⟩

end TokuQa.Tpcc
