import TokuQa.Lib.Connections
import TokuQa.Tpcc.Delivery
import TokuQa.Tpcc.Neword
import TokuQa.Tpcc.Payment

/-!
# The transactions statement by statement

`delivery`, `payment` and `neword` as programs of the connections of many threads: what they read, as
a snapshot or `FOR UPDATE`, and the rows each of their statements concerns. `thread_main` prepares
the statements.

No plain `SELECT` reads a column that its transaction has written. A `delivery` that finds no order
in its last district returns without a commit, and leaves its snapshot to the next transaction of
the connection.
-/

set_option autoImplicit false

namespace TokuQa.Tpcc

open TokuQa.Lib

/-- The names of the rows that are locked. -/
inductive RowName where
  | warehouse (k : Int)
  | district (k : DistrictKey)
  | customer (k : DistrictKey × Int)
  | newOrder (k : DistrictKey × Int)
  | order (k : DistrictKey × Int)
  | orderLine (k : (DistrictKey × Int) × Int)
  | stock (k : Int × Int)
deriving DecidableEq

/-- The statements that write. -/
inductive WriteStmt where
  | payWarehouse (wId : Int) (hAmount : ℚ)
  | payDistrict (wId dId : Int) (hAmount : ℚ)
  | setBalance (k : DistrictKey × Int) (cBalance : ℚ) (cData : Option String)
  | insertHistory (r : History)
  | setNextOId (k : DistrictKey) (dNextOId : Int)
  | insertOrder (r : Order)
  | insertNewOrder (r : NewOrder)
  | setQuantity (k : Int × Int) (sQuantity : Int)
  | insertOrderLine (r : OrderLine)
  | deleteNewOrder (k : DistrictKey × Int)
  | setCarrier (k : DistrictKey × Int) (oCarrierId : Int)
  | setDelivered (k : DistrictKey × Int) (datetime : String)
  | charge (k : DistrictKey × Int) (olTotal : ℚ)

namespace WriteStmt

/-- Only an `INSERT` can refuse: a key that is there. -/
def write (t : Database) : WriteStmt → Option Database
  | payWarehouse wId hAmount => some (Tpcc.payWarehouse wId hAmount t)
  | payDistrict wId dId hAmount => some (Tpcc.payDistrict wId dId hAmount t)
  | setBalance k cBalance cData => some (Tpcc.setBalance k cBalance cData t)
  | insertHistory r => some { t with history := t.history ++ [r] }
  | setNextOId k dNextOId => some (Tpcc.setNextOId k dNextOId t)
  | insertOrder r => (t.orders.insert? r).map fun orders => { t with orders }
  | insertNewOrder r => (t.newOrders.insert? r).map fun newOrders => { t with newOrders }
  | setQuantity k sQuantity => some (Tpcc.setQuantity k sQuantity t)
  | insertOrderLine r => (t.orderLine.insert? r).map fun orderLine => { t with orderLine }
  | deleteNewOrder k => some (Tpcc.deleteNewOrder k t)
  | setCarrier k oCarrierId => some (Tpcc.setCarrier k oCarrierId t)
  | setDelivered k datetime => some (Tpcc.setDelivered k datetime t)
  | charge k olTotal => some (Tpcc.charge k olTotal t)

/-- The name of a row that is there. -/
def found {α κ : Type} [DecidableEq κ] {key : α → κ} (rows : Rows key) (k : κ) (name : RowName) :
    List RowName :=
  if (rows.find? k).isSome then [name] else []

/-- The rows a statement finds, and the one an `INSERT` puts in. -/
def rows (t : Database) : WriteStmt → List RowName
  | payWarehouse wId _ => found t.warehouse wId (.warehouse wId)
  | payDistrict wId dId _ => found t.district (wId, dId) (.district (wId, dId))
  | setBalance k _ _ => found t.customer k (.customer k)
  | insertHistory _ => []
  | setNextOId k _ => found t.district k (.district k)
  | insertOrder r => [.order r.key]
  | insertNewOrder r => [.newOrder r.key]
  | setQuantity k _ => found t.stock k (.stock k)
  | insertOrderLine r => [.orderLine r.key]
  | deleteNewOrder k => found t.newOrders k (.newOrder k)
  | setCarrier k _ => found t.orders k (.order k)
  | setDelivered k _ => (t.orderLine.select fun r => r.order = k).map fun r => .orderLine r.key
  | charge k _ => found t.customer k (.customer k)

end WriteStmt

def server : Engine Database WriteStmt RowName := ⟨fun w t => w.rows t, fun w t => w.write t⟩

/-- What a transaction that commits has done. -/
inductive Done where
  | delivered (k : DistrictKey × Int)
  | paid (k : DistrictKey × Int) (hAmount : ℚ)
  | ordered (k : DistrictKey × Int)
deriving DecidableEq

abbrev Statements := Prog Database WriteStmt RowName Done

/-- The rest of a program for the row that was fetched; no row is an error. -/
def fetched {α : Type} (row : Option α) (next : α → Statements) : Statements :=
  match row with
  | some r => next r
  | none => .rollback

/-! ## `delivery` -/

/-- The order `k` is delivered, behind the `SELECT` that has found it. -/
def deliverOrder (a : DeliveryArgs) (k : DistrictKey × Int) (olTotal : ℚ)
    (next : ℚ → Statements) : Statements :=
  .write (.deleteNewOrder k) <| .select fun t =>
    fetched ((t.orders.find? k).map Order.oCId) fun cId =>
      .write (.setCarrier k a.oCarrierId) <| .write (.setDelivered k a.datetime) <| .select fun t =>
        let olTotal := (sumAmount k t).getD olTotal
        .write (.charge (k.1, cId) olTotal) <| .commit (.delivered k) <| next olTotal

def deliveryStatements (a : DeliveryArgs) : List Int → ℚ → Statements
  | [], _ => .ret
  | dId :: ds, olTotal => .select fun t =>
    let noOId := oldest t (a.wId, dId)
    if noOId = 0 then deliveryStatements a ds olTotal
    else deliverOrder a ((a.wId, dId), noOId) olTotal (deliveryStatements a ds)

/-! ## `payment` -/

def paymentCustomerStatements (a : PaymentArgs) (next : Int → Statements) : Statements :=
  if a.byname then
    .select fun t =>
      let namecnt := (byName t a.customerDistrict a.cLast).length
      .select fun t =>
        let cIds := (byName t a.customerDistrict a.cLast).map Customer.cId
        fetched (fetchRows (fetches namecnt) cIds a.cId) next
  else next a.cId

def paymentBalanceStatements (k : DistrictKey × Int) (cBalance : ℚ) (cCredit : String)
    (next : Statements) : Statements :=
  if cCredit = "BC" then
    .select fun t => fetched ((t.customer.find? k).map Customer.cData) fun cData =>
      .write (.setBalance k cBalance (some cData)) next
  else .write (.setBalance k cBalance none) next

def paymentStatements (a : PaymentArgs) : Statements :=
  .write (.payWarehouse a.wId a.hAmount) <| .select fun t =>
  fetched ((t.warehouse.find? a.wId).map Warehouse.wName) fun wName =>
  .write (.payDistrict a.wId a.dId a.hAmount) <| .select fun t =>
  fetched ((t.district.find? (a.wId, a.dId)).map District.dName) fun dName =>
  paymentCustomerStatements a fun cId =>
  let k := (a.customerDistrict, cId)
  .forUpdate (fun t => WriteStmt.found t.customer k (.customer k)) fun t =>
  fetched (t.customer.find? k) fun customer =>
  paymentBalanceStatements k (customer.cBalance + a.hAmount) customer.cCredit <|
  .write (.insertHistory ⟨cId, a.cDId, a.cWId, a.dId, a.wId, a.datetime, a.hAmount,
    hData wName dName⟩) <|
  .commit (.paid k a.hAmount) .ret

/-! ## `neword` -/

def newordLinesStatements (a : NewordArgs) (x : OrderContext) (next : Statements) :
    Int → List Nat → Statements
  | _, [] => next
  | olNumber, i :: seq =>
    let k := (a.supware i, a.itemid i)
    .select fun t => fetched (t.item.find? (a.itemid i)) fun item =>
    .forUpdate (fun t => WriteStmt.found t.stock k (.stock k)) fun t =>
    fetched (t.stock.find? k) fun stock =>
    .write (.setQuantity k (quantityLeft stock.sQuantity (a.qty i))) <|
    .write (.insertOrderLine ⟨x.oId, a.dId, a.wId, olNumber, a.itemid i, a.supware i, none, a.qty i,
      a.qty i * item.iPrice * (1 + x.wTax + x.dTax) * (1 - x.cDiscount),
      pickDistInfo stock.sDist a.dId a.distInfo⟩) <|
    newordLinesStatements a x next (olNumber + 1) seq

/-- An item that does not exist is rolled back like an error; only the return value differs. -/
def newordStatements (a : NewordArgs) : Statements :=
  .select fun t => fetched (t.warehouse.find? a.wId) fun warehouse =>
  fetched (t.customer.find? (a.district, a.cId)) fun customer =>
  .forUpdate (fun t => WriteStmt.found t.district a.district (.district a.district)) fun t =>
  fetched (t.district.find? a.district) fun district =>
  let oId := district.dNextOId
  .write (.setNextOId a.district (oId + 1)) <|
  .write (.insertOrder ⟨oId, a.dId, a.wId, a.cId, a.datetime, none, a.oOlCnt, a.oAllLocal⟩) <|
  .write (.insertNewOrder ⟨oId, a.dId, a.wId⟩) <|
  fetched (olNumSeq a) fun seq =>
  newordLinesStatements a ⟨oId, warehouse.wTax, district.dTax, customer.cDiscount⟩
    (.commit (.ordered (a.district, oId)) .ret) 1 seq

/-! ## The system -/

inductive Transaction where
  /-- `stale` is what `ol_total` holds at the start. -/
  | delivery (a : DeliveryArgs) (stale : ℚ)
  | payment (a : PaymentArgs)
  | neword (a : NewordArgs)

def Transaction.statements : Transaction → Statements
  | delivery a stale => deliveryStatements a districts stale
  | payment a => paymentStatements a
  | neword a => newordStatements a

abbrev Client := Connection Database WriteStmt RowName Done

abbrev Clients (n : Nat) := System Database WriteStmt RowName Done n

/-- One step of one of the threads. -/
abbrev threadStep {n : Nat} (e : ConnectionEvent Transaction n) (s : Clients n) :
    Option (Clients n) :=
  s.step server Transaction.statements e

end TokuQa.Tpcc
