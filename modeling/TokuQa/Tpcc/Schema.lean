import Mathlib.Algebra.Ring.Rat
import TokuQa.Lib.Rows

/-!
# `create_schema_tokudb.sql`: the nine tables

A row has its table's columns in their order. An integer is an `Int` and a `decimal` a rational
number: the widths of the columns, and the rounding of what is stored in them, are not modelled.
The columns that some statement leaves `NULL` are optional; the others are always filled.
`history` has no primary key.
-/

set_option autoImplicit false

namespace TokuQa.Tpcc

open TokuQa.Lib

structure Warehouse where
  wId : Int
  wName : String
  wStreet1 : String
  wStreet2 : String
  wCity : String
  wState : String
  wZip : String
  wTax : ℚ
  wYtd : ℚ
deriving DecidableEq

structure District where
  dId : Int
  dWId : Int
  dName : String
  dStreet1 : String
  dStreet2 : String
  dCity : String
  dState : String
  dZip : String
  dTax : ℚ
  dYtd : ℚ
  dNextOId : Int
deriving DecidableEq

structure Customer where
  cId : Int
  cDId : Int
  cWId : Int
  cFirst : String
  cMiddle : String
  cLast : String
  cStreet1 : String
  cStreet2 : String
  cCity : String
  cState : String
  cZip : String
  cPhone : String
  cSince : String
  cCredit : String
  cCreditLim : Int
  cDiscount : ℚ
  cBalance : ℚ
  cYtdPayment : ℚ
  cPaymentCnt : Int
  cDeliveryCnt : Int
  cData : String
deriving DecidableEq

structure History where
  hCId : Int
  hCDId : Int
  hCWId : Int
  hDId : Int
  hWId : Int
  hDate : String
  hAmount : ℚ
  hData : String
deriving DecidableEq

structure NewOrder where
  noOId : Int
  noDId : Int
  noWId : Int
deriving DecidableEq

structure Order where
  oId : Int
  oDId : Int
  oWId : Int
  oCId : Int
  oEntryD : String
  oCarrierId : Option Int
  oOlCnt : Int
  oAllLocal : Int
deriving DecidableEq

structure OrderLine where
  olOId : Int
  olDId : Int
  olWId : Int
  olNumber : Int
  olIId : Int
  olSupplyWId : Int
  olDeliveryD : Option String
  olQuantity : Int
  olAmount : ℚ
  olDistInfo : String
deriving DecidableEq

structure Item where
  iId : Int
  iImId : Int
  iName : String
  iPrice : ℚ
  iData : String
deriving DecidableEq

/-- `sDist` are the columns `s_dist_01` to `s_dist_10`. -/
structure Stock where
  sIId : Int
  sWId : Int
  sQuantity : Int
  sDist : Vector String 10
  sYtd : ℚ
  sOrderCnt : Int
  sRemoteCnt : Int
  sData : String
deriving DecidableEq

/-! ## Primary keys -/

/-- `(w_id, d_id)`. -/
abbrev DistrictKey := Int × Int

def Warehouse.key (r : Warehouse) : Int := r.wId
def District.key (r : District) : DistrictKey := (r.dWId, r.dId)
def Customer.key (r : Customer) : DistrictKey × Int := ((r.cWId, r.cDId), r.cId)
def NewOrder.key (r : NewOrder) : DistrictKey × Int := ((r.noWId, r.noDId), r.noOId)
def Order.key (r : Order) : DistrictKey × Int := ((r.oWId, r.oDId), r.oId)
def OrderLine.key (r : OrderLine) : (DistrictKey × Int) × Int :=
  (((r.olWId, r.olDId), r.olOId), r.olNumber)
def Item.key (r : Item) : Int := r.iId
def Stock.key (r : Stock) : Int × Int := (r.sWId, r.sIId)

/-- The order a line belongs to. -/
def OrderLine.order (r : OrderLine) : DistrictKey × Int := ((r.olWId, r.olDId), r.olOId)

structure Database where
  warehouse : Rows Warehouse.key
  district : Rows District.key
  customer : Rows Customer.key
  history : List History
  newOrders : Rows NewOrder.key
  orders : Rows Order.key
  orderLine : Rows OrderLine.key
  item : Rows Item.key
  stock : Rows Stock.key
deriving DecidableEq

def Database.empty : Database := ⟨.empty, .empty, .empty, [], .empty, .empty, .empty, .empty, .empty⟩

end TokuQa.Tpcc
