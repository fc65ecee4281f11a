import TokuQa.Lib.Deck
import TokuQa.Tpcc.Delivery
import TokuQa.Tpcc.Neword
import TokuQa.Tpcc.Support

/-!
# What `load.c` and `gen.c` draw and bind

The two programs draw the same data in the same order and bind it to the parameters of the same
eleven statements; only one of them executes these. A statement with what is bound is an `Insert`.

What `rand` returns is an input, a record for each row. So is what the arrays `orig` hold, of
which a tenth is initialised. `float` is exact.
-/

set_option autoImplicit false

namespace TokuQa.Tpcc

open TokuQa.Lib

/-- `CUST_PER_DIST`. -/
def custPerDist : Nat := 3000

/-- `ORD_PER_DIST`. -/
def ordPerDist : Nat := 3000

/-- What a loop from 1 to `n` goes through. -/
def upTo (n : Nat) : List Int := (List.range n).map fun i : Nat => (i : Int) + 1

/-! ## `support.c`: strings, names and the permutation -/

structure StringDraws where
  len : Nat
  chars : Nat → Nat

def alphanum : List Char := "0123456789ABCDEFGHIJKLMNOPQRSTUVWXYZabcdefghijklmnopqrstuvwxyz".toList

def numeric : List Char := "0123456789".toList

/-- A string of characters of the array, whose last index is `arrmax`. -/
def makeString (array : List Char) (arrmax x y : Nat) (d : StringDraws) : String :=
  String.ofList ((List.range (randomNumber d.len x y)).map fun i =>
    array.getD (randomNumber (d.chars i) 0 arrmax) '0')

def makeAlphaString (x y : Nat) (d : StringDraws) : String := makeString alphanum 61 x y d

def makeNumberString (x y : Nat) (d : StringDraws) : String := makeString numeric 9 x y d

def syllables : List String :=
  ["BAR", "OUGHT", "ABLE", "PRI", "PRES", "ESE", "ANTI", "CALLY", "ATION", "EING"]

def lastname (num : Nat) : String :=
  syllables.getD (num / 100) "" ++ syllables.getD (num / 10 % 10) "" ++ syllables.getD (num % 10) ""

/-- The shuffle, with `n` turns left from `i` on. -/
def shuffleFrom (draw : Nat → Nat) : (n i : Nat) → List Int → Option (List Int)
  | 0, _, nums => some nums
  | n + 1, i, nums => do
    shuffleFrom draw n (i + 1) (← exchange nums i (randomNumber (draw i) (i + 1) (ordPerDist - 1)))

/-- `nums` behind `InitPermutation`. -/
def initPermutation (draw : Nat → Nat) : Option (List Int) :=
  shuffleFrom draw (ordPerDist - 1) 0 (upTo ordPerDist)

/-- The fields of the `struct tm` that are written. -/
structure Tm where
  year : Nat
  mon : Nat
  mday : Nat
  hour : Nat
  min : Nat
  sec : Nat

def twoDigits (n : Nat) : List Char := if n < 10 then '0' :: Nat.toDigits 10 n else Nat.toDigits 10 n

/-- `strftime` with `"%Y-%m-%d %H:%M:%S"`. -/
def gettimestamp (tm : Tm) : String :=
  String.ofList (Nat.toDigits 10 tm.year ++ '-' :: twoDigits tm.mon ++ '-' :: twoDigits tm.mday ++
    ' ' :: twoDigits tm.hour ++ ':' :: twoDigits tm.min ++ ':' :: twoDigits tm.sec)

structure AddressDraws where
  street1 : StringDraws
  street2 : StringDraws
  city : StringDraws
  state : StringDraws
  zip : StringDraws

structure Address where
  street1 : String
  street2 : String
  city : String
  state : String
  zip : String

def makeAddress (d : AddressDraws) : Address :=
  ⟨makeAlphaString 10 20 d.street1, makeAlphaString 10 20 d.street2, makeAlphaString 10 20 d.city,
    makeAlphaString 2 2 d.state, makeNumberString 9 9 d.zip⟩

/-! ## The statements -/

/-- An execution of `stmt[0]` to `stmt[10]`: the parameters that are bound, in their order. -/
inductive Insert where
  | item (iId iImId : Int) (iName : String) (iPrice : ℚ) (iData : String)
  | warehouse (wId : Int) (wName : String) (a : Address) (wTax wYtd : ℚ)
  | stock (sIId sWId sQuantity : Int) (sDist : Vector String 10) (sData : String)
  | district (dId dWId : Int) (dName : String) (a : Address) (dTax dYtd : ℚ) (dNextOId : Int)
  | customer (cId cDId cWId : Int) (cFirst cMiddle cLast : String) (a : Address)
      (cPhone timestamp cCredit : String) (cCreditLim : Int) (cDiscount cBalance : ℚ)
      (cData : String)
  | history (cId cDId cWId : Int) (timestamp : String) (hAmount : ℚ) (hData : String)
  | undeliveredOrder (oId oDId oWId oCId : Int) (timestamp : String) (oOlCnt : Int)
  | newOrder (oId oDId oWId : Int)
  | deliveredOrder (oId oDId oWId oCId : Int) (timestamp : String) (oCarrierId oOlCnt : Int)
  | undeliveredLine (oId oDId oWId ol olIId olSupplyWId olQuantity : Int) (olAmount : ℚ)
      (olDistInfo : String)
  | deliveredLine (oId oDId oWId ol olIId olSupplyWId : Int) (timestamp : String)
      (olQuantity : Int) (tmpFloat : ℚ) (olDistInfo : String)

/-- A row of one of the tables. -/
inductive Row where
  | item (r : Item)
  | warehouse (r : Warehouse)
  | stock (r : Stock)
  | district (r : District)
  | customer (r : Customer)
  | history (r : History)
  | newOrder (r : NewOrder)
  | order (r : Order)
  | orderLine (r : OrderLine)

/-- The row a statement inserts, by its text. -/
def Insert.row : Insert → Row
  | .item iId iImId iName iPrice iData => .item ⟨iId, iImId, iName, iPrice, iData⟩
  | .warehouse wId wName a wTax wYtd =>
    .warehouse ⟨wId, wName, a.street1, a.street2, a.city, a.state, a.zip, wTax, wYtd⟩
  | .stock sIId sWId sQuantity sDist sData =>
    .stock ⟨sIId, sWId, sQuantity, sDist, 0, 0, 0, sData⟩
  | .district dId dWId dName a dTax dYtd dNextOId =>
    .district ⟨dId, dWId, dName, a.street1, a.street2, a.city, a.state, a.zip, dTax, dYtd, dNextOId⟩
  | .customer cId cDId cWId cFirst cMiddle cLast a cPhone timestamp cCredit cCreditLim cDiscount
      cBalance cData =>
    .customer ⟨cId, cDId, cWId, cFirst, cMiddle, cLast, a.street1, a.street2, a.city, a.state, a.zip,
      cPhone, timestamp, cCredit, cCreditLim, cDiscount, cBalance, 10, 1, 0, cData⟩
  | .history cId cDId cWId timestamp hAmount hData =>
    .history ⟨cId, cDId, cWId, cDId, cWId, timestamp, hAmount, hData⟩
  | .undeliveredOrder oId oDId oWId oCId timestamp oOlCnt =>
    .order ⟨oId, oDId, oWId, oCId, timestamp, none, oOlCnt, 1⟩
  | .newOrder oId oDId oWId => .newOrder ⟨oId, oDId, oWId⟩
  | .deliveredOrder oId oDId oWId oCId timestamp oCarrierId oOlCnt =>
    .order ⟨oId, oDId, oWId, oCId, timestamp, some oCarrierId, oOlCnt, 1⟩
  | .undeliveredLine oId oDId oWId ol olIId olSupplyWId olQuantity olAmount olDistInfo =>
    .orderLine ⟨oId, oDId, oWId, ol, olIId, olSupplyWId, none, olQuantity, olAmount, olDistInfo⟩
  | .deliveredLine oId oDId oWId ol olIId olSupplyWId timestamp olQuantity tmpFloat olDistInfo =>
    .orderLine ⟨oId, oDId, oWId, ol, olIId, olSupplyWId, some timestamp, olQuantity, tmpFloat,
      olDistInfo⟩

/-! ## What the functions insert -/

structure ItemDraws where
  imId : Nat
  name : StringDraws
  price : Nat
  data : StringDraws
  orig : Bool
  pos : Nat

/-- `i_data` and `s_data`: 8 of the characters are `original` if `orig` says so. -/
def makeData (data : StringDraws) (orig : Bool) (pos : Nat) : String :=
  let s := (makeAlphaString 26 50 data).toList
  let pos := randomNumber pos 0 (s.length - 8)
  String.ofList (if orig then s.take pos ++ "original".toList ++ s.drop (pos + 8) else s)

def itemInsert (d : ItemDraws) (iId : Int) : Insert :=
  .item iId (randomNumber d.imId 1 10000) (makeAlphaString 14 24 d.name)
    (randomNumber d.price 100 10000 / 100) (makeData d.data d.orig d.pos)

def itemInserts (d : Int → ItemDraws) : List Insert :=
  (upTo maxItems.toNat).map fun iId => itemInsert (d iId) iId

structure WareDraws where
  name : StringDraws
  address : AddressDraws
  tax : Nat

def wareInsert (d : WareDraws) (wId : Int) : Insert :=
  .warehouse wId (makeAlphaString 6 10 d.name) (makeAddress d.address)
    (randomNumber d.tax 10 20 / 100) 3000000

structure StockDraws where
  quantity : Nat
  dist : Fin 10 → StringDraws
  data : StringDraws
  orig : Bool
  pos : Nat

def stockInsert (d : StockDraws) (wId sIId : Int) : Insert :=
  .stock sIId wId (randomNumber d.quantity 10 100)
    (Vector.ofFn fun n => makeAlphaString 24 24 (d.dist n)) (makeData d.data d.orig d.pos)

def stockInserts (d : Int → StockDraws) (wId : Int) : List Insert :=
  (upTo maxItems.toNat).map fun sIId => stockInsert (d sIId) wId sIId

structure DistrictDraws where
  name : StringDraws
  address : AddressDraws
  tax : Nat

def districtInsert (d : DistrictDraws) (wId dId : Int) : Insert :=
  .district dId wId (makeAlphaString 6 10 d.name) (makeAddress d.address)
    (randomNumber d.tax 10 20 / 100) 30000 3001

def districtInserts (d : Int → DistrictDraws) (wId : Int) : List Insert :=
  (upTo distPerWare).map fun dId => districtInsert (d dId) wId dId

/-- `nurand`, `stale` and `first` are the draws of `NURand`, what its variables hold, and whether
it draws its constants. -/
structure CustomerDraws where
  firstName : StringDraws
  nurand : NURand.Draws
  stale : NURand.Constants
  first : Bool
  address : AddressDraws
  phone : StringDraws
  credit : Nat
  discount : Nat
  data : StringDraws
  hData : StringDraws

/-- The number of the last name. -/
def lastnameNum (d : CustomerDraws) (cId : Int) : Nat :=
  if cId ≤ 1000 then (cId - 1).toNat
  else ((NURand.nurand d.stale d.nurand 255 0 999 d.first).1.getD 0).toNat

def customerInsert (d : CustomerDraws) (now : String) (wId dId cId : Int) : Insert :=
  .customer cId dId wId (makeAlphaString 8 16 d.firstName) "OE" (lastname (lastnameNum d cId))
    (makeAddress d.address) (makeNumberString 16 16 d.phone) now
    (if randomNumber d.credit 0 1 ≠ 0 then "GC" else "BC") 50000
    (randomNumber d.discount 0 50 / 100) (-10) (makeAlphaString 300 500 d.data)

def historyInsert (d : CustomerDraws) (now : String) (wId dId cId : Int) : Insert :=
  .history cId dId wId now 10 (makeAlphaString 12 24 d.hData)

def customerInserts (d : Int → CustomerDraws) (now : String) (wId dId : Int) : List Insert :=
  (upTo custPerDist).flatMap fun cId =>
    [customerInsert (d cId) now wId dId cId, historyInsert (d cId) now wId dId cId]

structure LineDraws where
  itemId : Nat
  distInfo : StringDraws
  amount : Nat

structure OrderDraws where
  carrier : Nat
  olCnt : Nat
  line : Int → LineDraws

/-- `o_ol_cnt`. -/
def OrderDraws.oOlCnt (d : OrderDraws) : Nat := randomNumber d.olCnt 5 15

/-- The line `ol` of the order `oId`: the last 900 orders have not been delivered. -/
def lineInsert (d : LineDraws) (now : String) (wId dId oId ol : Int) : Insert :=
  if 2100 < oId then
    .undeliveredLine oId dId wId ol (randomNumber d.itemId 1 maxItems.toNat) wId 5 0
      (makeAlphaString 24 24 d.distInfo)
  else
    .deliveredLine oId dId wId ol (randomNumber d.itemId 1 maxItems.toNat) wId now 5
      (randomNumber d.amount 10 10000 / 100) (makeAlphaString 24 24 d.distInfo)

/-- The order itself. -/
def orderInserts (d : OrderDraws) (now : String) (wId dId oId oCId : Int) : List Insert :=
  if 2100 < oId then
    [.undeliveredOrder oId dId wId oCId now d.oOlCnt, .newOrder oId dId wId]
  else
    [.deliveredOrder oId dId wId oCId now (randomNumber d.carrier 1 10) d.oOlCnt]

structure OrdersDraws where
  perm : Nat → Nat
  order : Int → OrderDraws

/-- What the calls of `GetPermutation` return, in their order. -/
def OrdersDraws.nums (d : OrdersDraws) : List Int := (initPermutation d.perm).getD []

/-- The customer of the order `oId`. -/
def OrdersDraws.oCId (d : OrdersDraws) (oId : Int) : Int := d.nums.getD (oId - 1).toNat 0

def ordersInserts (d : OrdersDraws) (now : String) (wId dId : Int) : List Insert :=
  (upTo ordPerDist).flatMap fun oId =>
    orderInserts (d.order oId) now wId dId oId (d.oCId oId) ++
      (upTo (d.order oId).oOlCnt).map fun ol => lineInsert ((d.order oId).line ol) now wId dId oId ol

/-- All that is drawn, for one start of each function. -/
structure LoadDraws where
  item : Int → ItemDraws
  ware : Int → WareDraws
  stock : Int → Int → StockDraws
  district : Int → Int → DistrictDraws
  customer : Int → Int → Int → CustomerDraws
  orders : Int → Int → OrdersDraws

/-! ## The rows that are inserted -/

def itemRow (d : ItemDraws) (iId : Int) : Item :=
  ⟨iId, randomNumber d.imId 1 10000, makeAlphaString 14 24 d.name,
    randomNumber d.price 100 10000 / 100, makeData d.data d.orig d.pos⟩

def wareRow (d : WareDraws) (wId : Int) : Warehouse :=
  let a := makeAddress d.address
  ⟨wId, makeAlphaString 6 10 d.name, a.street1, a.street2, a.city, a.state, a.zip,
    randomNumber d.tax 10 20 / 100, 3000000⟩

def stockRow (d : StockDraws) (wId sIId : Int) : Stock :=
  ⟨sIId, wId, randomNumber d.quantity 10 100,
    Vector.ofFn fun n => makeAlphaString 24 24 (d.dist n), 0, 0, 0, makeData d.data d.orig d.pos⟩

def districtRow (d : DistrictDraws) (wId dId : Int) : District :=
  let a := makeAddress d.address
  ⟨dId, wId, makeAlphaString 6 10 d.name, a.street1, a.street2, a.city, a.state, a.zip,
    randomNumber d.tax 10 20 / 100, 30000, 3001⟩

def customerRow (d : CustomerDraws) (now : String) (wId dId cId : Int) : Customer :=
  let a := makeAddress d.address
  ⟨cId, dId, wId, makeAlphaString 8 16 d.firstName, "OE", lastname (lastnameNum d cId),
    a.street1, a.street2, a.city, a.state, a.zip, makeNumberString 16 16 d.phone, now,
    if randomNumber d.credit 0 1 ≠ 0 then "GC" else "BC", 50000,
    randomNumber d.discount 0 50 / 100, -10, 10, 1, 0, makeAlphaString 300 500 d.data⟩

def historyRow (d : CustomerDraws) (now : String) (wId dId cId : Int) : History :=
  ⟨cId, dId, wId, dId, wId, now, 10, makeAlphaString 12 24 d.hData⟩

def orderRow (d : OrderDraws) (now : String) (wId dId oId oCId : Int) : Order :=
  ⟨oId, dId, wId, oCId, now,
    if 2100 < oId then none else some (randomNumber d.carrier 1 10 : Int), d.oOlCnt, 1⟩

def lineRow (d : LineDraws) (now : String) (wId dId oId ol : Int) : OrderLine :=
  ⟨oId, dId, wId, ol, randomNumber d.itemId 1 maxItems.toNat, wId,
    if 2100 < oId then none else some now, 5,
    if 2100 < oId then 0 else randomNumber d.amount 10 10000 / 100,
    makeAlphaString 24 24 d.distInfo⟩

theorem itemInsert_row (d : ItemDraws) (iId : Int) :
    (itemInsert d iId).row = .item (itemRow d iId) := rfl

theorem wareInsert_row (d : WareDraws) (wId : Int) :
    (wareInsert d wId).row = .warehouse (wareRow d wId) := rfl

theorem stockInsert_row (d : StockDraws) (wId sIId : Int) :
    (stockInsert d wId sIId).row = .stock (stockRow d wId sIId) := rfl

theorem districtInsert_row (d : DistrictDraws) (wId dId : Int) :
    (districtInsert d wId dId).row = .district (districtRow d wId dId) := rfl

theorem customerInsert_row (d : CustomerDraws) (now : String) (wId dId cId : Int) :
    (customerInsert d now wId dId cId).row = .customer (customerRow d now wId dId cId) := rfl

theorem historyInsert_row (d : CustomerDraws) (now : String) (wId dId cId : Int) :
    (historyInsert d now wId dId cId).row = .history (historyRow d now wId dId cId) := rfl

theorem lineInsert_row (d : LineDraws) (now : String) (wId dId oId ol : Int) :
    (lineInsert d now wId dId oId ol).row = .orderLine (lineRow d now wId dId oId ol) := by
  unfold lineInsert lineRow
  split <;> rfl

theorem orderInserts_rows (d : OrderDraws) (now : String) (wId dId oId oCId : Int) :
    (orderInserts d now wId dId oId oCId).map Insert.row =
      .order (orderRow d now wId dId oId oCId) ::
        if 2100 < oId then [.newOrder ⟨oId, dId, wId⟩] else [] := by
  unfold orderInserts orderRow
  split <;> rfl

/-! ## The permutation is one -/

theorem shuffleFrom_perm (draw : Nat → Nat) {n i : Nat} {nums : List Int}
    (hi : i + n < ordPerDist ∨ n = 0) (hlen : nums.length = ordPerDist) :
    ∃ nums', shuffleFrom draw n i nums = some nums' ∧ nums'.Perm nums := by
  induction n generalizing i nums with
  | zero => exact ⟨nums, rfl, List.Perm.refl nums⟩
  | succ n ih =>
    have hlt : i + 1 ≤ ordPerDist - 1 := by omega
    have hj : randomNumber (draw i) (i + 1) (ordPerDist - 1) < nums.length := by
      have hle := randomNumber_le hlt (draw i)
      omega
    obtain ⟨nums₁, hswap, hperm⟩ := exchange_perm (by omega : i < nums.length) hj
    obtain ⟨nums', hrest, hperm'⟩ := @ih (i + 1) nums₁ (by omega)
      (hperm.length_eq.trans hlen)
    refine ⟨nums', ?_, hperm'.trans hperm⟩
    rw [shuffleFrom, hswap]
    exact hrest

theorem length_upTo (n : Nat) : (upTo n).length = n := by
  rw [upTo, List.length_map, List.length_range]

theorem mem_upTo {n : Nat} {k : Int} : k ∈ upTo n ↔ 1 ≤ k ∧ k ≤ n := by
  rw [upTo, List.mem_map]
  constructor
  · rintro ⟨i, hi, rfl⟩
    have hlt := List.mem_range.mp hi
    omega
  · rintro ⟨h1, hn⟩
    exact ⟨(k - 1).toNat, List.mem_range.mpr (by omega), by omega⟩

theorem nodup_upTo (n : Nat) : (upTo n).Nodup := by
  refine List.Nodup.map (fun i j hij => ?_) List.nodup_range
  have h : (i : Int) + 1 = j + 1 := hij
  omega

/-- `GetPermutation` returns each customer once, and is never past the end. -/
theorem nums_perm (d : OrdersDraws) : d.nums.Perm (upTo ordPerDist) := by
  obtain ⟨nums, hnums, hperm⟩ : ∃ nums, shuffleFrom d.perm (ordPerDist - 1) 0 (upTo ordPerDist) =
      some nums ∧ nums.Perm (upTo ordPerDist) :=
    shuffleFrom_perm d.perm (.inl (by decide)) (length_upTo _)
  rw [OrdersDraws.nums, initPermutation, hnums]
  exact hperm

end TokuQa.Tpcc
