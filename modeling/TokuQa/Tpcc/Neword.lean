import Mathlib.Tactic.Ring
import TokuQa.Lib.Deck
import TokuQa.Lib.JavaInt
import TokuQa.Tpcc.ByName

/-!
# `neword.c`

The district gives the order its number; the order and its entry in `new_orders` are put in, and
then its lines, in the order of their warehouses and items. An item that does not exist rolls all
of it back and the function returns 1; anything else that is missing, and an error of the
server, rolls it back and the function returns 0.

`float` is exact. What the function collects about the lines and shows nobody (`price`, `iname`,
`stock`, `bg`, `amt`, `total`) is left out.
-/

set_option autoImplicit false

namespace TokuQa.Tpcc

open TokuQa.Lib

/-- `MAXITEMS`. -/
def maxItems : Int := 100000

/-- `MAX_NUM_ITEMS`: the length of the arrays. -/
def maxNumItems : Int := 15

/-- The arguments. `distInfo` is what `ol_dist_info` holds before it is written: it is not for a
district beyond the ten. -/
structure NewordArgs where
  wId : Int
  dId : Int
  cId : Int
  oOlCnt : Int
  oAllLocal : Int
  itemid : Nat → Int
  supware : Nat → Int
  qty : Nat → Int
  datetime : String
  distInfo : String

namespace NewordArgs

def district (a : NewordArgs) : DistrictKey := (a.wId, a.dId)

/-- What the lines are sorted by, an `int`. -/
def sortKey (a : NewordArgs) (i : Nat) : Int :=
  wrap32 ((maxItems + 1) * a.supware i + a.itemid i)

end NewordArgs

/-! ## The order of the lines -/

/-- The inner loop of the sort, with `n` turns left from `j` on: the place of the smallest key. -/
def minPlace (key : Nat → Int) (seq : List Nat) : (n j : Nat) → Int → Nat → Option Nat
  | 0, _, _, minNum => some minNum
  | n + 1, j, tmp, minNum => do
    let x ← seq[j]?
    if key x < tmp then minPlace key seq n (j + 1) (key x) j
    else minPlace key seq n (j + 1) tmp minNum

/-- The outer loop, with `n` turns left from `i` on. -/
def sortSeq (key : Nat → Int) : (n i : Nat) → List Nat → Option (List Nat)
  | 0, _, seq => some seq
  | n + 1, i, seq => do
    let minNum ← minPlace key seq (seq.length - (i + 1)) (i + 1) (key (← seq[i]?)) i
    if minNum ≠ i then sortSeq key n (i + 1) (← exchange seq i minNum)
    else sortSeq key n (i + 1) seq

/-- `ol_num_seq`. -/
def olNumSeq (a : NewordArgs) : Option (List Nat) :=
  sortSeq a.sortKey (a.oOlCnt.toNat - 1) 0 (List.range a.oOlCnt.toNat)

/-! ## The statements -/

/-- The quantity an order leaves. -/
def quantityLeft (sQuantity olQuantity : Int) : Int :=
  if sQuantity > olQuantity then sQuantity - olQuantity else sQuantity - olQuantity + 91

/-- `pick_dist_info`. -/
def pickDistInfo (sDist : Vector String 10) (dId : Int) (distInfo : String) : String :=
  if 1 ≤ dId then (sDist[(dId - 1).toNat]?).getD distInfo else distInfo

def setNextOId (k : DistrictKey) (dNextOId : Int) (t : Database) : Database :=
  { t with
    district := t.district.update (fun r => r.key = k)
      ⟨fun r => { r with dNextOId := dNextOId }, fun _ => rfl⟩ }

def setQuantity (k : Int × Int) (sQuantity : Int) (t : Database) : Database :=
  { t with
    stock := t.stock.update (fun r => r.key = k)
      ⟨fun r => { r with sQuantity := sQuantity }, fun _ => rfl⟩ }

/-- `oId` and the rates the lines are charged by. -/
structure OrderContext where
  oId : Int
  wTax : ℚ
  dTax : ℚ
  cDiscount : ℚ

/-- The line `olNumber`, for the `i`th of the arguments. -/
def newordLine (a : NewordArgs) (x : OrderContext) (olNumber : Int) (i : Nat) :
    Work Site Label Database Unit := do
  let item ← Work.statement (.stmt 5 olNumber) .sqlerr fun t =>
    match t.item.find? (a.itemid i) with
    | some item => .ok (item, t)
    | none => .error .invaliditem
  let stock ← Work.fetch (.stmt 6 olNumber) .sqlerr fun t =>
    t.stock.find? (a.supware i, a.itemid i)
  Work.write (.stmt 7 olNumber) .sqlerr fun t =>
    some (setQuantity (a.supware i, a.itemid i) (quantityLeft stock.sQuantity (a.qty i)) t)
  let olAmount := a.qty i * item.iPrice * (1 + x.wTax + x.dTax) * (1 - x.cDiscount)
  Work.write (.stmt 8 olNumber) .sqlerr fun t =>
    (t.orderLine.insert? ⟨x.oId, a.dId, a.wId, olNumber, a.itemid i, a.supware i, none, a.qty i,
      olAmount, pickDistInfo stock.sDist a.dId a.distInfo⟩).map fun orderLine =>
        { t with orderLine := orderLine }

/-- The loop over the lines, from `olNumber` on. -/
def newordLines (a : NewordArgs) (x : OrderContext) :
    Int → List Nat → Work Site Label Database Unit
  | _, [] => pure ()
  | olNumber, i :: seq => do
    newordLine a x olNumber i
    newordLines a x (olNumber + 1) seq

/-- The first statement joins two tables, of which each has at most one row for it; it is a
`fetch` of each here. -/
def newordWork (a : NewordArgs) : Work Site Label Database Unit := do
  let warehouse ← Work.fetch (.stmt 0 0) .sqlerr fun t => t.warehouse.find? a.wId
  let customer ← Work.fetch (.stmt 0 0) .sqlerr fun t => t.customer.find? (a.district, a.cId)
  let district ← Work.fetch (.stmt 1 0) .sqlerr fun t => t.district.find? a.district
  let oId := district.dNextOId
  Work.write (.stmt 2 0) .sqlerr fun t => some (setNextOId a.district (oId + 1) t)
  Work.write (.stmt 3 0) .sqlerr fun t =>
    (t.orders.insert? ⟨oId, a.dId, a.wId, a.cId, a.datetime, none, a.oOlCnt, a.oAllLocal⟩).map
      fun orders => { t with orders := orders }
  Work.write (.stmt 4 0) .sqlerr fun t =>
    (t.newOrders.insert? ⟨oId, a.dId, a.wId⟩).map fun newOrders => { t with newOrders := newOrders }
  let seq ← Work.ofOption .sqlerr (olNumSeq a)
  newordLines a ⟨oId, warehouse.wTax, district.dTax, customer.cDiscount⟩ 1 seq
  Work.write (.commit 0) .sqlerr some

/-- The return value, and the committed tables. -/
def neword (a : NewordArgs) (strike : Option Site) (t : Database) : Int × Database :=
  match newordWork a strike t with
  | .ok (_, t') => (1, t')
  | .error .invaliditem => (1, t)
  | .error .sqlerr => (0, t)

/-! ## The sort permutes the lines -/

theorem minPlace_spec (key : Nat → Int) {seq : List Nat} {n j : Nat} (tmp : Int) {minNum : Nat}
    (hj : j + n ≤ seq.length) (hm : minNum < seq.length) :
    ∃ m, minPlace key seq n j tmp minNum = some m ∧ m < seq.length := by
  induction n generalizing j tmp minNum with
  | zero => exact ⟨minNum, rfl, hm⟩
  | succ n ih =>
    have hlt : j < seq.length := by omega
    rw [minPlace]
    simp only [List.getElem?_eq_getElem hlt, Option.bind_eq_bind, Option.bind_some]
    split
    · exact ih _ (by omega) hlt
    · exact ih _ (by omega) hm

theorem sortSeq_perm (key : Nat → Int) {n i : Nat} {seq : List Nat} (h : i + n < seq.length ∨ n = 0) :
    ∃ seq', sortSeq key n i seq = some seq' ∧ seq'.Perm seq := by
  induction n generalizing i seq with
  | zero => exact ⟨seq, rfl, List.Perm.refl seq⟩
  | succ n ih =>
    have hi : i < seq.length := by omega
    obtain ⟨m, hmin, hm⟩ : ∃ m, minPlace key seq (seq.length - (i + 1)) (i + 1) (key seq[i]) i =
        some m ∧ m < seq.length := minPlace_spec key (key seq[i]) (by omega) hi
    rw [sortSeq]
    simp only [List.getElem?_eq_getElem hi, Option.bind_eq_bind, Option.bind_some, hmin]
    split
    · obtain ⟨seq₁, hswap, hperm⟩ := exchange_perm hi hm
      obtain ⟨seq', hrest, hperm'⟩ := @ih (i + 1) seq₁
        (by rw [hperm.length_eq]; omega)
      exact ⟨seq', by rw [hswap, Option.bind_some, hrest], hperm'.trans hperm⟩
    · exact ih (by omega)

theorem olNumSeq_perm (a : NewordArgs) :
    ∃ seq, olNumSeq a = some seq ∧ seq.Perm (List.range a.oOlCnt.toNat) := by
  refine sortSeq_perm a.sortKey ?_
  rw [List.length_range]
  omega

/-! ## What an order does -/

/-- The stock has quantities from 1 to 100. -/
def InStock (t : Database) : Prop := ∀ s ∈ t.stock, 1 ≤ s.sQuantity ∧ s.sQuantity ≤ 100

theorem quantityLeft_range {s q : Int} (hs : 1 ≤ s ∧ s ≤ 100) (hq : 0 ≤ q ∧ q ≤ 91) :
    1 ≤ quantityLeft s q ∧ quantityLeft s q ≤ 100 := by
  unfold quantityLeft
  split <;> omega

/-- Only lines and stock are written. -/
structure SameOrders (t t' : Database) : Prop where
  warehouse : t'.warehouse = t.warehouse
  district : t'.district = t.district
  history : t'.history = t.history
  newOrders : t'.newOrders = t.newOrders
  orders : t'.orders = t.orders

/-- What `n` turns of the loop have put in: lines without a date, numbered from `olNumber` on. -/
structure LinesPut (a : NewordArgs) (x : OrderContext) (olNumber : Int) (n : Nat)
    (t t' : Database) : Prop where
  same : SameOrders t t'
  lines : ∃ lines, t'.orderLine.rows = t.orderLine.rows ++ lines ∧
    lines.map OrderLine.olNumber = (List.range n).map (fun i : Nat => olNumber + i) ∧
    ∀ l ∈ lines, l.order = (a.district, x.oId) ∧ l.olDeliveryD = none

section

variable {a : NewordArgs} {x : OrderContext} {strike : Option Site} {t t' : Database}
  {olNumber : Int} {i : Nat}

theorem newordLine_eq_ok (h : newordLine a x olNumber i strike t = .ok ((), t')) :
    LinesPut a x olNumber 1 t t' ∧
      (InStock t → 0 ≤ a.qty i ∧ a.qty i ≤ 91 → InStock t') := by
  simp only [newordLine, Work.bind_eq_ok, Work.statement_eq_ok, Work.fetch_eq_ok,
    Work.write_eq_ok] at h
  obtain ⟨item, t₁, ⟨-, hitem⟩, s, t₂, ⟨-, hs, ht₂⟩, _, t₃, ⟨-, ht₃⟩, -, hline⟩ := h
  have ht₁ : t₁ = t := by
    cases hfind : t.item.find? (a.itemid i) with
    | none => rw [hfind] at hitem; cases hitem
    | some r => rw [hfind] at hitem; cases hitem; rfl
  subst ht₂ ht₁
  obtain rfl := Option.some.inj ht₃
  obtain ⟨orderLine, hinsert, rfl⟩ := Option.map_eq_some_iff.mp hline
  obtain ⟨-, hrows⟩ := Rows.insert?_eq_some_iff.mp hinsert
  refine ⟨⟨⟨rfl, rfl, rfl, rfl, rfl⟩, _, hrows, by simp, ?_⟩, fun hstock hq => ?_⟩
  · intro l hl
    rw [List.mem_singleton.mp hl]
    exact ⟨rfl, rfl⟩
  · intro r hr
    obtain ⟨r₀, hr₀, rfl⟩ := Rows.mem_update.mp hr
    split
    · exact quantityLeft_range (hstock s (Rows.find?_eq_some_iff.mp hs).1) hq
    · exact hstock r₀ hr₀

theorem newordLines_eq_ok {seq : List Nat}
    (h : newordLines a x olNumber seq strike t = .ok ((), t')) :
    LinesPut a x olNumber seq.length t t' ∧
      (InStock t → (∀ i ∈ seq, 0 ≤ a.qty i ∧ a.qty i ≤ 91) → InStock t') := by
  induction seq generalizing olNumber t with
  | nil =>
    obtain ⟨-, rfl⟩ := Work.pure_eq_ok.mp h
    exact ⟨⟨⟨rfl, rfl, rfl, rfl, rfl⟩, [], by simp, by simp, by simp⟩, fun hstock _ => hstock⟩
  | cons i seq ih =>
    rw [newordLines] at h
    obtain ⟨_, t₁, hfirst, hrest⟩ := Work.bind_eq_ok.mp h
    obtain ⟨hput, hstock₁⟩ := newordLine_eq_ok hfirst
    obtain ⟨hputs, hstock₂⟩ := ih hrest
    refine ⟨⟨⟨?_, ?_, ?_, ?_, ?_⟩, ?_⟩, fun hstock hq => ?_⟩
    · exact hputs.same.warehouse.trans hput.same.warehouse
    · exact hputs.same.district.trans hput.same.district
    · exact hputs.same.history.trans hput.same.history
    · exact hputs.same.newOrders.trans hput.same.newOrders
    · exact hputs.same.orders.trans hput.same.orders
    · obtain ⟨line, hrow, hnumber, hline⟩ := hput.lines
      obtain ⟨lines, hrows, hnumbers, hlines⟩ := hputs.lines
      refine ⟨line ++ lines, by rw [hrows, hrow, List.append_assoc], ?_, fun l hl => ?_⟩
      · have hone : (List.range 1).map (fun i : Nat => olNumber + i) = [olNumber + (0 : Nat)] := rfl
        rw [List.map_append, hnumber, hnumbers, hone, List.singleton_append, List.length_cons,
          List.range_succ_eq_map, List.map_cons, List.map_map]
        refine congrArg _ (List.map_congr_left fun j _ => ?_)
        rw [Function.comp_apply, Nat.cast_succ]
        ring
      · rcases List.mem_append.mp hl with hl | hl
        · exact hline l hl
        · exact hlines l hl
    · exact hstock₂ (hstock₁ hstock (hq i List.mem_cons_self))
        fun j hj => hq j (List.mem_cons_of_mem _ hj)

/-- What an order that commits has done. -/
structure Ordered (a : NewordArgs) (d : District) (t t' : Database) : Prop where
  district : t.district.find? a.district = some d
  warehouse : t'.warehouse = t.warehouse
  districts : t'.district = (setNextOId a.district (d.dNextOId + 1) t).district
  history : t'.history = t.history
  orders : t'.orders.rows = t.orders.rows ++
    [⟨d.dNextOId, a.dId, a.wId, a.cId, a.datetime, none, a.oOlCnt, a.oAllLocal⟩]
  newOrders : t'.newOrders.rows = t.newOrders.rows ++ [⟨d.dNextOId, a.dId, a.wId⟩]
  lines : ∃ lines, t'.orderLine.rows = t.orderLine.rows ++ lines ∧
    lines.map OrderLine.olNumber =
      (List.range a.oOlCnt.toNat).map (fun i : Nat => (1 : Int) + i) ∧
    ∀ l ∈ lines, l.order = (a.district, d.dNextOId) ∧ l.olDeliveryD = none
  stock : InStock t → (∀ i, i < a.oOlCnt.toNat → 0 ≤ a.qty i ∧ a.qty i ≤ 91) → InStock t'

/-- **Every order that commits** has its number from the district, and its lines. -/
theorem newordWork_eq_ok (h : newordWork a strike t = .ok ((), t')) :
    ∃ d, Ordered a d t t' := by
  simp only [newordWork, Work.bind_eq_ok, Work.fetch_eq_ok, Work.write_eq_ok] at h
  obtain ⟨w, _, ⟨-, -, rfl⟩, c, _, ⟨-, -, rfl⟩, d, _, ⟨-, hd, rfl⟩, _, t₁, ⟨-, ht₁⟩, _, t₂,
    ⟨-, ht₂⟩, _, t₃, ⟨-, ht₃⟩, seq, t₄, hseq, _, t₅, hlines, -, ht₅⟩ := h
  obtain rfl := Option.some.inj ht₁
  obtain ⟨orders, horders, rfl⟩ := Option.map_eq_some_iff.mp ht₂
  obtain ⟨newOrders, hnew, rfl⟩ := Option.map_eq_some_iff.mp ht₃
  obtain ⟨hsome, rfl⟩ := Work.ofOption_eq_ok.mp hseq
  obtain rfl := Option.some.inj ht₅
  obtain ⟨seq', hseq', hperm⟩ := olNumSeq_perm a
  obtain rfl : seq' = seq := Option.some.inj (hseq'.symm.trans hsome)
  obtain ⟨hput, hstock⟩ := newordLines_eq_ok hlines
  have hlen : seq'.length = a.oOlCnt.toNat := hperm.length_eq.trans List.length_range
  refine ⟨d, hd, hput.same.warehouse, hput.same.district, hput.same.history, ?_, ?_, ?_, ?_⟩
  · rw [hput.same.orders]
    exact (Rows.insert?_eq_some_iff.mp horders).2
  · rw [hput.same.newOrders]
    exact (Rows.insert?_eq_some_iff.mp hnew).2
  · rw [← hlen]
    exact hput.lines
  · intro hin hq
    exact hstock hin fun i hi => hq i (List.mem_range.mp (hperm.mem_iff.mp hi))

end

end TokuQa.Tpcc
