import TokuQa.Lib.Decimal
import TokuQa.Tpcc.Payment

/-!
# What a payment should do

A payment adds its amount to three columns and puts in a row of `history`; of a customer with bad
credit it also puts a new entry before the text `c_data`, of which 500 characters are kept
(`specified`). The new text is made, and the statement is given the old one. So a payment of such a
customer does what it should only if the text would not change, as happens when it is the new entry
over and over again (`hasEffect_iff`).

`%12c` and `%24c` are given pointers; the two characters that come out of them are whatever they
are. A text that is too long for the buffer it is read into is refused, so that no payment of that
customer commits.
-/

set_option autoImplicit false

namespace TokuQa.Tpcc

open TokuQa.Lib

/-! ## The new text -/

/-- `sprintf`, into `c_new_data`; the characters of the two pointers are `c` and `c'`. The string
ends at the first byte zero. -/
def newEntry (a : PaymentArgs) (cId : Int) (c c' : Char) : List Char :=
  let number (width : Nat) (n : Int) : List Char := (longToString n).leftpad width ' '
  let entry := ['|', ' '] ++ number 4 cId ++ [' '] ++ number 2 a.cDId ++ [' '] ++
    number 4 a.cWId ++ [' '] ++ number 2 a.dId ++ [' '] ++ number 4 a.wId ++ [' ', '$'] ++
    (printFixed 2 a.hAmount).leftpad 7 ' ' ++ [' '] ++ [c].leftpad 12 ' ' ++ [' '] ++
    [ c'].leftpad 24 ' '
  entry.takeWhile fun c => c.toNat ≠ 0

/-- `c_new_data`. -/
def cNewData (a : PaymentArgs) (cId : Int) (c c' : Char) (cData : String) : String :=
  String.ofList ((newEntry a cId c c' ++ cData.toList).take 500)

theorem toList_cNewData (a : PaymentArgs) (cId : Int) (c c' : Char) (cData : String) :
    (cNewData a cId c c' cData).toList = (newEntry a cId c c' ++ cData.toList).take 500 :=
  String.toList_ofList

theorem newEntry_ne_nil (a : PaymentArgs) (cId : Int) (c c' : Char) :
    newEntry a cId c c' ≠ [] := by
  simp [newEntry]

/-- The text is the entry over and over, cut at `n` characters. -/
def Repeats (entry : List Char) (n : Nat) (text : List Char) : Prop :=
  text.length = n ∧ ∀ i < n, text[i]? = entry[i % entry.length]?

/-- The entry put before a text, and cut, leaves the text it repeats in. -/
theorem take_append_eq_self_iff {entry text : List Char} {n : Nat} (hentry : entry ≠ []) :
    (entry ++ text).take n = text ↔ Repeats entry n text := by
  have hpos := List.length_pos_of_ne_nil hentry
  constructor
  · intro h
    have hlength : text.length = n := by
      have hlen := congrArg List.length h
      rw [List.length_take, List.length_append] at hlen
      omega
    refine ⟨hlength, fun i => ?_⟩
    induction i using Nat.strong_induction_on with
    | _ i ih =>
      intro hi
      have hi' : text[i]? = (entry ++ text)[i]? :=
        calc text[i]? = ((entry ++ text).take n)[i]? := by rw [h]
          _ = (entry ++ text)[i]? := List.getElem?_take_of_lt hi
      rw [hi']
      rcases Nat.lt_or_ge i entry.length with hlt | hge
      · rw [List.getElem?_append_left hlt, Nat.mod_eq_of_lt hlt]
      · rw [List.getElem?_append_right hge, ih (i - entry.length) (by omega) (by omega),
          Nat.mod_eq_sub_mod hge]
  · rintro ⟨hlength, hrepeat⟩
    refine List.ext_getElem? fun i => ?_
    rcases Nat.lt_or_ge i n with hi | hi
    · rw [List.getElem?_take_of_lt hi, hrepeat i hi]
      rcases Nat.lt_or_ge i entry.length with hlt | hge
      · rw [List.getElem?_append_left hlt, Nat.mod_eq_of_lt hlt]
      · rw [List.getElem?_append_right hge, hrepeat _ (by omega), Nat.mod_eq_sub_mod hge]
    · rw [List.getElem?_eq_none (by rw [List.length_take]; omega),
        List.getElem?_eq_none (by omega)]

/-! ## The specified effect -/

/-- What a customer's row becomes. -/
def specifiedCustomer (a : PaymentArgs) (c c' : Char) (r : Customer) : Customer :=
  { r with
    cBalance := r.cBalance + a.hAmount
    cData := if r.cCredit = "BC" then cNewData a r.cId c c' r.cData else r.cData }

/-- The tables after a payment, for the rows it is about. -/
def specified (a : PaymentArgs) (c c' : Char) (w : Warehouse) (d : District) (r : Customer)
    (t : Database) : Database :=
  { t with
    warehouse := t.warehouse.update (fun w' => w'.wId = a.wId)
      ⟨fun w' => { w' with wYtd := w'.wYtd + a.hAmount }, fun _ => rfl⟩
    district := t.district.update (fun d' => d'.dWId = a.wId ∧ d'.dId = a.dId)
      ⟨fun d' => { d' with dYtd := d'.dYtd + a.hAmount }, fun _ => rfl⟩
    customer := t.customer.update (fun r' => r'.key = r.key)
      ⟨specifiedCustomer a c c', fun _ => rfl⟩
    history := t.history ++
      [⟨r.cId, a.cDId, a.cWId, a.dId, a.wId, a.datetime, a.hAmount, hData w.wName d.dName⟩] }

/-- **A payment has its effect**: on its warehouse, its district and the customer that is chosen. -/
def HasEffect (a : PaymentArgs) (c c' : Char) (t t' : Database) : Prop :=
  ∃ w d r, t.warehouse.find? a.wId = some w ∧ t.district.find? (a.wId, a.dId) = some d ∧
    t.customer.find? (a.customerDistrict, chosenId a t) = some r ∧ t' = specified a c c' w d r t

section

variable {a : PaymentArgs} {strike : Option Site} {t t' : Database} {w : Warehouse} {d : District}
  {r : Customer}

/-- What a payment does, and what it should do, differ in the text of the customer only. -/
theorem paid_eq_specified_iff (hr : r ∈ t.customer) (c c' : Char) :
    paid a w d r t = specified a c c' w d r t ↔
      r.cData = (specifiedCustomer a c c' r).cData := by
  constructor
  · intro h
    have hrow := congrArg (fun t : Database => t.customer.find? r.key) h
    simp only [paid, specified, Rows.find?_update, Rows.find?_eq_some_iff.mpr ⟨hr, rfl⟩,
      Option.map_some, decide_true, if_true, Option.some.injEq] at hrow
    have hdata := congrArg Customer.cData hrow
    exact hdata
  · intro h
    unfold paid specified
    rw [Database.mk.injEq]
    refine ⟨rfl, rfl, Rows.update_congr fun r' hr' => ?_, rfl, rfl, rfl, rfl, rfl, rfl⟩
    by_cases hkey : r'.key = r.key
    · obtain rfl : r' = r := Rows.eq_of_key hr' hr hkey
      simp only [decide_true, if_true]
      exact congrArg (fun s => { r' with cBalance := r'.cBalance + a.hAmount, cData := s }) h
    · simp [hkey]

theorem cData_eq_iff (r : Customer) (c c' : Char) :
    r.cData = (specifiedCustomer a c c' r).cData ↔
      (r.cCredit = "BC" → Repeats (newEntry a r.cId c c') 500 r.cData.toList) := by
  rw [← take_append_eq_self_iff (newEntry_ne_nil a r.cId c c')]
  unfold specifiedCustomer
  dsimp only
  split
  · rename_i hbad
    rw [← String.toList_inj, toList_cNewData, eq_comm]
    exact ⟨fun h _ => h, fun h => h hbad⟩
  · rename_i hgood
    exact iff_of_true rfl fun hbad => absurd hbad hgood

/-- The text a payment with its effect leaves. -/
theorem HasEffect.cData {c c' : Char} (h : HasEffect a c c' t t')
    (hr : t.customer.find? (a.customerDistrict, chosenId a t) = some r) :
    (t'.customer.find? r.key).map Customer.cData = some (specifiedCustomer a c c' r).cData := by
  obtain ⟨w, d, r', -, -, hr', rfl⟩ := h
  cases hr.symm.trans hr'
  have hrow : t.customer.find? r.key = some r :=
    Rows.find?_eq_some_iff.mpr ⟨(Rows.find?_eq_some_iff.mp hr).1, rfl⟩
  rw [specified, Rows.find?_update, hrow]
  simp

end

/-- A district with one customer, who has no text yet. -/
def oneCustomer (cCredit : String) : Database :=
  { Database.empty with
    warehouse := Rows.empty.insertAll [⟨1, "W", "", "", "", "", "", 0, 0⟩]
    district := Rows.empty.insertAll [⟨1, 1, "D", "", "", "", "", "", 0, 0, 1⟩]
    customer := Rows.empty.insertAll
      [⟨1, 1, 1, "A", "OE", "BARBARBAR", "", "", "", "", "", "", "", cCredit, 0, 0, 0, 0, 0, 0,
        ""⟩] }

/-- A payment for that customer. -/
def payFive : PaymentArgs := ⟨1, 1, false, 1, 1, 1, "", 5, "2014-01-01 00:00:00"⟩

end TokuQa.Tpcc
