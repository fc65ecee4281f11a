import TokuQa.Tpcc.ByName

/-!
# `payment.c`

The amount is added to what the warehouse and the district have been paid, and to the balance of
the customer, which is looked for by last name or by its number; a row of `history` says so. No
row where one is needed, and an error of the server, roll all of it back.

`float` is exact. Of a customer with bad credit the text `c_data` is read, put behind a new one,
and written back as it was read: the new text is not what the statement is given.
-/

set_option autoImplicit false

namespace TokuQa.Tpcc

open TokuQa.Lib

/-- The arguments; `datetime` is what `gettimestamp` makes of the clock. -/
structure PaymentArgs where
  wId : Int
  dId : Int
  byname : Bool
  cWId : Int
  cDId : Int
  cId : Int
  cLast : String
  hAmount : ℚ
  datetime : String

namespace PaymentArgs

/-- The district of the customer. -/
def customerDistrict (a : PaymentArgs) : DistrictKey := (a.cWId, a.cDId)

end PaymentArgs

/-- `h_data`: at most ten bytes of each name, and four blanks if they are all there. -/
def hData (wName dName : String) : String :=
  let names := wName.toList.take 10 ++ dName.toList.take 10
  String.ofList (if names.length = 20 then names ++ [' ', ' ', ' ', ' '] else names)

def payWarehouse (wId : Int) (hAmount : ℚ) (t : Database) : Database :=
  { t with
    warehouse := t.warehouse.update (fun r => r.wId = wId)
      ⟨fun r => { r with wYtd := r.wYtd + hAmount }, fun _ => rfl⟩ }

def payDistrict (wId dId : Int) (hAmount : ℚ) (t : Database) : Database :=
  { t with
    district := t.district.update (fun r => r.dWId = wId ∧ r.dId = dId)
      ⟨fun r => { r with dYtd := r.dYtd + hAmount }, fun _ => rfl⟩ }

/-- Both statements that set `c_balance`; one of them sets `c_data` too. -/
def setBalance (k : DistrictKey × Int) (cBalance : ℚ) (cData : Option String) (t : Database) :
    Database :=
  { t with
    customer := t.customer.update (fun r => r.key = k)
      ⟨fun r => { r with cBalance := cBalance, cData := cData.getD r.cData }, fun _ => rfl⟩ }

/-- `SELECT c_id`, by last name. -/
def paymentCustomer (a : PaymentArgs) : Work Site Label Database Int := do
  if a.byname then
    let namecnt ← Work.fetch (.stmt 13 0) .sqlerr fun t =>
      some (byName t a.customerDistrict a.cLast).length
    let cIds ← Work.fetch (.stmt 14 0) .sqlerr fun t =>
      some ((byName t a.customerDistrict a.cLast).map Customer.cId)
    match fetchRows (fetches namecnt) cIds a.cId with
    | some cId => return cId
    | none => Work.fail .sqlerr
  else return a.cId

/-- `UPDATE customer`, for a customer with bad credit and for others. -/
def paymentBalance (k : DistrictKey × Int) (cBalance : ℚ) (cCredit : String) :
    Work Site Label Database Unit := do
  if cCredit = "BC" then
    let cData ← Work.fetch (.stmt 16 0) .sqlerr fun t =>
      (t.customer.find? k).map Customer.cData
    Work.write (.stmt 17 0) .sqlerr fun t => some (setBalance k cBalance (some cData) t)
  else
    Work.write (.stmt 18 0) .sqlerr fun t => some (setBalance k cBalance none t)

def paymentWork (a : PaymentArgs) : Work Site Label Database Unit := do
  Work.write (.stmt 9 0) .sqlerr fun t => some (payWarehouse a.wId a.hAmount t)
  let wName ← Work.fetch (.stmt 10 0) .sqlerr fun t => (t.warehouse.find? a.wId).map Warehouse.wName
  Work.write (.stmt 11 0) .sqlerr fun t => some (payDistrict a.wId a.dId a.hAmount t)
  let dName ← Work.fetch (.stmt 12 0) .sqlerr fun t =>
    (t.district.find? (a.wId, a.dId)).map District.dName
  let cId ← paymentCustomer a
  let customer ← Work.fetch (.stmt 15 0) .sqlerr fun t =>
    t.customer.find? (a.customerDistrict, cId)
  paymentBalance (a.customerDistrict, cId) (customer.cBalance + a.hAmount) customer.cCredit
  Work.write (.stmt 19 0) .sqlerr fun t =>
    some { t with history := t.history ++
      [⟨cId, a.cDId, a.cWId, a.dId, a.wId, a.datetime, a.hAmount, hData wName dName⟩] }
  Work.write (.commit 0) .sqlerr some

/-- The return value, and the committed tables. -/
def payment (a : PaymentArgs) (strike : Option Site) (t : Database) : Int × Database :=
  match paymentWork a strike t with
  | .ok (_, t') => (1, t')
  | .error _ => (0, t)

/-! ## What a payment does -/

/-- The tables after a payment of the customer. -/
def paid (a : PaymentArgs) (w : Warehouse) (d : District) (c : Customer) (t : Database) : Database :=
  { t with
    warehouse := (payWarehouse a.wId a.hAmount t).warehouse
    district := (payDistrict a.wId a.dId a.hAmount t).district
    customer := t.customer.update (fun r => r.key = c.key)
      ⟨fun r => { r with cBalance := r.cBalance + a.hAmount }, fun _ => rfl⟩
    history := t.history ++
      [⟨c.cId, a.cDId, a.cWId, a.dId, a.wId, a.datetime, a.hAmount, hData w.wName d.dName⟩] }

/-- The customer a payment is for, if it finds one. -/
structure PaysFor (a : PaymentArgs) (t : Database) (w : Warehouse) (d : District) (c : Customer) :
    Prop where
  warehouse : t.warehouse.find? a.wId = some w
  district : t.district.find? (a.wId, a.dId) = some d
  customer : c ∈ t.customer
  ofDistrict : (c.cWId, c.cDId) = a.customerDistrict

/-- The name that is read behind the `UPDATE` is the one before it. -/
theorem name_payWarehouse (wId k : Int) (x : ℚ) (t : Database) :
    ((payWarehouse wId x t).warehouse.find? k).map Warehouse.wName =
      (t.warehouse.find? k).map Warehouse.wName := by
  rw [payWarehouse, Rows.find?_update, Option.map_map]
  refine congrArg (Option.map · _) (funext fun r => ?_)
  simp only [Function.comp_apply]
  split <;> rfl

theorem name_payDistrict (wId dId : Int) (k : DistrictKey) (x : ℚ) (t : Database) :
    ((payDistrict wId dId x t).district.find? k).map District.dName =
      (t.district.find? k).map District.dName := by
  rw [payDistrict, Rows.find?_update, Option.map_map]
  refine congrArg (Option.map · _) (funext fun r => ?_)
  simp only [Function.comp_apply]
  split <;> rfl

/-- Setting the balance that has been read is adding to it. -/
theorem setBalance_customer {t : Database} {c : Customer} (h : c ∈ t.customer) (x : ℚ)
    {cData : Option String} (hset : cData = none ∨ cData = some c.cData) :
    (setBalance c.key (c.cBalance + x) cData t).customer =
      t.customer.update (fun r => r.key = c.key)
        ⟨fun r => { r with cBalance := r.cBalance + x }, fun _ => rfl⟩ := by
  refine Rows.update_congr fun r hr => ?_
  by_cases hk : r.key = c.key
  · obtain rfl : r = c := Rows.eq_of_key hr h hk
    rcases hset with rfl | rfl <;> simp
  · simp [hk]

/-- The number of the customer a payment is for: the one at the middle of those with the last name,
or the number that is given, also where nobody has the name. -/
def chosenId (a : PaymentArgs) (t : Database) : Int :=
  if a.byname then (middle t a.customerDistrict a.cLast).elim a.cId Customer.cId else a.cId

section

variable {a : PaymentArgs} {strike : Option Site} {t t' : Database} {w : Warehouse} {d : District}
  {c : Customer}

/-- The tables the last statements leave, once the customer is known. -/
theorem paid_eq (hc : c ∈ t.customer) {cData : Option String}
    (hset : cData = none ∨ cData = some c.cData) (hk : (c.cWId, c.cDId) = a.customerDistrict) :
    { setBalance (a.customerDistrict, c.cId) (c.cBalance + a.hAmount) cData
        (payDistrict a.wId a.dId a.hAmount (payWarehouse a.wId a.hAmount t)) with
      history := t.history ++
        [⟨c.cId, a.cDId, a.cWId, a.dId, a.wId, a.datetime, a.hAmount, hData w.wName d.dName⟩] } =
      paid a w d c t := by
  have hkey : (a.customerDistrict, c.cId) = c.key := by rw [← hk]; rfl
  have hcustomer := setBalance_customer (t := payDistrict a.wId a.dId a.hAmount
    (payWarehouse a.wId a.hAmount t)) hc a.hAmount hset
  unfold setBalance at hcustomer ⊢
  rw [hkey]
  unfold paid
  rw [Database.mk.injEq]
  exact ⟨rfl, rfl, hcustomer, rfl, rfl, rfl, rfl, rfl, rfl⟩

theorem paymentCustomer_eq_ok {cId : Int} (h : paymentCustomer a strike t = .ok (cId, t')) :
    t' = t ∧ cId = chosenId a t := by
  unfold paymentCustomer at h
  split at h
  · rename_i hby
    simp only [Work.bind_eq_ok, Work.fetch_eq_ok] at h
    obtain ⟨namecnt, t₁, ⟨-, hcount, rfl⟩, cIds, t₂, ⟨-, hids, rfl⟩, h⟩ := h
    cases hrows : fetchRows (fetches namecnt) cIds a.cId with
    | none => rw [hrows] at h; cases h
    | some c =>
      rw [hrows] at h
      obtain ⟨rfl, rfl⟩ := Work.pure_eq_ok.mp h
      refine ⟨rfl, ?_⟩
      rw [← Option.some.inj hcount, ← Option.some.inj hids] at hrows
      rw [chosenId, if_pos hby]
      exact Option.some.inj (hrows.symm.trans (fetchRows_chosen _ a.customerDistrict a.cLast a.cId))
  · rename_i hby
    obtain ⟨rfl, rfl⟩ := Work.pure_eq_ok.mp h
    exact ⟨rfl, (if_neg hby).symm⟩

theorem paymentBalance_eq_ok {x : ℚ} (hc : c ∈ t.customer)
    (h : paymentBalance c.key x c.cCredit strike t = .ok ((), t')) :
    ∃ cData, (cData = none ∨ cData = some c.cData) ∧ t' = setBalance c.key x cData t := by
  unfold paymentBalance at h
  split at h
  · simp only [Work.bind_eq_ok, Work.fetch_eq_ok, Work.write_eq_ok] at h
    obtain ⟨cData, t₁, ⟨-, hdata, rfl⟩, -, h⟩ := h
    rw [Rows.find?_eq_some_iff.mpr ⟨hc, rfl⟩] at hdata
    exact ⟨some cData, .inr hdata.symm, (Option.some.inj h).symm⟩
  · exact ⟨none, .inl rfl, (Option.some.inj (Work.write_eq_ok.mp h).2).symm⟩

/-- **Every payment that commits** has paid for the customer it chose, one of the district. -/
theorem paymentWork_chosen (h : paymentWork a strike t = .ok ((), t')) :
    ∃ w d c, PaysFor a t w d c ∧ t.customer.find? (a.customerDistrict, chosenId a t) = some c ∧
      t' = paid a w d c t := by
  simp only [paymentWork, Work.bind_eq_ok, Work.write_eq_ok, Work.fetch_eq_ok] at h
  obtain ⟨_, t₁, ⟨-, ht₁⟩, wName, _, ⟨-, hwName, rfl⟩, _, t₂, ⟨-, ht₂⟩, dName, _,
    ⟨-, hdName, rfl⟩, cId, t₃, hcId, c, _, ⟨-, hc, rfl⟩, _, t₄, hbal, _, t₅, ⟨-, ht₅⟩, -, ht'⟩ := h
  obtain rfl := Option.some.inj ht₁
  obtain rfl := Option.some.inj ht₂
  obtain ⟨rfl, hchosen⟩ := paymentCustomer_eq_ok hcId
  obtain ⟨hmem, hkey⟩ := Rows.find?_eq_some_iff.mp hc
  have hk : (c.cWId, c.cDId) = a.customerDistrict := congrArg Prod.fst hkey
  obtain rfl : c.cId = cId := congrArg Prod.snd hkey
  rw [← hkey] at hbal
  obtain ⟨cData, hset, rfl⟩ := paymentBalance_eq_ok hmem hbal
  rw [name_payWarehouse] at hwName
  rw [name_payDistrict] at hdName
  obtain ⟨w, hw, rfl⟩ := Option.map_eq_some_iff.mp hwName
  obtain ⟨d, hd, rfl⟩ := Option.map_eq_some_iff.mp hdName
  have hmem' : c ∈ t.customer := hmem
  have hfound : t.customer.find? (a.customerDistrict, chosenId a t) = some c := by
    have hsame : chosenId a t = c.cId := hchosen.symm
    rw [hsame]
    exact hc
  refine ⟨w, d, c, ⟨hw, hd, hmem', hk⟩, hfound, ?_⟩
  rw [← paid_eq hmem' hset hk, ← Option.some.inj ht', ← Option.some.inj ht₅, hkey]
  rfl

theorem paymentWork_eq_ok (h : paymentWork a strike t = .ok ((), t')) :
    ∃ w d c, PaysFor a t w d c ∧ t' = paid a w d c t := by
  obtain ⟨w, d, c, hpays, -, ht'⟩ := paymentWork_chosen h
  exact ⟨w, d, c, hpays, ht'⟩

theorem paymentCustomer_byName (hby : a.byname = true)
    (hc : middle t a.customerDistrict a.cLast = some c) :
    paymentCustomer a none t = .ok (c.cId, t) := by
  unfold paymentCustomer
  rw [if_pos hby]
  refine Work.bind_eq_ok.mpr ⟨_, _, Work.fetch_eq_ok.mpr ⟨nofun, rfl, rfl⟩,
    Work.bind_eq_ok.mpr ⟨_, _, Work.fetch_eq_ok.mpr ⟨nofun, rfl, rfl⟩, ?_⟩⟩
  rw [fetchRows_middle Customer.cId hc]
  rfl

theorem paymentBalance_ok (hc : c ∈ t.customer) (x : ℚ) :
    ∃ cData, (cData = none ∨ cData = some c.cData) ∧
      paymentBalance c.key x c.cCredit none t = .ok ((), setBalance c.key x cData t) := by
  have hspared : ∀ s : Site, (none : Option Site) ≠ some s := fun _ => nofun
  unfold paymentBalance
  split
  · refine ⟨some c.cData, .inr rfl, Work.bind_eq_ok.mpr ⟨c.cData, t,
      Work.fetch_eq_ok.mpr ⟨hspared _, ?_, rfl⟩, Work.write_eq_ok.mpr ⟨hspared _, rfl⟩⟩⟩
    rw [Rows.find?_eq_some_iff.mpr ⟨hc, rfl⟩]
    rfl
  · exact ⟨none, .inl rfl, Work.write_eq_ok.mpr ⟨hspared _, rfl⟩⟩

/-- The payment for the customer at the middle of those with the last name. -/
theorem payment_byName (hby : a.byname = true) (hw : t.warehouse.find? a.wId = some w)
    (hd : t.district.find? (a.wId, a.dId) = some d)
    (hc : middle t a.customerDistrict a.cLast = some c) :
    payment a none t = (1, paid a w d c t) := by
  obtain ⟨hmem, hk, -⟩ := middle_mem hc
  have hkey : c.key = (a.customerDistrict, c.cId) := by rw [← hk]; rfl
  obtain ⟨cData, hset, hbal⟩ := paymentBalance_ok (t := payDistrict a.wId a.dId a.hAmount
    (payWarehouse a.wId a.hAmount t)) hmem (c.cBalance + a.hAmount)
  have hwork : paymentWork a none t = .ok ((), paid a w d c t) := by
    refine Work.bind_eq_ok.mpr ⟨(), payWarehouse a.wId a.hAmount t,
      Work.write_eq_ok.mpr ⟨nofun, rfl⟩, ?_⟩
    refine Work.bind_eq_ok.mpr ⟨w.wName, _, Work.fetch_eq_ok.mpr ⟨nofun, ?_, rfl⟩, ?_⟩
    · rw [name_payWarehouse, hw]
      rfl
    refine Work.bind_eq_ok.mpr ⟨(), payDistrict a.wId a.dId a.hAmount _,
      Work.write_eq_ok.mpr ⟨nofun, rfl⟩, ?_⟩
    refine Work.bind_eq_ok.mpr ⟨d.dName, _, Work.fetch_eq_ok.mpr ⟨nofun, ?_, rfl⟩, ?_⟩
    · rw [name_payDistrict]
      exact congrArg (Option.map District.dName) hd
    refine Work.bind_eq_ok.mpr ⟨c.cId, _, paymentCustomer_byName hby hc, ?_⟩
    refine Work.bind_eq_ok.mpr ⟨c, _, Work.fetch_eq_ok.mpr
      ⟨nofun, Rows.find?_eq_some_iff.mpr ⟨hmem, hkey⟩, rfl⟩, ?_⟩
    rw [← hkey]
    refine Work.bind_eq_ok.mpr ⟨(), _, hbal, ?_⟩
    refine Work.bind_eq_ok.mpr ⟨(), _, Work.write_eq_ok.mpr ⟨nofun, rfl⟩,
      Work.write_eq_ok.mpr ⟨nofun, ?_⟩⟩
    rw [← paid_eq hmem hset hk, hkey]
    rfl
  unfold payment
  rw [hwork]

end

end TokuQa.Tpcc
