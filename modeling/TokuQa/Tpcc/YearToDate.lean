import TokuQa.Lib.Phases
import TokuQa.Tpcc.Consistency
import TokuQa.Tpcc.Transactions

/-!
# What is paid in a year

A payment adds its amount to `w_ytd`, then to `d_ytd`, and puts it into `history`. A transaction
that is rolled back in between leaves nothing, and the others do not see what has not been
committed, so that whatever the threads do beside each other the three of them grow by the same
payments, each of them counted once (`payments_counted`).

The payment does not lock what it adds to before it adds. That does not matter: it never reads it.
-/

set_option autoImplicit false

namespace TokuQa.Tpcc

open TokuQa.Lib

/-! ## The sheet -/

/-- What the tables say of payments. -/
structure Sheet where
  history : List History
  wYtd : Int → Option ℚ
  dYtd : DistrictKey → Option ℚ
  districtsYtd : Int → ℚ

def Database.sheet (t : Database) : Sheet where
  history := t.history
  wYtd wId := (t.warehouse.find? wId).map Warehouse.wYtd
  dYtd k := (t.district.find? k).map District.dYtd
  districtsYtd wId := Tpcc.districtsYtd wId t

def History.district (h : History) : DistrictKey := (h.hWId, h.hDId)

/-- The sum of the amounts paid to the district. -/
def paidAt (k : DistrictKey) (history : List History) : ℚ :=
  (history.map fun h => if h.district = k then h.hAmount else 0).sum

/-- What the commit of a payment has said, for its row in `history`. -/
def History.done (h : History) : Done := .paid ((h.hCWId, h.hCDId), h.hCId) h.hAmount

def paymentsOf (log : List Done) : List Done :=
  log.filter fun
    | .paid _ _ => true
    | _ => false

/-- The payments of the log have a row each, and both totals have grown by their amounts. -/
structure PaymentsCounted (t t' : Database) (log : List Done) (new : List History) : Prop where
  grows : GrowsBy new t t'
  district : ∀ k, (t'.district.find? k).map District.dYtd =
    (t.district.find? k).map fun d => d.dYtd + paidAt k new
  paid : paymentsOf log = new.map History.done

section

variable {t : Database}

theorem sheet_setNextOId (k : DistrictKey) (dNextOId : Int) :
    (setNextOId k dNextOId t).sheet = t.sheet := by
  have hdistrict : (setNextOId k dNextOId t).sheet.dYtd = t.sheet.dYtd := by
    funext j
    simp only [Database.sheet, setNextOId, Rows.find?_update, Option.map_map]
    refine congrArg (Option.map · _) (funext fun r => ?_)
    simp only [Function.comp_apply]
    split <;> rfl
  have hsum : (setNextOId k dNextOId t).sheet.districtsYtd = t.sheet.districtsYtd := by
    funext wId
    simp only [Database.sheet, districtsYtd, setNextOId, Rows.rows_update, List.map_map]
    refine congrArg List.sum (List.map_congr_left fun r _ => ?_)
    simp only [Function.comp_apply]
    split <;> rfl
  show Sheet.mk _ _ (setNextOId k dNextOId t).sheet.dYtd
    (setNextOId k dNextOId t).sheet.districtsYtd = _
  rw [hdistrict, hsum]
  rfl

/-- Nothing is paid by a statement that is about none of the four tables. -/
theorem sheet_insert {α : Type} (rows : Option α) (f : α → Database)
    (hf : ∀ a, (f a).sheet = t.sheet) : ((rows.map f).getD t).sheet = t.sheet := by
  cases rows with
  | none => rfl
  | some a => exact hf a

theorem wYtd_payWarehouse (wId : Int) (hAmount : ℚ) (j : Int) :
    (payWarehouse wId hAmount t).sheet.wYtd j =
      (t.sheet.wYtd j).map (· + if wId = j then hAmount else 0) := by
  simp only [Database.sheet, payWarehouse, Rows.find?_update, Option.map_map]
  cases hr : t.warehouse.find? j with
  | none => rfl
  | some r =>
    obtain rfl : r.wId = j := (Rows.find?_eq_some_iff.mp hr).2
    by_cases hw : r.wId = wId
    · simp [hw]
    · simp [hw, Ne.symm hw]

theorem dYtd_payDistrict (wId dId : Int) (hAmount : ℚ) (k : DistrictKey) :
    (payDistrict wId dId hAmount t).sheet.dYtd k =
      (t.sheet.dYtd k).map (· + if (wId, dId) = k then hAmount else 0) := by
  simp only [Database.sheet, payDistrict, Rows.find?_update, Option.map_map]
  cases hr : t.district.find? k with
  | none => rfl
  | some r =>
    obtain rfl : r.key = k := (Rows.find?_eq_some_iff.mp hr).2
    by_cases hk : r.dWId = wId ∧ r.dId = dId
    · simp [hk, District.key]
    · have hne : (wId, dId) ≠ r.key := fun h => hk ⟨(congrArg Prod.fst h).symm,
        (congrArg Prod.snd h).symm⟩
      simp [hk, hne]

/-- The sum of the districts grows if there is such a district. -/
theorem districtsYtd_pay (a : PaymentArgs) (wId : Int) :
    (payDistrict a.wId a.dId a.hAmount t).sheet.districtsYtd wId = t.sheet.districtsYtd wId +
      if (t.sheet.dYtd (a.wId, a.dId)).isSome ∧ a.wId = wId then a.hAmount else 0 := by
  cases hd : t.district.find? (a.wId, a.dId) with
  | some d =>
    refine (districtsYtd_payDistrict hd wId).trans ?_
    simp [Database.sheet, hd]
  | none =>
    have hsame : payDistrict a.wId a.dId a.hAmount t = t := by
      have hrows : (payDistrict a.wId a.dId a.hAmount t).district = t.district := by
        refine Rows.ext_rows ?_
        refine (List.map_congr_left fun r hr => ?_).trans (List.map_id _)
        have hne := Rows.find?_eq_none_iff.mp hd r hr
        have hnot : ¬ (r.dWId = a.wId ∧ r.dId = a.dId) := fun h => hne (Prod.ext h.1 h.2)
        rw [if_neg (decide_eq_true_iff.not.mpr hnot)]
        rfl
      show { t with district := (payDistrict a.wId a.dId a.hAmount t).district } = t
      rw [hrows]
    rw [hsame]
    simp [Database.sheet, hd]

end

/-! ## Phases -/

/-- How far a payment has come; everything else is `idle`. -/
inductive Paying where
  | idle
  | warehouse (a : PaymentArgs)
  | district (a : PaymentArgs)
  | recorded (a : PaymentArgs) (h : History)

namespace Paying

def toWarehouse : Paying → Int → ℚ
  | idle, _ => 0
  | warehouse a, wId | district a, wId | recorded a _, wId => if a.wId = wId then a.hAmount else 0

def toDistrict : Paying → DistrictKey → ℚ
  | idle, _ | warehouse _, _ => 0
  | district a, k | recorded a _, k => if (a.wId, a.dId) = k then a.hAmount else 0

def toDistricts (b : Sheet) : Paying → Int → ℚ
  | idle, _ | warehouse _, _ => 0
  | district a, wId | recorded a _, wId =>
    if (b.dYtd (a.wId, a.dId)).isSome ∧ a.wId = wId then a.hAmount else 0

def rows : Paying → List History
  | recorded _ h => [h]
  | _ => []

/-- The row is the payment's, and there is such a district. -/
def Known (b : Sheet) : Paying → Prop
  | recorded a h => h.district = (a.wId, a.dId) ∧ h.hAmount = a.hAmount ∧
      (b.dYtd (a.wId, a.dId)).isSome = true
  | _ => True

end Paying

/-- A sheet in a phase, which was `b₀` at the start, with the rows of the payments committed
since. -/
structure Booked (b₀ : Sheet) (φ : Paying) (new : List History) (b : Sheet) : Prop where
  history : b.history = b₀.history ++ (new ++ φ.rows)
  wYtd : ∀ wId, b.wYtd wId = (b₀.wYtd wId).map (· + (paidTo wId new + φ.toWarehouse wId))
  dYtd : ∀ k, b.dYtd k = (b₀.dYtd k).map (· + (paidAt k new + φ.toDistrict k))
  districts : ∀ wId, b.districtsYtd wId =
    b₀.districtsYtd wId + (paidTo wId new + φ.toDistricts b₀ wId)
  known : φ.Known b₀

/-- The phase behind a statement that writes. -/
inductive Books (b₀ : Sheet) : Paying → WriteStmt → Paying → Prop
  | quiet {φ : Paying} {w : WriteStmt} (h : ∀ t : Database, (server.apply t w).sheet = t.sheet) :
      Books b₀ φ w φ
  | warehouse (a : PaymentArgs) : Books b₀ .idle (.payWarehouse a.wId a.hAmount) (.warehouse a)
  | district (a : PaymentArgs) :
      Books b₀ (.warehouse a) (.payDistrict a.wId a.dId a.hAmount) (.district a)
  | history {a : PaymentArgs} {h : History} (hknown : (Paying.recorded a h).Known b₀) :
      Books b₀ (.district a) (.insertHistory h) (.recorded a h)

/-- What a commit says. -/
inductive BooksEnd : Paying → Done → Prop
  | delivered (k : DistrictKey × Int) : BooksEnd .idle (.delivered k)
  | ordered (k : DistrictKey × Int) : BooksEnd .idle (.ordered k)
  | paid (a : PaymentArgs) (h : History) : BooksEnd (.recorded a h) h.done

section

variable {b₀ b : Sheet} {φ φ' : Paying} {new : List History} {t : Database} {w : WriteStmt}

theorem map_add_map_add (o : Option ℚ) (x y : ℚ) :
    (o.map (· + x)).map (· + y) = o.map (· + (x + y)) := by
  rw [Option.map_map]
  refine congrArg (Option.map · o) (funext fun z => ?_)
  exact add_assoc z x y

theorem Booked.apply (h : Booked b₀ φ new t.sheet) (hbooks : Books b₀ φ w φ') :
    Booked b₀ φ' new (server.apply t w).sheet := by
  cases hbooks with
  | quiet hquiet =>
    rw [hquiet t]
    exact h
  | warehouse a =>
    refine ⟨h.history, fun wId => ?_, h.dYtd, h.districts, trivial⟩
    refine (wYtd_payWarehouse a.wId a.hAmount wId).trans ?_
    rw [h.wYtd, map_add_map_add, add_assoc]
    simp [Paying.toWarehouse]
  | district a =>
    refine ⟨h.history, h.wYtd, fun k => ?_, fun wId => ?_, trivial⟩
    · refine (dYtd_payDistrict a.wId a.dId a.hAmount k).trans ?_
      rw [h.dYtd, map_add_map_add, add_assoc]
      simp [Paying.toDistrict]
    · refine (districtsYtd_pay a wId).trans ?_
      rw [h.districts, h.dYtd, Option.isSome_map, add_assoc, add_assoc]
      simp [Paying.toDistricts]
  | history hknown =>
    refine ⟨?_, h.wYtd, h.dYtd, h.districts, hknown⟩
    show t.sheet.history ++ [_] = _
    rw [h.history]
    simp [Paying.rows]

theorem Booked.commit (h : Booked b₀ φ new b) {entry : Done} {log : List Done}
    (hpaid : paymentsOf log = new.map History.done) (hend : BooksEnd φ entry) :
    ∃ new, Booked b₀ .idle new b ∧ paymentsOf (log ++ [entry]) = new.map History.done := by
  cases hend with
  | delivered k =>
    refine ⟨new, h, ?_⟩
    rw [paymentsOf, List.filter_append]
    exact (List.append_nil _).trans hpaid
  | ordered k =>
    refine ⟨new, h, ?_⟩
    rw [paymentsOf, List.filter_append]
    exact (List.append_nil _).trans hpaid
  | paid a r =>
    obtain ⟨hdistrict, hamount, hsome⟩ := h.known
    have hwId : r.hWId = a.wId := congrArg Prod.fst hdistrict
    refine ⟨new ++ [r], ⟨?_, fun wId => ?_, fun k => ?_, fun wId => ?_, trivial⟩, ?_⟩
    · rw [h.history]
      simp [Paying.rows]
    · rw [h.wYtd, paidTo_append]
      simp [Paying.toWarehouse, paidTo, hwId, hamount]
    · rw [h.dYtd, paidAt, paidAt, List.map_append, List.sum_append]
      simp [Paying.toDistrict, hdistrict, hamount]
    · rw [h.districts, paidTo_append]
      simp [Paying.toDistricts, paidTo, hwId, hamount, hsome]
    · rw [paymentsOf, List.filter_append, List.map_append, ← hpaid]
      rfl

theorem booked_start (b : Sheet) : Booked b .idle [] b := by
  refine ⟨by simp [Paying.rows], fun wId => ?_, fun k => ?_, fun wId => ?_, trivial⟩
  · simp [paidTo, Paying.toWarehouse]
  · simp [paidAt, Paying.toDistrict]
  · simp [paidTo, Paying.toDistricts]

end

/-- The phases of payments. -/
def payingPhases (b₀ : Sheet) : Phases server Done Paying where
  idle := .idle
  holds φ log t := ∃ new, Booked b₀ φ new t.sheet ∧ paymentsOf log = new.map History.done
  goes := Books b₀
  ends := BooksEnd
  apply := by
    rintro φ w φ' log t hgoes ⟨new, h, hpaid⟩
    exact ⟨new, h.apply hgoes, hpaid⟩
  commit := by
    rintro φ entry log t hends ⟨new, h, hpaid⟩
    exact h.commit hpaid hends

/-! ## The three programs -/

section

variable {b₀ : Sheet} {φ : Paying} {t : Database}

theorem keeps_fetched {α : Type} {row : Option α} {next : α → Statements}
    (h : ∀ r, row = some r → (payingPhases b₀).Tracks φ (next r)) :
    (payingPhases b₀).Tracks φ (fetched row next) := by
  cases row with
  | none => trivial
  | some r => exact h r rfl

theorem keeps_quiet {w : WriteStmt} {next : Statements}
    (hw : ∀ t : Database, (server.apply t w).sheet = t.sheet)
    (h : (payingPhases b₀).Tracks φ next) : (payingPhases b₀).Tracks φ (.write w next) :=
  ⟨φ, .quiet hw, h⟩

theorem keeps_delivery (a : DeliveryArgs) (ds : List Int) (olTotal : ℚ) :
    (payingPhases b₀).Tracks .idle (deliveryStatements a ds olTotal) := by
  induction ds generalizing olTotal with
  | nil => rfl
  | cons dId ds ih =>
    intro log t _
    dsimp only
    split
    · exact ih olTotal
    · refine keeps_quiet (fun _ => rfl) fun _ t' _ => keeps_fetched fun cId _ => ?_
      refine keeps_quiet (fun _ => rfl) (keeps_quiet (fun _ => rfl) fun _ t'' _ => ?_)
      exact keeps_quiet (fun _ => rfl) ⟨.delivered _, ih _⟩

/-- From the lock on the customer on: the amount is in both totals, and `history` is to come. -/
theorem keeps_recording (a : PaymentArgs) (cId : Int) (wName dName : String)
    (hsome : (b₀.dYtd (a.wId, a.dId)).isSome = true) :
    (payingPhases b₀).Tracks (.district a) (
      let k := (a.customerDistrict, cId)
      .forUpdate (fun t => WriteStmt.found t.customer k (.customer k)) fun t =>
      fetched (t.customer.find? k) fun customer =>
      paymentBalanceStatements k (customer.cBalance + a.hAmount) customer.cCredit <|
      .write (.insertHistory ⟨cId, a.cDId, a.cWId, a.dId, a.wId, a.datetime, a.hAmount,
        hData wName dName⟩) <|
      .commit (.paid k a.hAmount) .ret) := by
  refine fun log t _ => keeps_fetched fun customer _ => ?_
  have hrest : (payingPhases b₀).Tracks (.district a)
      (.write (.insertHistory ⟨cId, a.cDId, a.cWId, a.dId, a.wId, a.datetime, a.hAmount,
        hData wName dName⟩) <| .commit (.paid (a.customerDistrict, cId) a.hAmount) .ret) :=
    ⟨.recorded a _, .history ⟨rfl, rfl, hsome⟩, .paid a _, rfl⟩
  unfold paymentBalanceStatements
  split
  · exact fun _ t _ => keeps_fetched fun cData _ => keeps_quiet (fun _ => rfl) hrest
  · exact keeps_quiet (fun _ => rfl) hrest

theorem keeps_payment (a : PaymentArgs) :
    (payingPhases b₀).Tracks .idle (paymentStatements a) := by
  refine ⟨_, .warehouse a, fun _ t _ => keeps_fetched fun wName _ => ?_⟩
  refine ⟨_, .district a, fun log t' ht' => keeps_fetched fun dName hdName => ?_⟩
  -- The district is in the snapshot, so that it was there at the start.
  have hsome : (b₀.dYtd (a.wId, a.dId)).isSome = true := by
    obtain ⟨new, hbooked, -⟩ := ht'
    obtain ⟨r, hr, -⟩ := Option.map_eq_some_iff.mp hdName
    have hfound : t'.sheet.dYtd (a.wId, a.dId) = some r.dYtd := by
      simp [Database.sheet, hr]
    rw [hbooked.dYtd] at hfound
    obtain ⟨x, hx, -⟩ := Option.map_eq_some_iff.mp hfound
    rw [hx]
    rfl
  unfold paymentCustomerStatements
  split
  · exact fun _ t _ _ t' _ => keeps_fetched fun cId _ => keeps_recording a cId wName dName hsome
  · exact keeps_recording a a.cId wName dName hsome

theorem keeps_newordLines (a : NewordArgs) (x : OrderContext) {next : Statements}
    (hnext : (payingPhases b₀).Tracks .idle next) (olNumber : Int) (seq : List Nat) :
    (payingPhases b₀).Tracks .idle (newordLinesStatements a x next olNumber seq) := by
  induction seq generalizing olNumber with
  | nil => exact hnext
  | cons i seq ih =>
    refine fun _ t _ => keeps_fetched fun item _ _ t' _ => keeps_fetched fun stock _ => ?_
    refine keeps_quiet (fun _ => rfl) (keeps_quiet (fun t => ?_) (ih (olNumber + 1)))
    exact sheet_insert _ _ fun _ => rfl

theorem keeps_neword (a : NewordArgs) :
    (payingPhases b₀).Tracks .idle (newordStatements a) := by
  refine fun _ t _ => keeps_fetched fun warehouse _ => keeps_fetched fun customer _ _ t' _ => ?_
  refine keeps_fetched fun district _ => keeps_quiet (fun t => sheet_setNextOId _ _) ?_
  refine keeps_quiet (fun t => sheet_insert _ _ fun _ => rfl) ?_
  refine keeps_quiet (fun t => sheet_insert _ _ fun _ => rfl) ?_
  refine keeps_fetched fun seq _ => keeps_newordLines a ⟨district.dNextOId, _, _, _⟩ ?_ 1 seq
  exact ⟨.ordered _, rfl⟩

theorem keeps_statements (p : Transaction) : (payingPhases b₀).Tracks .idle p.statements := by
  cases p with
  | delivery a stale => exact keeps_delivery a districts stale
  | payment a => exact keeps_payment a
  | neword a => exact keeps_neword a

end

/-! ## Runs -/

/-- What is booked when nobody is in the middle of a payment. -/
theorem Booked.counted {t t' : Database} {new : List History} {log : List Done}
    (h : Booked t.sheet .idle new t'.sheet) (hpaid : paymentsOf log = new.map History.done) :
    PaymentsCounted t t' log new := by
  refine ⟨⟨?_, fun wId => ?_, fun wId => ?_⟩, fun k => ?_, hpaid⟩
  · refine h.history.trans ?_
    simp [Database.sheet, Paying.rows]
  · refine (h.wYtd wId).trans ?_
    simp [Database.sheet, Paying.toWarehouse, Option.map_map, Function.comp_def]
  · refine (h.districts wId).trans ?_
    simp [Database.sheet, Paying.toDistricts]
  · refine (h.dYtd k).trans ?_
    simp [Database.sheet, Paying.toDistrict, Option.map_map, Function.comp_def]

theorem paying_inv {n : Nat} {t : Database} {es : List (ConnectionEvent Transaction n)}
    {s : Clients n} (hrun : run threadStep es (System.start t) = some s) :
    (payingPhases t.sheet).Inv s := by
  have hstart : (payingPhases t.sheet).holds .idle [] t := ⟨[], booked_start _, rfl⟩
  exact Phases.run (K := payingPhases t.sheet) keeps_statements hstart hrun

/-- **Every payment is counted once**, in `w_ytd`, in `d_ytd` and in `history`, in every run of
deliveries, payments and new orders of any number of threads, wherever they wait, fail and are
rolled back. -/
theorem payments_counted {n : Nat} {t : Database} {es : List (ConnectionEvent Transaction n)}
    {s : Clients n} (hrun : run threadStep es (System.start t) = some s) :
    ∃ new, PaymentsCounted t s.committed s.log new := by
  obtain ⟨new, hbooked, hpaid⟩ := (paying_inv hrun).committed
  exact ⟨new, hbooked.counted hpaid⟩

def payOf (hAmount : ℚ) : Transaction :=
  .payment ⟨1, 1, false, 1, 1, 1, "l", hAmount, "2014-01-02"⟩

/-- A payment of thread `i` is rolled back with its amount in both totals. The next one waits for
that of `j`. -/
def paidTwice {n : Nat} (i j : Fin n) : List (ConnectionEvent Transaction n) :=
  [.begin i (payOf 7)] ++ List.replicate 4 (.go i) ++ [.fail i, .begin i (payOf 5),
    .begin j (payOf 10)] ++ List.replicate 8 (.go j) ++ List.replicate 8 (.go i)

theorem payments_counted_two : ∃ s new,
    run threadStep (paidTwice 0 1) (System.start (n := 2) (oneOrder [])) = some s ∧
      s.log = [.paid ((1, 1), 1) 10, .paid ((1, 1), 1) 5] ∧
      PaymentsCounted (oneOrder []) s.committed s.log new := by
  have hlog : (run threadStep (paidTwice 0 1) (System.start (n := 2) (oneOrder []))).map
      System.log = some [.paid ((1, 1), 1) 10, .paid ((1, 1), 1) 5] := by decide +kernel
  obtain ⟨s, hs, hdone⟩ := Option.map_eq_some_iff.mp hlog
  obtain ⟨new, hnew⟩ := payments_counted hs
  exact ⟨s, new, hs, hdone, hnew⟩

end TokuQa.Tpcc
