import Mathlib.Data.Set.Insert
import TokuQa.Tpcc.Transactions

/-!
# The ledger: balances, orders and what is undelivered

A `Ledger` is what deliveries and payments are about. A statement has an `Effect` on it, which is
the same whatever the tables hold (`WriteStmt.acts`): it changes balances, takes orders out of
`new_orders`, or makes a part of an order. Effects of one statement after another compose
(`applyAll_acts`). What is made says only which order it is for, as an `INSERT` can be refused.
-/

set_option autoImplicit false

namespace TokuQa.Tpcc

open TokuQa.Lib

/-- Customers and orders by their keys; `orderedBy` is the customer of an order that has its row, and
`amounts` are those of an order's lines. -/
structure Ledger where
  balance : DistrictKey × Int → Option ℚ
  orderedBy : DistrictKey × Int → Option (DistrictKey × Int)
  amounts : DistrictKey × Int → List ℚ
  isNew : DistrictKey × Int → Prop

def Database.ledger (t : Database) : Ledger where
  balance k := (t.customer.find? k).map Customer.cBalance
  orderedBy k := (t.orders.find? k).map fun r => (k.1, r.oCId)
  amounts k := (t.orderLine.select fun r => r.order = k).map OrderLine.olAmount
  isNew k := (t.newOrders.find? k).isSome = true

/-! ## Effects -/

/-- The orders of `creates` may get their row, a line or a place in `new_orders`. -/
@[ext]
structure Effect where
  balance : DistrictKey × Int → ℚ → ℚ
  removes : Set (DistrictKey × Int)
  creates : Set (DistrictKey × Int)

namespace Effect

def none : Effect := ⟨fun _ x => x, ∅, ∅⟩

def remove (k : DistrictKey × Int) : Effect := ⟨fun _ x => x, {k}, ∅⟩

def create (k : DistrictKey × Int) : Effect := ⟨fun _ x => x, ∅, {k}⟩

def rebalance (k : DistrictKey × Int) (f : ℚ → ℚ) : Effect :=
  ⟨fun c x => if c = k then f x else x, ∅, ∅⟩

/-- One effect and then another. -/
def comp (e e' : Effect) : Effect :=
  ⟨fun k x => e'.balance k (e.balance k x), e.removes ∪ e'.removes, e.creates ∪ e'.creates⟩

theorem none_comp (e : Effect) : none.comp e = e :=
  Effect.ext rfl (Set.empty_union _) (Set.empty_union _)

theorem comp_none (e : Effect) : e.comp none = e :=
  Effect.ext rfl (Set.union_empty _) (Set.union_empty _)

theorem create_comp_create (k : DistrictKey × Int) : (create k).comp (create k) = create k :=
  Effect.ext rfl (Set.union_self _) (Set.union_self _)

end Effect

/-- What an effect makes of a ledger. -/
structure Acts (e : Effect) (l l' : Ledger) : Prop where
  balance : ∀ k, l'.balance k = (l.balance k).map (e.balance k)
  kept : ∀ {k}, k ∉ e.removes → l.isNew k → l'.isNew k
  gone : ∀ {k}, k ∉ e.creates → l'.isNew k → l.isNew k ∧ k ∉ e.removes
  orderedBy : ∀ {k c}, l.orderedBy k = some c → l'.orderedBy k = some c
  amounts : ∀ {k}, l.amounts k ≠ [] → l'.amounts k ≠ []
  same : ∀ {k}, k ∉ e.creates → l'.orderedBy k = l.orderedBy k ∧ l'.amounts k = l.amounts k

section

variable {e e' : Effect} {l l' l'' : Ledger} {k : DistrictKey × Int}

/-- What sets no balance and removes nothing may leave the ledger as it is: an `INSERT` can be
refused. -/
theorem Acts.unchanged (hbalance : e.balance = fun _ x => x) (hremoves : e.removes = ∅)
    (l : Ledger) : Acts e l l where
  balance k := by
    rw [hbalance]
    exact Option.map_id'.symm
  kept _ h := h
  gone _ h := ⟨h, hremoves ▸ Set.notMem_empty _⟩
  orderedBy h := h
  amounts h := h
  same _ := ⟨rfl, rfl⟩

theorem Acts.refl (l : Ledger) : Acts .none l l := .unchanged rfl rfl l

theorem Acts.comp (h : Acts e l l') (h' : Acts e' l' l'') : Acts (e.comp e') l l'' where
  balance k := by
    rw [h'.balance, h.balance, Option.map_map]
    rfl
  kept hk hnew := h'.kept (fun hr => hk (.inr hr)) (h.kept (fun hr => hk (.inl hr)) hnew)
  gone hk hnew := by
    obtain ⟨hmid, hr'⟩ := h'.gone (fun hc => hk (.inr hc)) hnew
    obtain ⟨hold, hr⟩ := h.gone (fun hc => hk (.inl hc)) hmid
    exact ⟨hold, fun hor => hor.elim hr hr'⟩
  orderedBy hc := h'.orderedBy (h.orderedBy hc)
  amounts ha := h'.amounts (h.amounts ha)
  same hk := by
    obtain ⟨ho, ha⟩ := h.same fun hc => hk (.inl hc)
    obtain ⟨ho', ha'⟩ := h'.same fun hc => hk (.inr hc)
    exact ⟨ho'.trans ho, ha'.trans ha⟩

end

/-! ## Statements -/

namespace WriteStmt

def effect : WriteStmt → Effect
  | setBalance k cBalance _ => .rebalance k fun _ => cBalance
  | charge k olTotal => .rebalance k (· + olTotal)
  | deleteNewOrder k => .remove k
  | insertOrder r => .create r.key
  | insertNewOrder r => .create r.key
  | insertOrderLine r => .create r.order
  | payWarehouse _ _ => .none
  | payDistrict _ _ _ => .none
  | insertHistory _ => .none
  | setNextOId _ _ => .none
  | setQuantity _ _ => .none
  | setCarrier _ _ => .none
  | setDelivered _ _ => .none

section

variable {t : Database} {k : DistrictKey × Int}

theorem acts_rebalance {f : Rows.Setter Customer.key} {g : ℚ → ℚ}
    (hf : ∀ r, (f.1 r).cBalance = g r.cBalance) :
    Acts (.rebalance k g) t.ledger
      { t with customer := t.customer.update (fun r => r.key = k) f }.ledger where
  balance c := by
    simp only [Database.ledger, Rows.find?_update, Option.map_map]
    cases hr : t.customer.find? c with
    | none => rfl
    | some r =>
      have hkey := (Rows.find?_eq_some_iff.mp hr).2
      simp only [Option.map_some, Function.comp_apply, Effect.rebalance, hkey, decide_eq_true_eq]
      split
      · rw [hf]
      · rfl
  kept _ h := h
  gone _ h := ⟨h, Set.notMem_empty _⟩
  orderedBy h := h
  amounts h := h
  same _ := ⟨rfl, rfl⟩

theorem acts_deleteNewOrder : Acts (.remove k) t.ledger (Tpcc.deleteNewOrder k t).ledger where
  balance _ := Option.map_id'.symm
  kept {j} hk h := by
    have hne : j ≠ k := fun heq => hk (Set.mem_singleton_iff.mpr heq)
    simp only [Database.ledger, Tpcc.deleteNewOrder, Rows.find?_delete, if_neg hne]
    exact h
  gone {j} _ h := by
    simp only [Database.ledger, Tpcc.deleteNewOrder, Rows.find?_delete] at h
    split at h
    · cases h
    · rename_i hne
      exact ⟨h, fun hk => hne (Set.mem_singleton_iff.mp hk)⟩
  orderedBy h := h
  amounts h := h
  same _ := ⟨rfl, rfl⟩

theorem ledger_setCarrier (oCarrierId : Int) :
    (Tpcc.setCarrier k oCarrierId t).ledger = t.ledger := by
  have horders : (Tpcc.setCarrier k oCarrierId t).ledger.orderedBy = t.ledger.orderedBy := by
    funext j
    simp only [Database.ledger, Tpcc.setCarrier, Rows.find?_update, Option.map_map]
    refine congrArg (Option.map · _) (funext fun r => ?_)
    simp only [Function.comp_apply]
    split <;> rfl
  exact congrArg (fun orderedBy => { t.ledger with orderedBy }) horders

theorem ledger_setDelivered (datetime : String) :
    (Tpcc.setDelivered k datetime t).ledger = t.ledger := by
  have hamounts : (Tpcc.setDelivered k datetime t).ledger.amounts = t.ledger.amounts := by
    funext j
    refine Rows.map_select_update _ fun r => ?_
    split <;> exact ⟨rfl, rfl⟩
  exact congrArg (fun amounts => { t.ledger with amounts }) hamounts

theorem acts_insertOrder {r : Order} {orders : Rows Order.key}
    (h : t.orders.insert? r = some orders) :
    Acts (.create r.key) t.ledger { t with orders }.ledger where
  balance _ := Option.map_id'.symm
  kept _ h := h
  gone _ h := ⟨h, Set.notMem_empty _⟩
  orderedBy {j c} hc := by
    obtain ⟨r', hr', rfl⟩ := Option.map_eq_some_iff.mp hc
    obtain ⟨hmem, hkey⟩ := Rows.find?_eq_some_iff.mp hr'
    have hne : r.key ≠ j := fun heq =>
      (Rows.insert?_eq_some_iff.mp h).1 r' hmem (hkey.trans heq.symm)
    simp only [Database.ledger, Rows.find?_of_insert? h, if_neg hne, hr', Option.map_some]
  amounts h := h
  same {j} hj := by
    have hne : r.key ≠ j := fun heq => hj heq.symm
    simp only [Database.ledger, Rows.find?_of_insert? h, if_neg hne, and_self]

theorem acts_insertNewOrder {r : NewOrder} {newOrders : Rows NewOrder.key}
    (h : t.newOrders.insert? r = some newOrders) :
    Acts (.create r.key) t.ledger { t with newOrders }.ledger where
  balance _ := Option.map_id'.symm
  kept {j} _ hnew := by
    simp only [Database.ledger, Rows.find?_of_insert? h]
    split
    · rfl
    · exact hnew
  gone {j} hj hnew := by
    have hne : r.key ≠ j := fun heq => hj heq.symm
    simp only [Database.ledger, Rows.find?_of_insert? h, if_neg hne] at hnew
    exact ⟨hnew, Set.notMem_empty _⟩
  orderedBy h := h
  amounts h := h
  same _ := ⟨rfl, rfl⟩

theorem acts_insertOrderLine {r : OrderLine} {orderLine : Rows OrderLine.key}
    (h : t.orderLine.insert? r = some orderLine) :
    Acts (.create r.order) t.ledger { t with orderLine }.ledger := by
  have hselect : ∀ j, orderLine.select (fun r => r.order = j) =
      (t.orderLine.select fun r => r.order = j) ++ if r.order = j then [r] else [] := by
    intro j
    rw [Rows.select, (Rows.insert?_eq_some_iff.mp h).2, List.filter_append, List.filter_singleton,
      Bool.cond_decide]
    rfl
  refine ⟨fun _ => Option.map_id'.symm, fun _ h => h, fun _ h => ⟨h, Set.notMem_empty _⟩,
    fun h => h, fun {j} ha => ?_, fun {j} hj => ⟨rfl, ?_⟩⟩
  · simp only [Database.ledger, hselect, List.map_append]
    exact fun hnil => ha (List.append_eq_nil_iff.mp hnil).1
  · have hne : r.order ≠ j := fun heq => hj heq.symm
    simp only [Database.ledger, hselect, if_neg hne, List.append_nil]

end

/-- **What a statement does**, whatever the tables hold. -/
theorem acts (w : WriteStmt) (t : Database) :
    Acts w.effect t.ledger (server.apply t w).ledger := by
  cases w with
  | setBalance k cBalance cData => exact acts_rebalance fun _ => rfl
  | charge k olTotal => exact acts_rebalance fun _ => rfl
  | deleteNewOrder k => exact acts_deleteNewOrder
  | insertOrder r =>
    show Acts (.create r.key) t.ledger
      (((t.orders.insert? r).map fun orders => { t with orders }).getD t).ledger
    cases h : t.orders.insert? r with
    | none => exact .unchanged rfl rfl t.ledger
    | some orders => exact acts_insertOrder h
  | insertNewOrder r =>
    show Acts (.create r.key) t.ledger
      (((t.newOrders.insert? r).map fun newOrders => { t with newOrders }).getD t).ledger
    cases h : t.newOrders.insert? r with
    | none => exact .unchanged rfl rfl t.ledger
    | some newOrders => exact acts_insertNewOrder h
  | insertOrderLine r =>
    show Acts (.create r.order) t.ledger
      (((t.orderLine.insert? r).map fun orderLine => { t with orderLine }).getD t).ledger
    cases h : t.orderLine.insert? r with
    | none => exact .unchanged rfl rfl t.ledger
    | some orderLine => exact acts_insertOrderLine h
  | setCarrier k oCarrierId =>
    have hledger := ledger_setCarrier (t := t) (k := k) oCarrierId
    exact hledger ▸ Acts.refl t.ledger
  | setDelivered k datetime =>
    have hledger := ledger_setDelivered (t := t) (k := k) datetime
    exact hledger ▸ Acts.refl t.ledger
  | payWarehouse wId hAmount => exact Acts.refl t.ledger
  | payDistrict wId dId hAmount => exact Acts.refl t.ledger
  | insertHistory r => exact Acts.refl t.ledger
  | setNextOId k dNextOId => exact Acts.refl t.ledger
  | setQuantity k sQuantity => exact Acts.refl t.ledger

end WriteStmt

/-- The effect of statements one after another. -/
def effectOf (ws : List WriteStmt) : Effect := ws.foldl (fun e w => e.comp w.effect) .none

theorem effectOf_append (ws : List WriteStmt) (w : WriteStmt) :
    effectOf (ws ++ [w]) = (effectOf ws).comp w.effect := by
  rw [effectOf, List.foldl_append]
  rfl

theorem applyAll_acts (ws : List WriteStmt) (t : Database) :
    Acts (effectOf ws) t.ledger (server.applyAll ws t).ledger := by
  induction ws using List.reverseRecOn with
  | nil => exact Acts.refl t.ledger
  | append_singleton ws w ih =>
    rw [effectOf_append, Engine.applyAll_append]
    exact ih.comp (w.acts _)

end TokuQa.Tpcc
