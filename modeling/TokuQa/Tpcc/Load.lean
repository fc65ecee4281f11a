import TokuQa.Lib.Restart
import TokuQa.Tpcc.LoadRows

/-!
# `load.c`

Everything is inserted in one connection with autocommit off. Whichever execution fails,
`try_stmt_execute` rolls back, and the function starts over at its label `retry`: the items from
the first one, a warehouse with its stock and its districts, the customers or the orders of a
district. Each of these is committed behind its last statement, so that what a rollback undoes is
what is done again; only what is drawn is another.

A commit that fails ends the program, so it is not among the failures.
-/

set_option autoImplicit false

namespace TokuQa.Tpcc

open TokuQa.Lib
open Loading (applyAll)

/-- `INSERT`, refused if the key is there. -/
def Row.insert : Row → Database → Option Database
  | .item r, t => (t.item.insert? r).map fun item => { t with item := item }
  | .warehouse r, t => (t.warehouse.insert? r).map fun warehouse => { t with warehouse := warehouse }
  | .stock r, t => (t.stock.insert? r).map fun stock => { t with stock := stock }
  | .district r, t => (t.district.insert? r).map fun district => { t with district := district }
  | .customer r, t => (t.customer.insert? r).map fun customer => { t with customer := customer }
  | .history r, t => some { t with history := t.history ++ [r] }
  | .newOrder r, t => (t.newOrders.insert? r).map fun newOrders => { t with newOrders := newOrders }
  | .order r, t => (t.orders.insert? r).map fun orders => { t with orders := orders }
  | .orderLine r, t => (t.orderLine.insert? r).map fun orderLine => { t with orderLine := orderLine }

def statements (l : List Insert) : List (Database → Option Database) := l.map fun i => i.row.insert

/-- The warehouses from `minWare` to `maxWare`. -/
def wares (minWare maxWare : Int) : List Int :=
  (List.range (maxWare - minWare + 1).toNat).map fun i : Nat => minWare + i

/-- The districts of these warehouses, in the order of the two loops. -/
def districtsOf (minWare maxWare : Int) : List DistrictKey :=
  (wares minWare maxWare).flatMap fun wId => (upTo distPerWare).map fun dId => (wId, dId)

/-- A warehouse with its stock and its districts. -/
def wareInserts (d : LoadDraws) (wId : Int) : List Insert :=
  wareInsert (d.ware wId) wId :: (stockInserts (d.stock wId) wId ++
    districtInserts (d.district wId) wId)

section

variable (draws : Nat → LoadDraws) (now : String) (minWare maxWare : Int) (fuel : Nat)

def loadItems (s : Loading Database) : Option (Loading Database) :=
  Loading.restart (fun k => statements (itemInserts (draws k).item)) fuel s

def loadWare (s : Loading Database) : Option (Loading Database) :=
  Loading.restartEach (fun wId k => statements (wareInserts (draws k) wId)) fuel
    (wares minWare maxWare) s

/-- `Customer` for each district. -/
def loadCust (s : Loading Database) : Option (Loading Database) :=
  (Loading.restartEach (fun k n => statements
    (customerInserts ((draws n).customer k.1 k.2) now k.1 k.2)) fuel
    (districtsOf minWare maxWare) s).map Loading.commit

/-- `Orders` for each district. -/
def loadOrd (s : Loading Database) : Option (Loading Database) :=
  (Loading.restartEach (fun k n => statements
    (ordersInserts ((draws n).orders k.1 k.2) now k.1 k.2)) fuel
    (districtsOf minWare maxWare) s).map Loading.commit

/-- All four parts. `draws` are numbered by the failures before them. -/
def load (s : Loading Database) : Option (Loading Database) := do
  let s ← loadItems draws fuel s
  let s ← loadWare draws minWare maxWare fuel s
  let s ← loadCust draws now minWare maxWare fuel s
  let s ← loadOrd draws now minWare maxWare fuel s
  return s.commit

end

/-! ## A load that ends -/

/-- Every statement of a load in which nothing fails. -/
def allInserts (d : LoadDraws) (now : String) (minWare maxWare : Int) : List Insert :=
  itemInserts d.item ++ ((wares minWare maxWare).flatMap (wareInserts d) ++
    ((districtsOf minWare maxWare).flatMap (fun k =>
      customerInserts (d.customer k.1 k.2) now k.1 k.2) ++
    (districtsOf minWare maxWare).flatMap fun k => ordersInserts (d.orders k.1 k.2) now k.1 k.2))

/-- The draws of a load, each piece of which is done with those of a number of its own. -/
def pick (draws : Nat → LoadDraws) (items : Nat) (ware : Int → Nat) (cust ord : DistrictKey → Nat) :
    LoadDraws where
  item := (draws items).item
  ware wId := (draws (ware wId)).ware wId
  stock wId := (draws (ware wId)).stock wId
  district wId := (draws (ware wId)).district wId
  customer wId dId := (draws (cust (wId, dId))).customer wId dId
  orders wId dId := (draws (ord (wId, dId))).orders wId dId

theorem pick_const (d : LoadDraws) (items : Nat) (ware : Int → Nat) (cust ord : DistrictKey → Nat) :
    pick (fun _ => d) items ware cust ord = d := rfl

theorem mem_wares {minWare maxWare wId : Int} :
    wId ∈ wares minWare maxWare ↔ minWare ≤ wId ∧ wId ≤ maxWare := by
  rw [wares, List.mem_map]
  constructor
  · rintro ⟨i, hi, rfl⟩
    have hlt := List.mem_range.mp hi
    omega
  · rintro ⟨hmin, hmax⟩
    exact ⟨(wId - minWare).toNat, List.mem_range.mpr (by omega), by omega⟩

theorem nodup_wares (minWare maxWare : Int) : (wares minWare maxWare).Nodup := by
  refine List.Nodup.map (fun i j hij => ?_) List.nodup_range
  have h : minWare + (i : Int) = minWare + j := hij
  omega

/-- Pairs are distinct if their first parts are, and the second ones of each. -/
theorem nodup_pairs {α κ β : Type} {as : List α} {key : α → κ} {f : α → List β}
    (has : (as.map key).Nodup) (hf : ∀ a, (f a).Nodup) :
    (as.flatMap fun a => (f a).map fun b => (key a, b)).Nodup := by
  refine List.nodup_flatMap.mpr ⟨fun a _ => (hf a).map fun b b' hb => (Prod.mk.inj hb).2, ?_⟩
  refine (List.pairwise_map.mp has).imp fun {a a'} hne => ?_
  refine List.disjoint_left.mpr ?_
  rintro p hp hp'
  obtain ⟨b, -, rfl⟩ := List.mem_map.mp hp
  obtain ⟨b', -, hb'⟩ := List.mem_map.mp hp'
  exact hne (Prod.mk.inj hb').1.symm

theorem nodup_pairs_self {α β : Type} {as : List α} {f : α → List β} (has : as.Nodup)
    (hf : ∀ a, (f a).Nodup) : (as.flatMap fun a => (f a).map fun b => (a, b)).Nodup :=
  nodup_pairs (by rwa [List.map_id']) hf

theorem nodup_districtsOf (minWare maxWare : Int) : (districtsOf minWare maxWare).Nodup :=
  nodup_pairs_self (nodup_wares minWare maxWare) fun _ => nodup_upTo distPerWare

theorem statements_append (l l' : List Insert) :
    statements (l ++ l') = statements l ++ statements l' := List.map_append

theorem statements_flatMap {α : Type} (as : List α) (f : α → List Insert) :
    statements (as.flatMap f) = as.flatMap fun a => statements (f a) := List.map_flatMap

section

variable {draws : Nat → LoadDraws} {now : String} {minWare maxWare : Int} {fuel : Nat}
  {s s' : Loading Database} {d : LoadDraws} {t t' : Database}

/-- The four parts of a load in which nothing fails. -/
theorem applyAll_allInserts :
    applyAll (statements (allInserts d now minWare maxWare)) t = some t' ↔
    ∃ t₁, applyAll (statements (itemInserts d.item)) t = some t₁ ∧
    ∃ t₂, applyAll ((wares minWare maxWare).flatMap fun wId => statements (wareInserts d wId)) t₁ =
      some t₂ ∧
    ∃ t₃, applyAll ((districtsOf minWare maxWare).flatMap fun k =>
      statements (customerInserts (d.customer k.1 k.2) now k.1 k.2)) t₂ = some t₃ ∧
    applyAll ((districtsOf minWare maxWare).flatMap fun k =>
      statements (ordersInserts (d.orders k.1 k.2) now k.1 k.2)) t₃ = some t' := by
  simp only [allInserts, statements_append, statements_flatMap, Loading.applyAll_append,
    Option.bind_eq_some_iff]

/-- **A load that ends** has committed what one commits in which nothing fails. -/
theorem load_eq_some (hidle : s.Idle) (h : load draws now minWare maxWare fuel s = some s') :
    ∃ items ware cust ord, applyAll (statements
      (allInserts (pick draws items ware cust ord) now minWare maxWare)) s.conn.committed =
        some s'.conn.committed := by
  obtain ⟨s₁, hitems, h⟩ := Option.bind_eq_some_iff.mp h
  obtain ⟨s₂, hware, h⟩ := Option.bind_eq_some_iff.mp h
  obtain ⟨s₃, hcust, h⟩ := Option.bind_eq_some_iff.mp h
  obtain ⟨s₄, hord, h⟩ := Option.bind_eq_some_iff.mp h
  obtain ⟨s₃', hcusts, rfl⟩ := Option.map_eq_some_iff.mp hcust
  obtain ⟨s₄', hords, rfl⟩ := Option.map_eq_some_iff.mp hord
  cases h
  obtain ⟨hidle₁, items, hi⟩ := Loading.restart_eq_some hidle hitems
  obtain ⟨hidle₂, ware, hw⟩ := Loading.restartEach_eq_some (nodup_wares _ _) hidle₁ hware
  obtain ⟨hidle₃, cust, hc⟩ := Loading.restartEach_eq_some (nodup_districtsOf _ _) hidle₂ hcusts
  have hidle₃' : s₃'.commit.Idle := rfl
  obtain ⟨hidle₄, ord, ho⟩ := Loading.restartEach_eq_some (nodup_districtsOf _ _) hidle₃' hords
  have hcommit : s₃'.commit.conn.committed = s₃'.conn.committed := hidle₃
  have hcommit' : s₄'.commit.commit.conn.committed = s₄'.conn.committed := hidle₄
  rw [hcommit] at ho
  rw [hcommit']
  exact ⟨items, ware, cust, ord, applyAll_allInserts.mpr ⟨_, hi, _, hw, _, hc, ho⟩⟩

/-- **A load ends** if the statements are in order. -/
theorem load_ends (hidle : s.Idle)
    (hall : ∀ d, (applyAll (statements (allInserts d now minWare maxWare)) s.conn.committed).isSome)
    (hfuel : s.fails.count true < fuel) :
    ∃ s', load draws now minWare maxWare fuel s = some s' := by
  have hparts := fun items ware cust ord => (Option.isSome_iff_exists.mp
    (hall (pick draws items ware cust ord))).imp fun _ h => applyAll_allInserts.mp h
  -- the items
  obtain ⟨s₁, hs₁, hcount₁⟩ : ∃ s₁, loadItems draws fuel s = some s₁ ∧
      s₁.fails.count true ≤ s.fails.count true := Loading.restart_ends hidle (fun k => by
      obtain ⟨_, t₁, h₁, -⟩ := hparts k (fun _ => 0) (fun _ => 0) fun _ => 0
      exact Option.isSome_iff_exists.mpr ⟨t₁, h₁⟩) hfuel
  obtain ⟨hidle₁, items, hi⟩ := Loading.restart_eq_some hidle hs₁
  -- the warehouses
  obtain ⟨s₂, hs₂, hcount₂⟩ : ∃ s₂, loadWare draws minWare maxWare fuel s₁ = some s₂ ∧
      s₂.fails.count true ≤ s₁.fails.count true :=
    Loading.restartEach_ends (nodup_wares minWare maxWare) hidle₁ (fun ware => by
      obtain ⟨_, t₁, h₁, t₂, h₂, -⟩ := hparts items ware (fun _ => 0) fun _ => 0
      obtain rfl := Option.some.inj (hi.symm.trans h₁)
      exact Option.isSome_iff_exists.mpr ⟨t₂, h₂⟩) (hcount₁.trans_lt hfuel)
  obtain ⟨hidle₂, ware, hw⟩ := Loading.restartEach_eq_some (nodup_wares _ _) hidle₁ hs₂
  -- the customers
  obtain ⟨s₃, hs₃, hcount₃⟩ : ∃ s₃, Loading.restartEach (fun k n => statements
      (customerInserts ((draws n).customer k.1 k.2) now k.1 k.2)) fuel
        (districtsOf minWare maxWare) s₂ = some s₃ ∧
      s₃.fails.count true ≤ s₂.fails.count true :=
    Loading.restartEach_ends (nodup_districtsOf minWare maxWare) hidle₂ (fun cust => by
      obtain ⟨_, t₁, h₁, t₂, h₂, t₃, h₃, -⟩ := hparts items ware cust fun _ => 0
      obtain rfl := Option.some.inj (hi.symm.trans h₁)
      obtain rfl := Option.some.inj (hw.symm.trans h₂)
      exact Option.isSome_iff_exists.mpr ⟨t₃, h₃⟩) ((hcount₂.trans hcount₁).trans_lt hfuel)
  obtain ⟨hidle₃, cust, hc⟩ := Loading.restartEach_eq_some (nodup_districtsOf _ _) hidle₂ hs₃
  -- the orders
  have hcommit : s₃.commit.conn.committed = s₃.conn.committed := hidle₃
  obtain ⟨s₄, hs₄, -⟩ : ∃ s₄, Loading.restartEach (fun k n => statements
      (ordersInserts ((draws n).orders k.1 k.2) now k.1 k.2)) fuel
        (districtsOf minWare maxWare) s₃.commit = some s₄ ∧
      s₄.fails.count true ≤ s₃.commit.fails.count true :=
    Loading.restartEach_ends (nodup_districtsOf minWare maxWare) rfl (fun ord => by
      obtain ⟨t₄, t₁, h₁, t₂, h₂, t₃, h₃, h₄⟩ := hparts items ware cust ord
      obtain rfl := Option.some.inj (hi.symm.trans h₁)
      obtain rfl := Option.some.inj (hw.symm.trans h₂)
      obtain rfl := Option.some.inj (hc.symm.trans h₃)
      rw [hcommit]
      exact Option.isSome_iff_exists.mpr ⟨t₄, h₄⟩)
    ((hcount₃.trans (hcount₂.trans hcount₁)).trans_lt hfuel)
  refine ⟨s₄.commit.commit, Option.bind_eq_some_iff.mpr ⟨s₁, hs₁, Option.bind_eq_some_iff.mpr
    ⟨s₂, hs₂, Option.bind_eq_some_iff.mpr ⟨s₃.commit, ?_, Option.bind_eq_some_iff.mpr
    ⟨s₄.commit, ?_, rfl⟩⟩⟩⟩⟩
  · exact Option.map_eq_some_iff.mpr ⟨s₃, hs₃, rfl⟩
  · exact Option.map_eq_some_iff.mpr ⟨s₄, hs₄, rfl⟩

end

end TokuQa.Tpcc
