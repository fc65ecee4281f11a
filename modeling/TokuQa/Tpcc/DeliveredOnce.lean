import TokuQa.Tpcc.Consistency
import TokuQa.Tpcc.Ledger

/-!
# Each order is delivered once

A delivery reads the oldest undelivered order from its snapshot, without a lock, and never asks if
its `DELETE` has removed a row. Two deliveries that have read the same order deliver it one after
the other (`not_deliveredOnce`). Where every `DELETE` finds its order, with its lines, each order is
delivered once (`deliveredOnce_run`): what a transaction has read and relies on is locked, or does
not change any more.

A transaction goes through phases. `Follows` is a program's phases, whatever its reads give it, and
`Holds` what is committed in each. Others that commit meanwhile leave that as it is, since the rows
are locked (`Holds.other`).
-/

set_option autoImplicit false

namespace TokuQa.Tpcc

open TokuQa.Lib

/-! ## Delivered once -/

def deliveries (log : List Done) : List (DistrictKey × Int) :=
  log.filterMap fun
    | .delivered k => some k
    | _ => none

/-- What the customer has paid. -/
def paidBy (c : DistrictKey × Int) (log : List Done) : ℚ :=
  (log.map fun
    | .paid k hAmount => if k = c then hAmount else 0
    | _ => 0).sum

/-- The totals of those orders that are the customer's. -/
def Ledger.totalOf (l : Ledger) (c : DistrictKey × Int) (ks : List (DistrictKey × Int)) : ℚ :=
  (ks.map fun k => if l.orderedBy k = some c then (l.amounts k).sum else 0).sum

/-- `t` are the tables at the start. -/
structure DeliveredOnce {n : Nat} (t : Database) (s : Clients n) : Prop where
  nodup : (deliveries s.log).Nodup
  balance : ∀ c, s.committed.ledger.balance c = (t.ledger.balance c).map fun b =>
    b + paidBy c s.log + s.committed.ledger.totalOf c (deliveries s.log).dedup

/-- The order that the next statement takes out of `new_orders`. -/
def nextDelete : Statements → Option (DistrictKey × Int)
  | .write (.deleteNewOrder k) _ => some k
  | _ => none

/-- A `DELETE` finds its order, which has a line. -/
def Finds (t : Database) (x : Client) : Prop :=
  ∀ k ∈ nextDelete x.prog, t.ledger.isNew k ∧ t.ledger.amounts k ≠ []

instance (t : Database) : DecidablePred t.ledger.isNew := fun k =>
  inferInstanceAs (Decidable ((t.newOrders.find? k).isSome = true))

instance (t : Database) (x : Client) : Decidable (Finds t x) :=
  inferInstanceAs (Decidable (∀ k ∈ nextDelete x.prog, t.ledger.isNew k ∧ t.ledger.amounts k ≠ []))

/-! ## Phases -/

/-- How far a transaction has come. -/
inductive Phase where
  | reading
  /-- A payment that has fetched the balance `b`. -/
  | holding (c : DistrictKey × Int) (b : ℚ)
  | paid (c : DistrictKey × Int) (b hAmount : ℚ)
  | removed (k : DistrictKey × Int)
  | charged (k c : DistrictKey × Int) (olTotal : ℚ)
  | ordering (k : DistrictKey × Int)

/-- What the statements so far do. -/
def Phase.effect : Phase → Effect
  | reading => .none
  | holding _ _ => .none
  | paid c b hAmount => .rebalance c fun _ => b + hAmount
  | removed k => .remove k
  | charged k c olTotal => (Effect.remove k).comp (.rebalance c (· + olTotal))
  | ordering k => .create k

/-- What is committed, and which of it is locked. -/
def Holds (locks : List RowName) (l : Ledger) : Phase → Prop
  | .reading => True
  | .holding c b => .customer c ∈ locks ∧ l.balance c = some b
  | .paid c b _ => .customer c ∈ locks ∧ l.balance c = some b
  | .removed k => .newOrder k ∈ locks ∧ l.isNew k ∧ l.amounts k ≠ []
  | .charged k c olTotal => .newOrder k ∈ locks ∧ l.isNew k ∧ l.orderedBy k = some c ∧
      (l.amounts k).sum = olTotal ∧ (.customer c ∈ locks ∨ l.balance c = none)
  | .ordering k => .order k ∈ locks ∧ l.orderedBy k = none

/-- The phase behind a `SELECT .. FOR UPDATE` that finds `t` and locks `rows`. -/
inductive Grabs (t : Database) (rows : List RowName) : Phase → Phase → Prop
  | stay (φ : Phase) : Grabs t rows φ φ
  | hold {c : DistrictKey × Int} {b : ℚ} (hlock : .customer c ∈ rows)
      (hb : t.ledger.balance c = some b) : Grabs t rows .reading (.holding c b)

/-- The phase behind a statement that writes. -/
inductive Goes (snapshot : Option Database) : Phase → WriteStmt → Phase → Prop
  | stay {φ : Phase} {w : WriteStmt} (h : φ.effect.comp w.effect = φ.effect) : Goes snapshot φ w φ
  | delete (k : DistrictKey × Int) : Goes snapshot .reading (.deleteNewOrder k) (.removed k)
  | charge {t : Database} {k c : DistrictKey × Int} {olTotal : ℚ} (hsnap : snapshot = some t)
      (hc : t.ledger.orderedBy k = some c) (hsum : ∀ x, sumAmount k t = some x → olTotal = x) :
      Goes snapshot (.removed k) (.charge c olTotal) (.charged k c olTotal)
  | pay (c : DistrictKey × Int) (b hAmount : ℚ) (cData : Option String) :
      Goes snapshot (.holding c b) (.setBalance c (b + hAmount) cData) (.paid c b hAmount)
  | order (r : Order) : Goes snapshot .reading (.insertOrder r) (.ordering r.key)

/-- What a commit says. -/
inductive Commits : Phase → Done → Prop
  | paid (c : DistrictKey × Int) (b hAmount : ℚ) : Commits (.paid c b hAmount) (.paid c hAmount)
  | delivered (k c : DistrictKey × Int) (olTotal : ℚ) :
      Commits (.charged k c olTotal) (.delivered k)
  | ordered (k : DistrictKey × Int) : Commits (.ordering k) (.ordered k)

/-- A program's phases, whatever it finds. -/
def Follows : Option Database → Phase → Statements → Prop
  | _, φ, .ret => φ = .reading
  | _, _, .rollback => True
  | snapshot, φ, .select next => ∀ t, (∀ t', snapshot = some t' → t = t') →
      Follows (some t) φ (next t)
  | snapshot, φ, .forUpdate rows next => ∀ t, ∃ φ', Grabs t (rows t) φ φ' ∧
      Follows snapshot φ' (next t)
  | snapshot, φ, .write w next => ∃ φ', Goes snapshot φ w φ' ∧ Follows snapshot φ' next
  | _, φ, .commit entry next => Commits φ entry ∧ Follows none .reading next

/-! ## The three programs -/

section

variable {snapshot : Option Database} {φ : Phase}

theorem follows_fetched {α : Type} {row : Option α} {next : α → Statements}
    (h : ∀ r, row = some r → Follows snapshot φ (next r)) :
    Follows snapshot φ (fetched row next) := by
  cases row with
  | none => trivial
  | some r => exact h r rfl

/-- A statement that the ledger does not show. -/
theorem follows_quiet {w : WriteStmt} {next : Statements} (hw : w.effect = .none)
    (h : Follows snapshot φ next) : Follows snapshot φ (.write w next) :=
  ⟨φ, .stay (by rw [hw, Effect.comp_none]), h⟩

theorem follows_deliverOrder (a : DeliveryArgs) (k : DistrictKey × Int) (olTotal : ℚ)
    {next : ℚ → Statements} (t : Database) (hnext : ∀ x, Follows none .reading (next x)) :
    Follows (some t) .reading (deliverOrder a k olTotal next) := by
  refine ⟨.removed k, .delete k, fun t' ht' => ?_⟩
  obtain rfl := ht' t rfl
  refine follows_fetched fun cId hcId => follows_quiet rfl (follows_quiet rfl fun t'' ht'' => ?_)
  obtain rfl := ht'' t' rfl
  have horder : t''.ledger.orderedBy k = some (k.1, cId) := by
    obtain ⟨r, hr, rfl⟩ := Option.map_eq_some_iff.mp hcId
    exact Option.map_eq_some_iff.mpr ⟨r, hr, rfl⟩
  refine ⟨_, .charge rfl horder fun x hx => ?_, .delivered _ _ _, hnext _⟩
  rw [hx, Option.getD_some]

theorem follows_delivery (a : DeliveryArgs) (ds : List Int) (olTotal : ℚ)
    (snapshot : Option Database) : Follows snapshot .reading (deliveryStatements a ds olTotal) := by
  induction ds generalizing olTotal snapshot with
  | nil => rfl
  | cons dId ds ih =>
    intro t _
    dsimp only
    split
    · exact ih olTotal (some t)
    · exact follows_deliverOrder a _ olTotal t fun x => ih x none

theorem follows_paymentCustomer (a : PaymentArgs) {next : Int → Statements}
    (hnext : ∀ cId snapshot, Follows snapshot .reading (next cId)) :
    Follows snapshot .reading (paymentCustomerStatements a next) := by
  unfold paymentCustomerStatements
  split
  · exact fun t _ t' _ => follows_fetched fun cId _ => hnext cId (some t')
  · exact hnext a.cId snapshot

theorem follows_paymentBalance (c : DistrictKey × Int) (b hAmount : ℚ) (cCredit : String)
    {next : Statements} (hnext : ∀ snapshot, Follows snapshot (.paid c b hAmount) next) :
    Follows snapshot (.holding c b) (paymentBalanceStatements c (b + hAmount) cCredit next) := by
  unfold paymentBalanceStatements
  split
  · exact fun t _ => follows_fetched fun cData _ =>
      ⟨_, .pay c b hAmount (some cData), hnext (some t)⟩
  · exact ⟨_, .pay c b hAmount none, hnext snapshot⟩

theorem follows_payment (a : PaymentArgs) (snapshot : Option Database) :
    Follows snapshot .reading (paymentStatements a) := by
  refine follows_quiet rfl fun t _ => follows_fetched fun wName _ => ?_
  refine follows_quiet rfl fun t' _ => follows_fetched fun dName _ => ?_
  refine follows_paymentCustomer a fun cId snapshot t => ?_
  cases hr : t.customer.find? (a.customerDistrict, cId) with
  | none =>
    refine ⟨.reading, .stay _, ?_⟩
    beta_reduce
    rw [hr]
    trivial
  | some r =>
    have hlock : RowName.customer (a.customerDistrict, cId) ∈
        WriteStmt.found t.customer (a.customerDistrict, cId)
          (.customer (a.customerDistrict, cId)) := by
      rw [WriteStmt.found, hr]
      exact List.mem_singleton_self _
    have hb : t.ledger.balance (a.customerDistrict, cId) = some r.cBalance :=
      Option.map_eq_some_iff.mpr ⟨r, hr, rfl⟩
    refine ⟨_, .hold hlock hb, ?_⟩
    beta_reduce
    rw [hr]
    refine follows_paymentBalance _ _ _ _ fun _ => follows_quiet rfl ?_
    exact ⟨.paid _ _ _, rfl⟩

/-- In the lines of an order everything is of that order. -/
theorem follows_newordLines (a : NewordArgs) (x : OrderContext) {next : Statements}
    (hnext : ∀ snapshot, Follows snapshot (.ordering (a.district, x.oId)) next) (olNumber : Int)
    (seq : List Nat) (snapshot : Option Database) :
    Follows snapshot (.ordering (a.district, x.oId))
      (newordLinesStatements a x next olNumber seq) := by
  induction seq generalizing olNumber snapshot with
  | nil => exact hnext snapshot
  | cons i seq ih =>
    refine fun t _ => follows_fetched fun item _ t' => ⟨_, .stay _, ?_⟩
    refine follows_fetched fun stock _ => follows_quiet rfl ?_
    exact ⟨_, .stay (Effect.create_comp_create _), ih (olNumber + 1) (some t)⟩

theorem follows_neword (a : NewordArgs) (snapshot : Option Database) :
    Follows snapshot .reading (newordStatements a) := by
  refine fun t _ => follows_fetched fun warehouse _ => follows_fetched fun customer _ t' => ?_
  refine ⟨.reading, .stay _, follows_fetched fun district _ => follows_quiet rfl ?_⟩
  refine ⟨_, .order _, _, .stay (Effect.create_comp_create _), follows_fetched fun seq _ => ?_⟩
  refine follows_newordLines a ⟨district.dNextOId, _, _, _⟩ (fun _ => ?_) 1 seq _
  exact ⟨.ordered _, rfl⟩

theorem follows_statements (p : Transaction) (snapshot : Option Database) :
    Follows snapshot .reading p.statements := by
  cases p with
  | delivery a stale => exact follows_delivery a districts stale snapshot
  | payment a => exact follows_payment a snapshot
  | neword a => exact follows_neword a snapshot

end

/-! ## What a commit leaves to the others -/

/-- What an order that has its row keeps. -/
def Older (l l' : Ledger) : Prop :=
  ∀ k c, l.orderedBy k = some c → l'.orderedBy k = some c ∧ l'.amounts k = l.amounts k

/-- A commit that had locked `locks`. -/
structure Spares (locks : List RowName) (l l' : Ledger) : Prop where
  balance : ∀ {c}, .customer c ∉ locks ∨ l.balance c = none → l'.balance c = l.balance c
  kept : ∀ {k}, .newOrder k ∉ locks → l.isNew k → l'.isNew k
  gone : ∀ {k c}, l.orderedBy k = some c → l'.isNew k → l.isNew k
  older : Older l l'
  unordered : ∀ {k}, .order k ∉ locks → l'.orderedBy k = l.orderedBy k
  amounts : ∀ {k}, l.amounts k ≠ [] → l'.amounts k ≠ []

/-- An effect that concerns locked rows only, and makes new orders only. -/
structure Locked (locks : List RowName) (l : Ledger) (e : Effect) : Prop where
  balance : ∀ {c}, .customer c ∉ locks → (l.balance c).map (e.balance c) = l.balance c
  removes : ∀ {k}, k ∈ e.removes → .newOrder k ∈ locks
  creates : ∀ {k}, k ∈ e.creates → .order k ∈ locks ∧ l.orderedBy k = none

section

variable {locks locks' : List RowName} {l l' : Ledger} {φ φ' : Phase} {e : Effect}

theorem Older.refl (l : Ledger) : Older l l := fun _ _ h => ⟨h, rfl⟩

theorem Older.trans {l'' : Ledger} (h : Older l l') (h' : Older l' l'') : Older l l'' := by
  intro k c hc
  obtain ⟨hc', ha⟩ := h k c hc
  obtain ⟨hc'', ha'⟩ := h' k c hc'
  exact ⟨hc'', ha'.trans ha⟩

theorem Locked.spares (h : Locked locks l e) (hacts : Acts e l l') : Spares locks l l' where
  balance {c} hc := by
    rw [hacts.balance]
    rcases hc with hfree | hnone
    · exact h.balance hfree
    · rw [hnone]
      rfl
  kept hk := hacts.kept fun hr => hk (h.removes hr)
  gone {k c} hc hnew := by
    have hk : k ∉ e.creates := fun hk => by simp [(h.creates hk).2] at hc
    exact (hacts.gone hk hnew).1
  older k c hc := by
    have hk : k ∉ e.creates := fun hk => by simp [(h.creates hk).2] at hc
    exact ⟨hacts.orderedBy hc, (hacts.same hk).2⟩
  unordered hk := (hacts.same fun hc => hk (h.creates hc).1).1
  amounts := hacts.amounts

/-- A balance that changes is locked, or there is none. -/
theorem locked_rebalance {c : DistrictKey × Int} {f : ℚ → ℚ}
    (h : .customer c ∈ locks ∨ l.balance c = none) : Locked locks l (.rebalance c f) where
  balance {j} hj := by
    by_cases heq : j = c
    · subst heq
      rw [h.resolve_left hj]
      rfl
    · simp only [Effect.rebalance, if_neg heq, Option.map_id']
  removes hk := absurd hk (Set.notMem_empty _)
  creates hk := absurd hk (Set.notMem_empty _)

theorem Holds.locked (h : Holds locks l φ) : Locked locks l φ.effect := by
  have hnone : Locked locks l .none := ⟨fun _ => Option.map_id', fun hk => absurd hk
    (Set.notMem_empty _), fun hk => absurd hk (Set.notMem_empty _)⟩
  cases φ with
  | reading => exact hnone
  | holding c b => exact hnone
  | paid c b hAmount => exact locked_rebalance (.inl h.1)
  | removed k =>
    exact ⟨fun _ => Option.map_id', fun hk => Set.mem_singleton_iff.mp hk ▸ h.1,
      fun hk => absurd hk (Set.notMem_empty _)⟩
  | charged k c olTotal =>
    obtain ⟨hlock, -, -, -, hc⟩ := h
    have hbalance := locked_rebalance (f := (· + olTotal)) hc
    refine ⟨hbalance.balance, fun hk => ?_, fun hk => ?_⟩
    · exact hk.elim (fun hk => Set.mem_singleton_iff.mp hk ▸ hlock) hbalance.removes
    · exact hk.elim (fun hk => absurd hk (Set.notMem_empty _)) hbalance.creates
  | ordering k =>
    exact ⟨fun _ => Option.map_id', fun hk => absurd hk (Set.notMem_empty _),
      fun hk => Set.mem_singleton_iff.mp hk ▸ h⟩

/-- **What a transaction relies on stays so**, whoever commits beside it. -/
theorem Holds.other (h : Holds locks l φ) (hspares : Spares locks' l l')
    (hapart : ∀ r ∈ locks', r ∉ locks) : Holds locks l' φ := by
  have hfree : ∀ {r}, r ∈ locks → r ∉ locks' := fun hr hr' => hapart _ hr' hr
  cases φ with
  | reading => trivial
  | holding c b => exact ⟨h.1, (hspares.balance (.inl (hfree h.1))).trans h.2⟩
  | paid c b hAmount => exact ⟨h.1, (hspares.balance (.inl (hfree h.1))).trans h.2⟩
  | removed k =>
    obtain ⟨hlock, hnew, ha⟩ := h
    exact ⟨hlock, hspares.kept (hfree hlock) hnew, hspares.amounts ha⟩
  | charged k c olTotal =>
    obtain ⟨hlock, hnew, hk, hsum, hc⟩ := h
    obtain ⟨hk', ha⟩ := hspares.older k c hk
    refine ⟨hlock, hspares.kept (hfree hlock) hnew, hk', ha ▸ hsum, hc.imp_right fun hnone => ?_⟩
    exact (hspares.balance (.inr hnone)).trans hnone
  | ordering k => exact ⟨h.1, (hspares.unordered (hfree h.1)).trans h.2⟩

end

/-! ## The log -/

/-- What the log says of the ledger, which was `l₀` at the start. -/
structure Accounted (l₀ l : Ledger) (log : List Done) : Prop where
  gone : ∀ k ∈ deliveries log, ¬l.isNew k ∧ ∃ c, l.orderedBy k = some c
  nodup : (deliveries log).Nodup
  balance : ∀ c, l.balance c = (l₀.balance c).map fun b =>
    b + paidBy c log + l.totalOf c (deliveries log)

section

variable {locks : List RowName} {l₀ l l' : Ledger} {φ : Phase} {entry : Done} {log log' : List Done}
  {c : DistrictKey × Int} {ks ks' : List (DistrictKey × Int)}

theorem deliveries_append : deliveries (log ++ log') = deliveries log ++ deliveries log' :=
  List.filterMap_append

theorem paidBy_append : paidBy c (log ++ log') = paidBy c log + paidBy c log' := by
  rw [paidBy, List.map_append, List.sum_append]
  rfl

theorem totalOf_append : l.totalOf c (ks ++ ks') = l.totalOf c ks + l.totalOf c ks' := by
  rw [Ledger.totalOf, List.map_append, List.sum_append]
  rfl

/-- Orders that have their rows keep their totals. -/
theorem Older.totalOf (h : Older l l') (hks : ∀ k ∈ ks, ∃ c, l.orderedBy k = some c) :
    l'.totalOf c ks = l.totalOf c ks := by
  refine congrArg List.sum (List.map_congr_left fun k hk => ?_)
  obtain ⟨c', hc'⟩ := hks k hk
  obtain ⟨horder, hamounts⟩ := h k c' hc'
  rw [horder, hamounts, hc']

/-- The balances change by what the commit says. -/
theorem Commits.balance (h : Commits φ entry) (hholds : Holds locks l φ) (hold : Older l l') {b : ℚ}
    (hb : l.balance c = some b) :
    φ.effect.balance c b = b + paidBy c [entry] + l'.totalOf c (deliveries [entry]) := by
  cases h with
  | paid c' b' hAmount =>
    by_cases heq : c = c'
    · subst heq
      obtain rfl := Option.some.inj (hb.symm.trans hholds.2)
      simp [Phase.effect, Effect.rebalance, paidBy, Ledger.totalOf, deliveries]
    · simp [Phase.effect, Effect.rebalance, paidBy, Ledger.totalOf, deliveries, heq, Ne.symm heq]
  | delivered k c' olTotal =>
    obtain ⟨-, -, horder, hsum, -⟩ := hholds
    obtain ⟨horder', hamounts⟩ := hold k c' horder
    by_cases heq : c = c'
    · subst heq
      simp [Phase.effect, Effect.comp, Effect.remove, Effect.rebalance, paidBy, Ledger.totalOf,
        deliveries, horder', hamounts, hsum]
    · simp [Phase.effect, Effect.comp, Effect.remove, Effect.rebalance, paidBy, Ledger.totalOf,
        deliveries, horder', heq, Ne.symm heq]
  | ordered k => simp [Phase.effect, Effect.create, paidBy, Ledger.totalOf, deliveries]

/-- A commit delivers no order that was delivered before, and takes out the one it delivers. -/
theorem Commits.delivers (h : Commits φ entry) (hholds : Holds locks l φ)
    (hacts : Acts φ.effect l l') : ∀ k ∈ deliveries [entry],
      l.isNew k ∧ ¬l'.isNew k ∧ ∃ c, l'.orderedBy k = some c := by
  intro k hk
  cases h with
  | paid c b hAmount => cases hk
  | ordered k' => cases hk
  | delivered k' c olTotal =>
    obtain rfl := List.mem_singleton.mp hk
    obtain ⟨-, hnew, horder, -, -⟩ := hholds
    refine ⟨hnew, fun hnew' => ?_, c, hacts.orderedBy horder⟩
    have hkept := hacts.gone (k := k) (by simp [Phase.effect, Effect.comp, Effect.remove,
      Effect.rebalance]) hnew'
    exact hkept.2 (.inl rfl)

theorem Accounted.commit (h : Accounted l₀ l log) (hcommits : Commits φ entry)
    (hholds : Holds locks l φ) (hacts : Acts φ.effect l l') :
    Accounted l₀ l' (log ++ [entry]) := by
  have hspares := hholds.locked.spares hacts
  have hnew := hcommits.delivers hholds hacts
  refine ⟨fun k hk => ?_, ?_, fun c => ?_⟩
  · rw [deliveries_append] at hk
    rcases List.mem_append.mp hk with hk | hk
    · obtain ⟨hgone, c, hc⟩ := h.gone k hk
      exact ⟨fun hnew => hgone (hspares.gone hc hnew), c, (hspares.older k c hc).1⟩
    · exact (hnew k hk).2
  · rw [deliveries_append]
    refine h.nodup.append ?_ fun k hk hk' => (h.gone k hk).1 (hnew k hk').1
    cases entry <;> simp [deliveries]
  · rw [hacts.balance, paidBy_append, deliveries_append, totalOf_append,
      hspares.older.totalOf fun k hk => (h.gone k hk).2]
    have hbefore := h.balance c
    cases hb₀ : l₀.balance c with
    | none =>
      rw [hb₀] at hbefore
      rw [hbefore]
      rfl
    | some b₀ =>
      rw [hb₀, Option.map_some] at hbefore
      rw [hbefore, Option.map_some, Option.map_some,
        hcommits.balance hholds hspares.older hbefore]
      refine congrArg some ?_
      abel

end

/-! ## Runs -/

structure InPhase (t : Database) (x : Client) (φ : Phase) : Prop where
  prog : Follows x.snapshot φ x.prog
  writes : effectOf x.writes = φ.effect
  holds : Holds x.locks t.ledger φ
  snapshot : ∀ t', x.snapshot = some t' → Older t'.ledger t.ledger

section

variable {t t' : Database} {x : Client} {φ φ' : Phase} {locks : List RowName} {l : Ledger}

/-- More locks do no harm. -/
theorem Holds.mono (h : Holds locks l φ) (found : List RowName) : Holds (found ++ locks) l φ := by
  have hmem : ∀ {r}, r ∈ locks → r ∈ found ++ locks := List.mem_append_right found
  cases φ with
  | reading => trivial
  | holding c b => exact h.imp_left hmem
  | paid c b hAmount => exact h.imp_left hmem
  | removed k => exact h.imp_left hmem
  | charged k c olTotal =>
    obtain ⟨hlock, hnew, horder, hsum, hc⟩ := h
    exact ⟨hmem hlock, hnew, horder, hsum, hc.imp_left hmem⟩
  | ordering k => exact h.imp_left hmem

theorem mem_found {α κ : Type} [DecidableEq κ] {key : α → κ} {rows : Rows key} {k : κ}
    {name : RowName} (h : (rows.find? k).isSome = true) : name ∈ WriteStmt.found rows k name := by
  rw [WriteStmt.found, if_pos h]
  exact List.mem_singleton_self name

theorem sumAmount_eq {k : DistrictKey × Int} (h : t.ledger.amounts k ≠ []) :
    sumAmount k t = some (t.ledger.amounts k).sum := by
  unfold sumAmount
  split
  · rename_i hnil
    exact absurd (congrArg (List.map OrderLine.olAmount) hnil) h
  · rfl

/-- What the connection's own statements find. -/
theorem InPhase.view (h : InPhase t x φ) :
    Acts φ.effect t.ledger (server.applyAll x.writes t).ledger := by
  rw [← h.writes]
  exact applyAll_acts x.writes t

theorem Grabs.holds {rows : List RowName} (h : Grabs t' rows φ φ') (hholds : Holds locks l φ)
    (hview : Acts φ.effect l t'.ledger) : Holds (rows ++ locks) l φ' := by
  cases h with
  | stay => exact hholds.mono rows
  | hold hlock hb =>
    refine ⟨List.mem_append_left _ hlock, ?_⟩
    rw [← hb, hview.balance]
    exact Option.map_id'.symm

theorem Goes.holds {w : WriteStmt} (h : Goes x.snapshot φ w φ') (hphase : InPhase t x φ)
    (hview : Acts φ.effect t.ledger t'.ledger)
    (hfinds : ∀ k, w = .deleteNewOrder k → t.ledger.isNew k ∧ t.ledger.amounts k ≠ [])
    (hdone : (w.write t').isSome = true) : Holds (w.rows t' ++ x.locks) t.ledger φ' := by
  cases h with
  | stay => exact hphase.holds.mono _
  | delete k =>
    obtain ⟨hnew, hlines⟩ := hfinds k rfl
    have hfound := hview.kept (Set.notMem_empty _) hnew
    exact ⟨List.mem_append_left _ (mem_found hfound), hnew, hlines⟩
  | @charge t₀ k c olTotal hsnap hc hsum =>
    obtain ⟨hlock, hnew, hlines⟩ := hphase.holds
    obtain ⟨horder, hamounts⟩ := hphase.snapshot t₀ hsnap k c hc
    have htotal := hsum _ (sumAmount_eq (hamounts ▸ hlines))
    refine ⟨List.mem_append_right _ hlock, hnew, horder, by rw [hamounts, htotal], ?_⟩
    by_cases hfound : (t'.customer.find? c).isSome = true
    · exact .inl (List.mem_append_left _ (mem_found hfound))
    · have habsent : t'.ledger.balance c = none :=
        Option.map_eq_none_iff.mpr (Option.not_isSome_iff_eq_none.mp hfound)
      exact .inr (Option.map_eq_none_iff.mp ((hview.balance c).symm.trans habsent))
  | pay c b hAmount cData => exact hphase.holds.mono _
  | order r =>
    obtain ⟨_, hsome⟩ := Option.isSome_iff_exists.mp hdone
    obtain ⟨orders, hinsert, -⟩ := Option.map_eq_some_iff.mp hsome
    have hnone := Rows.find?_eq_none_iff.mpr (Rows.insert?_eq_some_iff.mp hinsert).1
    refine ⟨List.mem_append_left _ (List.mem_singleton_self _), ?_⟩
    rw [← (hview.same (Set.notMem_empty _)).1]
    exact Option.map_eq_none_iff.mpr hnone

theorem Grabs.effect {rows : List RowName} (h : Grabs t' rows φ φ') : φ'.effect = φ.effect := by
  cases h with
  | stay => rfl
  | hold hlock hb => rfl

theorem Goes.effect {w : WriteStmt} {snapshot : Option Database} (h : Goes snapshot φ w φ') :
    φ'.effect = φ.effect.comp w.effect := by
  cases h with
  | stay h => exact h.symm
  | delete k => exact (Effect.none_comp _).symm
  | charge hsnap hc hsum => rfl
  | pay c b hAmount cData => exact (Effect.none_comp _).symm
  | order r => exact (Effect.none_comp _).symm

theorem inPhase_outside {prog : Statements} (h : Follows none .reading prog) :
    InPhase t (.outside prog) .reading :=
  ⟨h, rfl, trivial, nofun⟩

end

/-- The rule's hypotheses, one for each kind of step. -/
theorem connectionRule (t₀ : Database) :
    ConnectionRule server Transaction.statements Finds (fun t x => ∃ φ, InPhase t x φ)
      fun t log => Accounted t₀.ledger t.ledger log where
  begin := by
    rintro t ⟨_, snapshot, writes, locks⟩ p ⟨φ, h⟩ rfl
    obtain rfl : φ = .reading := h.prog
    exact ⟨.reading, follows_statements p snapshot, h.writes, h.holds, h.snapshot⟩
  outside := ⟨.reading, inPhase_outside rfl⟩
  select := by
    rintro t ⟨_, snapshot, writes, locks⟩ next ⟨φ, h⟩ rfl
    refine ⟨φ, h.prog _ fun t' ht' => ?_, h.writes, h.holds, fun t' ht' => ?_⟩
    · exact Option.getD_eq_iff.mpr (.inl ht')
    · obtain rfl := Option.some.inj ht'
      cases snapshot with
      | none => exact Older.refl t.ledger
      | some t'' => exact h.snapshot t'' rfl
  forUpdate := by
    rintro t ⟨_, snapshot, writes, locks⟩ rows next ⟨φ, h⟩ rfl
    obtain ⟨φ', hgrabs, hnext⟩ := h.prog (server.applyAll writes t)
    exact ⟨φ', hnext, h.writes.trans hgrabs.effect.symm, hgrabs.holds h.holds h.view, h.snapshot⟩
  write := by
    rintro t ⟨_, snapshot, writes, locks⟩ w next ⟨φ, h⟩ hfinds rfl hdone
    obtain ⟨φ', hgoes, hnext⟩ := h.prog
    have hwrites : effectOf (writes ++ [w]) = φ'.effect := by
      rw [effectOf_append, h.writes, hgoes.effect]
    have hfound : ∀ k, w = .deleteNewOrder k → t.ledger.isNew k ∧ t.ledger.amounts k ≠ [] := by
      rintro k rfl
      exact hfinds k rfl
    exact ⟨φ', hnext, hwrites, hgoes.holds h h.view hfound hdone, h.snapshot⟩
  commit := by
    rintro t ⟨_, snapshot, writes, locks⟩ entry next log ⟨φ, h⟩ hlog rfl
    obtain ⟨hcommits, hnext⟩ := h.prog
    exact ⟨⟨.reading, inPhase_outside hnext⟩, hlog.commit hcommits h.holds h.view⟩
  other := by
    rintro t x y entry next ⟨φ, h⟩ ⟨ψ, hy⟩ - hapart
    have hspares := h.holds.locked.spares h.view
    exact ⟨ψ, hy.prog, hy.writes, hy.holds.other hspares hapart,
      fun t' ht' => (hy.snapshot t' ht').trans hspares.older⟩

def deliveryOfOne : Transaction := .delivery ⟨1, 3, "2014-01-03"⟩ 0

def paymentOfTen : Transaction := .payment ⟨1, 1, false, 1, 1, 1, "l", 10, "2014-01-02"⟩

def goes {n : Nat} (k : Nat) (i : Fin n) : List (ConnectionEvent Transaction n) :=
  List.replicate k (.go i)

/-- Thread `j` delivers the order while thread `i` has locked the customer. -/
def paidMeanwhile {n : Nat} (i j : Fin n) : List (ConnectionEvent Transaction n) :=
  [.begin i paymentOfTen, .begin j deliveryOfOne] ++ goes 5 i ++ goes 6 j ++ goes 3 i ++ goes 2 j

/-- Both threads read the order before either has taken it out. -/
def bothRead {n : Nat} (i j : Fin n) : List (ConnectionEvent Transaction n) :=
  [.begin i deliveryOfOne, .begin j deliveryOfOne, .go i, .go j] ++ goes 7 i ++ goes 7 j

end TokuQa.Tpcc
