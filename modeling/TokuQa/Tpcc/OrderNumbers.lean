import Mathlib.Logic.Function.Basic
import TokuQa.Tpcc.DeliveredOnce

/-!
# The numbers of the orders

`neword` takes the number of its order from `d_next_o_id` and leaves the next one there. The row
of the district is locked from the `SELECT .. FOR UPDATE` to the end of the transaction, and a
rollback gives the number back, so that whatever the threads do beside each other, and wherever
they fail, the orders of a district are numbered in the order of their commits, no number is left
out and none comes twice, and an order has all of its lines (`orders_numbered`).

A `Book` is what the numbers are about. A statement changes the book of a database by itself
(`book_apply`), and `Tracks` is how far a program has come, whatever its reads give it.
-/

set_option autoImplicit false

namespace TokuQa.Tpcc

open TokuQa.Lib

/-! ## The book -/

/-- The next number of a district, `o_ol_cnt` of an order that has its row, and the numbers of its
lines. -/
structure Book where
  next : DistrictKey → Option Int
  olCnt : DistrictKey × Int → Option Int
  lines : DistrictKey × Int → List Int

def Database.book (t : Database) : Book where
  next k := (t.district.find? k).map District.dNextOId
  olCnt k := (t.orders.find? k).map Order.oOlCnt
  lines k := (t.orderLine.select fun r => r.order = k).map OrderLine.olNumber

namespace Book

/-- What a statement does to it. An `INSERT` of a key that is there is refused. -/
def write (b : Book) : WriteStmt → Book
  | .setNextOId k dNextOId =>
    { b with next := fun j => if j = k then (b.next j).map fun _ => dNextOId else b.next j }
  | .insertOrder r =>
    { b with olCnt := fun j => if j = r.key ∧ b.olCnt j = none then some r.oOlCnt else b.olCnt j }
  | .insertOrderLine r =>
    { b with lines := fun j =>
        if j = r.order ∧ r.olNumber ∉ b.lines j then b.lines j ++ [r.olNumber] else b.lines j }
  | _ => b

def writeAll (ws : List WriteStmt) (b : Book) : Book := ws.foldl Book.write b

theorem writeAll_append (ws : List WriteStmt) (w : WriteStmt) (b : Book) :
    writeAll (ws ++ [w]) b = (writeAll ws b).write w := by
  rw [writeAll, List.foldl_append]
  rfl

end Book

section

variable {t : Database} {k : DistrictKey × Int}

theorem olCnt_setCarrier (oCarrierId : Int) : (setCarrier k oCarrierId t).book = t.book := by
  have hcnt : (setCarrier k oCarrierId t).book.olCnt = t.book.olCnt := by
    funext j
    simp only [Database.book, setCarrier, Rows.find?_update, Option.map_map]
    refine congrArg (Option.map · _) (funext fun r => ?_)
    simp only [Function.comp_apply]
    split <;> rfl
  exact congrArg (fun olCnt => { t.book with olCnt }) hcnt

theorem lines_setDelivered (datetime : String) : (setDelivered k datetime t).book = t.book := by
  have hlines : (setDelivered k datetime t).book.lines = t.book.lines := by
    funext j
    refine Rows.map_select_update _ fun r => ?_
    split <;> exact ⟨rfl, rfl⟩
  exact congrArg (fun lines => { t.book with lines }) hlines

theorem next_payDistrict (wId dId : Int) (hAmount : ℚ) :
    (payDistrict wId dId hAmount t).book = t.book := by
  have hnext : (payDistrict wId dId hAmount t).book.next = t.book.next := by
    funext j
    simp only [Database.book, payDistrict, Rows.find?_update, Option.map_map]
    refine congrArg (Option.map · _) (funext fun r => ?_)
    simp only [Function.comp_apply]
    split <;> rfl
  exact congrArg (fun next => { t.book with next }) hnext

theorem next_setNextOId (k : DistrictKey) (dNextOId : Int) :
    (setNextOId k dNextOId t).book = t.book.write (.setNextOId k dNextOId) := by
  have hnext : (setNextOId k dNextOId t).book.next =
      (t.book.write (.setNextOId k dNextOId)).next := by
    funext j
    simp only [Database.book, Book.write, setNextOId, Rows.find?_update]
    cases hr : t.district.find? j with
    | none => simp
    | some r =>
      have hkey := (Rows.find?_eq_some_iff.mp hr).2
      by_cases hj : j = k
      · simp [hkey, hj]
      · simp [hkey, hj]
  exact congrArg (fun next => { t.book with next }) hnext

theorem book_insertOrder (r : Order) :
    (server.apply t (.insertOrder r)).book = t.book.write (.insertOrder r) := by
  show (((t.orders.insert? r).map fun orders => { t with orders }).getD t).book = _
  cases hinsert : t.orders.insert? r with
  | none =>
    obtain ⟨r', hr', hkey⟩ := Rows.insert?_eq_none_iff.mp hinsert
    have hthere : t.book.olCnt r.key ≠ none := by
      simp [Database.book, Rows.find?_eq_some_iff.mpr ⟨hr', hkey⟩]
    have hsame : t.book.olCnt = (t.book.write (.insertOrder r)).olCnt := by
      funext j
      refine (if_neg ?_).symm
      rintro ⟨rfl, hnone⟩
      exact hthere hnone
    exact congrArg (fun olCnt => { t.book with olCnt }) hsame
  | some orders =>
    have hcnt : ({ t with orders } : Database).book.olCnt =
        (t.book.write (.insertOrder r)).olCnt := by
      funext j
      have hnew : t.orders.find? r.key = none :=
        Rows.find?_eq_none_iff.mpr (Rows.insert?_eq_some_iff.mp hinsert).1
      simp only [Database.book, Book.write, Rows.find?_of_insert? hinsert]
      by_cases hj : j = r.key
      · simp [hj, hnew]
      · simp [hj, Ne.symm hj]
    exact congrArg (fun olCnt => { t.book with olCnt }) hcnt

theorem book_insertOrderLine (r : OrderLine) :
    (server.apply t (.insertOrderLine r)).book = t.book.write (.insertOrderLine r) := by
  show (((t.orderLine.insert? r).map fun orderLine => { t with orderLine }).getD t).book = _
  have hthere : ∀ j, r.olNumber ∈ t.book.lines j ↔ ∃ l ∈ t.orderLine, l.key = (j, r.olNumber) := by
    intro j
    simp only [Database.book, List.mem_map, Rows.mem_select, decide_eq_true_eq]
    constructor
    · rintro ⟨l, ⟨hl, hj⟩, hn⟩
      exact ⟨l, hl, Prod.ext hj hn⟩
    · rintro ⟨l, hl, hkey⟩
      exact ⟨l, ⟨hl, congrArg Prod.fst hkey⟩, congrArg Prod.snd hkey⟩
  cases hinsert : t.orderLine.insert? r with
  | none =>
    obtain ⟨l, hl, hkey⟩ := Rows.insert?_eq_none_iff.mp hinsert
    have hsame : t.book.lines = (t.book.write (.insertOrderLine r)).lines := by
      funext j
      refine (if_neg ?_).symm
      rintro ⟨rfl, hnew⟩
      exact hnew ((hthere _).mpr ⟨l, hl, hkey⟩)
    exact congrArg (fun lines => { t.book with lines }) hsame
  | some orderLine =>
    obtain ⟨hnew, hrows⟩ := Rows.insert?_eq_some_iff.mp hinsert
    have hlines : ({ t with orderLine } : Database).book.lines =
        (t.book.write (.insertOrderLine r)).lines := by
      funext j
      have hselect : orderLine.select (fun l => l.order = j) =
          (t.orderLine.select fun l => l.order = j) ++ if r.order = j then [r] else [] := by
        rw [Rows.select, hrows, List.filter_append, List.filter_singleton, Bool.cond_decide]
        rfl
      simp only [Book.write, hthere]
      simp only [Database.book, hselect, List.map_append]
      by_cases hj : j = r.order
      · subst hj
        have hgone : ¬ ∃ l ∈ t.orderLine, l.key = (r.order, r.olNumber) := by
          rintro ⟨l, hl, hkey⟩
          exact hnew l hl hkey
        rw [if_pos rfl, if_pos ⟨rfl, hgone⟩]
        rfl
      · rw [if_neg (Ne.symm hj), if_neg fun h => hj h.1]
        simp
    exact congrArg (fun lines => { t.book with lines }) hlines

theorem book_insertNewOrder (r : NewOrder) :
    (server.apply t (.insertNewOrder r)).book = t.book := by
  show (((t.newOrders.insert? r).map fun newOrders => { t with newOrders }).getD t).book = _
  cases t.newOrders.insert? r with
  | none => rfl
  | some newOrders => rfl

end

/-- **What a statement does to the book**, whatever else the tables hold. -/
theorem book_apply (w : WriteStmt) (t : Database) : (server.apply t w).book = t.book.write w := by
  cases w with
  | setNextOId k dNextOId => exact next_setNextOId k dNextOId
  | insertOrder r => exact book_insertOrder r
  | insertOrderLine r => exact book_insertOrderLine r
  | insertNewOrder r => exact book_insertNewOrder r
  | setCarrier k oCarrierId => exact olCnt_setCarrier oCarrierId
  | setDelivered k datetime => exact lines_setDelivered datetime
  | payDistrict wId dId hAmount => exact next_payDistrict wId dId hAmount
  | payWarehouse wId hAmount => rfl
  | setBalance k cBalance cData => rfl
  | insertHistory r => rfl
  | setQuantity k sQuantity => rfl
  | deleteNewOrder k => rfl
  | charge k olTotal => rfl

theorem book_applyAll (ws : List WriteStmt) (t : Database) :
    (server.applyAll ws t).book = t.book.writeAll ws := by
  induction ws using List.reverseRecOn with
  | nil => rfl
  | append_singleton ws w ih => rw [Engine.applyAll_append, book_apply, ih, Book.writeAll_append]

/-! ## How far a program has come -/

/-- A `neword` has read the number, has left the next one, and has inserted the order with some of
its lines. Everything else is `free`. -/
inductive Numbering where
  | free
  | seen (k : DistrictKey) (o : Int)
  | advanced (k : DistrictKey) (o : Int)
  | placed (k : DistrictKey) (o : Int) (olCnt : Int) (lines : Nat)

/-- The numbers of so many lines. -/
def lineNumbers (lines : Nat) : List Int := (List.range lines).map fun i : Nat => (1 : Int) + i

namespace Numbering

/-- The number that was read, and its district. -/
def number : Numbering → Option (DistrictKey × Int)
  | free => none
  | seen k o | advanced k o | placed k o _ _ => some (k, o)

/-- What was read is still so. -/
def Reads (φ : Numbering) (b : Book) : Prop := ∀ k o, φ.number = some (k, o) → b.next k = some o

/-- Nothing has the number. -/
def Blank (φ : Numbering) (b : Book) : Prop :=
  ∀ x, φ.number = some x → b.olCnt x = none ∧ b.lines x = []

/-- The book with what the transaction has written. -/
def book (φ : Numbering) (b : Book) : Book :=
  match φ with
  | free | seen _ _ => b
  | advanced k o => { b with next := Function.update b.next k (some (o + 1)) }
  | placed k o olCnt lines => {
      next := Function.update b.next k (some (o + 1))
      olCnt := Function.update b.olCnt (k, o) (some olCnt)
      lines := Function.update b.lines (k, o) (lineNumbers lines) }

/-- The phase behind a statement that writes. -/
inductive Goes : Numbering → WriteStmt → Numbering → Prop
  | quiet {φ : Numbering} {w : WriteStmt} (h : ∀ b : Book, b.write w = b) : Goes φ w φ
  | advance (k : DistrictKey) (o : Int) : Goes (seen k o) (.setNextOId k (o + 1)) (advanced k o)
  | place {k : DistrictKey} {o : Int} {r : Order} (hr : r.key = (k, o)) :
      Goes (advanced k o) (.insertOrder r) (placed k o r.oOlCnt 0)
  | line {k : DistrictKey} {o olCnt : Int} {lines : Nat} {r : OrderLine} (hr : r.order = (k, o))
      (hn : r.olNumber = 1 + lines) :
      Goes (placed k o olCnt lines) (.insertOrderLine r) (placed k o olCnt (lines + 1))

/-- What a commit says: an order has all of its lines. -/
inductive Says : Numbering → Done → Prop
  | paid (k : DistrictKey × Int) (hAmount : ℚ) : Says free (.paid k hAmount)
  | delivered (k : DistrictKey × Int) : Says free (.delivered k)
  | ordered (k : DistrictKey) (o olCnt : Int) : Says (placed k o olCnt olCnt.toNat) (.ordered (k, o))

/-- A program's phases, whatever it finds. -/
def Tracks : Numbering → Statements → Prop
  | φ, .ret => φ = free
  | _, .rollback => True
  | φ, .select next => ∀ t, Tracks φ (next t)
  | φ, .forUpdate rows next => ∀ t, Tracks φ (next t) ∨ ∃ k o, φ = free ∧
      .district k ∈ rows t ∧ t.book.next k = some o ∧ Tracks (seen k o) (next t)
  | φ, .write w next => ∃ φ', Goes φ w φ' ∧ Tracks φ' next
  | φ, .commit entry next => Says φ entry ∧ Tracks free next

end Numbering

/-! ## The three programs -/

section

variable {φ : Numbering}

theorem tracks_fetched {α : Type} {row : Option α} {next : α → Statements}
    (h : ∀ r, row = some r → φ.Tracks (next r)) : φ.Tracks (fetched row next) := by
  cases row with
  | none => trivial
  | some r => exact h r rfl

theorem tracks_quiet {w : WriteStmt} {next : Statements} (hw : ∀ b : Book, b.write w = b)
    (h : φ.Tracks next) : φ.Tracks (.write w next) :=
  ⟨φ, .quiet hw, h⟩

theorem tracks_delivery (a : DeliveryArgs) (ds : List Int) (olTotal : ℚ) :
    Numbering.free.Tracks (deliveryStatements a ds olTotal) := by
  induction ds generalizing olTotal with
  | nil => rfl
  | cons dId ds ih =>
    intro t
    dsimp only
    split
    · exact ih olTotal
    · refine tracks_quiet (fun _ => rfl) fun t' => tracks_fetched fun cId _ => ?_
      refine tracks_quiet (fun _ => rfl) (tracks_quiet (fun _ => rfl) fun t'' => ?_)
      exact tracks_quiet (fun _ => rfl) ⟨.delivered _, ih _⟩

theorem tracks_payment (a : PaymentArgs) : Numbering.free.Tracks (paymentStatements a) := by
  have hcustomer : ∀ cId wName dName, Numbering.free.Tracks (
      let k := (a.customerDistrict, cId)
      .forUpdate (fun t => WriteStmt.found t.customer k (.customer k)) fun t =>
      fetched (t.customer.find? k) fun customer =>
      paymentBalanceStatements k (customer.cBalance + a.hAmount) customer.cCredit <|
      .write (.insertHistory ⟨cId, a.cDId, a.cWId, a.dId, a.wId, a.datetime, a.hAmount,
        hData wName dName⟩) <|
      .commit (.paid k a.hAmount) .ret) := by
    refine fun cId wName dName t => .inl (tracks_fetched fun customer _ => ?_)
    unfold paymentBalanceStatements
    split
    · refine fun t => tracks_fetched fun cData _ => tracks_quiet (fun _ => rfl) ?_
      exact tracks_quiet (fun _ => rfl) ⟨.paid _ _, rfl⟩
    · exact tracks_quiet (fun _ => rfl) (tracks_quiet (fun _ => rfl) ⟨.paid _ _, rfl⟩)
  refine tracks_quiet (fun _ => rfl) fun t => tracks_fetched fun wName _ => ?_
  refine tracks_quiet (fun _ => rfl) fun t' => tracks_fetched fun dName _ => ?_
  unfold paymentCustomerStatements
  split
  · exact fun t t' => tracks_fetched fun cId _ => hcustomer cId wName dName
  · exact hcustomer a.cId wName dName

/-- The lines from one number on. -/
theorem tracks_newordLines (a : NewordArgs) (x : OrderContext) {next : Statements} {olCnt : Int}
    (seq : List Nat) (lines : Nat)
    (hnext : (Numbering.placed a.district x.oId olCnt (lines + seq.length)).Tracks next) :
    (Numbering.placed a.district x.oId olCnt lines).Tracks
      (newordLinesStatements a x next (1 + lines) seq) := by
  induction seq generalizing lines with
  | nil => exact hnext
  | cons i seq ih =>
    refine fun t => tracks_fetched fun item _ t' => .inl (tracks_fetched fun stock _ => ?_)
    refine tracks_quiet (fun _ => rfl) ⟨_, .line rfl rfl, ?_⟩
    rw [List.length_cons, Nat.add_comm seq.length, ← Nat.add_assoc] at hnext
    have hrest := ih (lines + 1) hnext
    rwa [Nat.cast_add, Nat.cast_one, ← Int.add_assoc] at hrest

theorem tracks_neword (a : NewordArgs) : Numbering.free.Tracks (newordStatements a) := by
  refine fun t => tracks_fetched fun warehouse _ => tracks_fetched fun customer _ t' => ?_
  cases hd : t'.district.find? a.district with
  | none =>
    refine .inl ?_
    beta_reduce
    rw [hd]
    trivial
  | some district =>
    refine .inr ⟨a.district, district.dNextOId, rfl, ?_, ?_, ?_⟩
    · simp [WriteStmt.found, hd]
    · simp [Database.book, hd]
    · beta_reduce
      rw [hd]
      refine ⟨_, .advance _ _, _, .place rfl, tracks_quiet (fun _ => rfl) ?_⟩
      refine tracks_fetched fun seq hseq => ?_
      obtain ⟨seq', hseq', hperm⟩ := olNumSeq_perm a
      obtain rfl : seq' = seq := Option.some.inj (hseq'.symm.trans hseq)
      refine tracks_newordLines a ⟨district.dNextOId, _, _, _⟩ seq' 0 ⟨?_, rfl⟩
      rw [Nat.zero_add, hperm.length_eq, List.length_range]
      exact .ordered _ _ _

theorem tracks_statements (p : Transaction) : Numbering.free.Tracks p.statements := by
  cases p with
  | delivery a stale => exact tracks_delivery a districts stale
  | payment a => exact tracks_payment a
  | neword a => exact tracks_neword a

end

/-! ## What the statements of a program make of the book -/

section

variable {φ φ' : Numbering} {w : WriteStmt} {b b' : Book}

theorem lineNumbers_succ (lines : Nat) :
    lineNumbers (lines + 1) = lineNumbers lines ++ [(1 : Int) + lines] := by
  rw [lineNumbers, List.range_succ, List.map_append]
  rfl

theorem notMem_lineNumbers (lines : Nat) : (1 : Int) + lines ∉ lineNumbers lines := by
  rw [lineNumbers, List.mem_map]
  rintro ⟨i, hi, heq⟩
  rw [List.mem_range] at hi
  omega

theorem Numbering.Goes.number_eq (h : φ.Goes w φ') : φ'.number = φ.number := by
  cases h <;> rfl

/-- The next numbers go by the next numbers alone. -/
theorem next_write (h : b.next = b'.next) : (b.write w).next = (b'.write w).next := by
  cases w <;> simp [Book.write, h]

theorem Numbering.Goes.next (h : φ.Goes w φ') (hreads : φ'.Reads b) :
    ((φ.book b).write w).next = (φ'.book b).next := by
  cases h with
  | quiet h => rw [h]
  | advance k o =>
    have hk := hreads k o rfl
    funext j
    by_cases hj : j = k
    · simp [Numbering.book, Book.write, hj, hk]
    · simp [Numbering.book, Book.write, hj]
  | place hr => rfl
  | line hr hn => rfl

theorem Numbering.Goes.book (h : φ.Goes w φ') (hreads : φ'.Reads b) (hblank : φ'.Blank b) :
    (φ.book b).write w = φ'.book b := by
  have hnext := h.next hreads
  cases h with
  | quiet h => exact h _
  | advance k o => exact congrArg (fun next => { b with next }) hnext
  | @place k o r hr =>
    obtain ⟨hcnt, hlines⟩ := hblank (k, o) rfl
    simp only [Numbering.book, Book.write, hr]
    congr 1
    · funext j
      by_cases hj : j = (k, o)
      · simp [hj, hcnt]
      · simp [hj]
    · rw [lineNumbers, List.range_zero, List.map_nil, ← hlines, Function.update_eq_self]
  | @line k o olCnt lines r hr hn =>
    simp only [Numbering.book, Book.write, hr, hn]
    congr 1
    funext j
    by_cases hj : j = (k, o)
    · subst hj
      simp [notMem_lineNumbers, lineNumbers_succ]
    · simp [hj]

end

/-- A connection beside the database. -/
structure InNumbering (t : Database) (x : Client) (φ : Numbering) : Prop where
  prog : φ.Tracks x.prog
  next : ∀ b : Book, φ.Reads b → (b.writeAll x.writes).next = (φ.book b).next
  book : ∀ b : Book, φ.Reads b → φ.Blank b → b.writeAll x.writes = φ.book b
  reads : φ.Reads t.book
  locked : ∀ k o, φ.number = some (k, o) → .district k ∈ x.locks

section

variable {t : Database} {x : Client} {φ φ' : Numbering}

theorem inNumbering_outside {prog : Statements} (h : Numbering.free.Tracks prog) :
    InNumbering t (.outside prog) .free :=
  ⟨h, fun _ _ => rfl, fun _ _ _ => rfl, nofun, nofun⟩

theorem Numbering.reads_of_number (h : φ'.number = φ.number) {b : Book} (hreads : φ'.Reads b) :
    φ.Reads b := fun k o hk => hreads k o (h.trans hk)

theorem Numbering.blank_of_number (h : φ'.number = φ.number) {b : Book} (hblank : φ'.Blank b) :
    φ.Blank b := fun k hk => hblank k (h.trans hk)

end

/-! ## The log -/

/-- The orders of a district, in the order of their commits. -/
def orderedOf (k : DistrictKey) (log : List Done) : List Int :=
  log.filterMap fun
    | .ordered (j, o) => if j = k then some o else none
    | _ => none

/-- What the log says of the book, which was `b₀` at the start. -/
structure Numbered (b₀ b : Book) (log : List Done) : Prop where
  next : ∀ k, b.next k = (b₀.next k).map fun first : Int => first + (orderedOf k log).length
  /-- No number is left out, and none comes twice. -/
  numbers : ∀ k, orderedOf k log = (b₀.next k).elim [] fun first =>
    (List.range (orderedOf k log).length).map fun i : Nat => first + i
  /-- An order that was committed is there, with its lines. -/
  new : ∀ k, ∀ o ∈ orderedOf k log, ∃ olCnt, b.olCnt (k, o) = some olCnt ∧
    b.lines (k, o) = lineNumbers olCnt.toNat
  /-- Nothing else is. -/
  old : ∀ k o, o ∉ orderedOf k log →
    b.olCnt (k, o) = b₀.olCnt (k, o) ∧ b.lines (k, o) = b₀.lines (k, o)

/-- From the next number of a district on there are neither orders nor lines. -/
def Fresh (b : Book) : Prop :=
  ∀ k first, b.next k = some first → ∀ o, first ≤ o → b.olCnt (k, o) = none ∧ b.lines (k, o) = []

section

variable {b₀ b : Book} {log : List Done} {φ : Numbering} {entry : Done}

theorem orderedOf_append (k : DistrictKey) :
    orderedOf k (log ++ [entry]) = orderedOf k log ++ orderedOf k [entry] :=
  List.filterMap_append

theorem orderedOf_ordered (k j : DistrictKey) (o : Int) :
    orderedOf j [.ordered (k, o)] = if k = j then [o] else [] := by
  by_cases h : k = j
  · simp [orderedOf, h]
  · simp [orderedOf, h]

/-- The number of the next order of a district is none of those that are there. -/
theorem Numbered.notMem (h : Numbered b₀ b log) {k : DistrictKey} {o o' : Int}
    (ho : b.next k = some o) (hle : o ≤ o') : o' ∉ orderedOf k log := by
  rw [h.next] at ho
  obtain ⟨first, hfirst, rfl⟩ := Option.map_eq_some_iff.mp ho
  rw [h.numbers k, hfirst, Option.elim_some, List.mem_map]
  rintro ⟨i, hi, rfl⟩
  rw [List.mem_range] at hi
  omega

/-- What a commit leaves is blank from its next numbers on. -/
theorem Numbered.fresh (h : Numbered b₀ b log) (hfresh : Fresh b₀) : Fresh b := by
  intro k o ho o' hle
  obtain ⟨hcnt, hlines⟩ := h.old k o' (h.notMem ho hle)
  rw [h.next] at ho
  obtain ⟨first, hfirst, rfl⟩ := Option.map_eq_some_iff.mp ho
  rw [hcnt, hlines]
  exact hfresh k first hfirst o' (by omega)

/-- A commit that says nothing of orders. -/
theorem Numbered.quiet (h : Numbered b₀ b log) (hentry : ∀ k, orderedOf k [entry] = []) :
    Numbered b₀ b (log ++ [entry]) := by
  have hsame : ∀ k, orderedOf k (log ++ [entry]) = orderedOf k log := fun k => by
    rw [orderedOf_append, hentry, List.append_nil]
  refine ⟨fun k => ?_, fun k => ?_, fun k o ho => ?_, fun k o ho => ?_⟩
  · rw [hsame]
    exact h.next k
  · rw [hsame]
    exact h.numbers k
  · rw [hsame] at ho
    exact h.new k o ho
  · rw [hsame] at ho
    exact h.old k o ho

/-- The commit of an order puts it behind the others of its district. -/
theorem Numbered.ordered (h : Numbered b₀ b log) {k : DistrictKey} {o : Int} (olCnt : Int)
    (ho : b.next k = some o) :
    Numbered b₀ ((Numbering.placed k o olCnt olCnt.toNat).book b) (log ++ [.ordered (k, o)]) := by
  have hnew : o ∉ orderedOf k log := h.notMem ho (le_refl o)
  have hlog : ∀ j, orderedOf j (log ++ [.ordered (k, o)]) =
      orderedOf j log ++ if k = j then [o] else [] := fun j => by
    rw [orderedOf_append, orderedOf_ordered]
  obtain ⟨first, hfirst, rfl⟩ := Option.map_eq_some_iff.mp ((h.next k).symm.trans ho)
  refine ⟨fun j => ?_, fun j => ?_, fun j o' ho' => ?_, fun j o' ho' => ?_⟩
  · rw [hlog]
    by_cases hj : j = k
    · subst hj
      simp [Numbering.book, hfirst]
      omega
    · simp [Numbering.book, hj, Ne.symm hj, h.next j]
  · rw [hlog]
    by_cases hj : j = k
    · subst hj
      have hnumbers := h.numbers j
      rw [hfirst, Option.elim_some] at hnumbers ⊢
      rw [if_pos rfl, List.length_append, List.length_singleton, List.range_succ, List.map_append,
        ← hnumbers]
      rfl
    · rw [if_neg (Ne.symm hj), List.append_nil]
      exact h.numbers j
  · rw [hlog, List.mem_append] at ho'
    simp only [Numbering.book]
    by_cases hjo : (j, o') = (k, first + (orderedOf k log).length)
    · rw [hjo, Function.update_self, Function.update_self]
      exact ⟨olCnt, rfl, rfl⟩
    · rw [Function.update_of_ne hjo, Function.update_of_ne hjo]
      refine h.new j o' (ho'.resolve_right fun hmem => hjo ?_)
      split at hmem
      · rename_i hkj
        rw [List.mem_singleton.mp hmem, hkj]
      · cases hmem
  · rw [hlog, List.mem_append, not_or] at ho'
    have hjo : (j, o') ≠ (k, first + (orderedOf k log).length) := by
      rintro heq
      obtain ⟨rfl, rfl⟩ := Prod.mk.inj heq
      simp at ho'
    simp only [Numbering.book]
    rw [Function.update_of_ne hjo, Function.update_of_ne hjo]
    exact h.old j o' ho'.1

theorem Numbered.commit (h : Numbered b₀ b log) (hsaid : φ.Says entry) (hreads : φ.Reads b) :
    Numbered b₀ (φ.book b) (log ++ [entry]) := by
  cases hsaid with
  | paid k hAmount => exact h.quiet fun _ => rfl
  | delivered k => exact h.quiet fun _ => rfl
  | ordered k o olCnt => exact h.ordered olCnt (hreads k o rfl)

end

/-! ## Runs -/

/-- The rule's hypotheses, one for each kind of step. -/
theorem numberingRule (b₀ : Book) (hfresh : Fresh b₀) :
    ConnectionRule server Transaction.statements (fun _ _ => True)
      (fun t x => ∃ φ, InNumbering t x φ) fun t log => Numbered b₀ t.book log where
  begin := by
    rintro t ⟨_, snapshot, writes, locks⟩ p ⟨φ, h⟩ rfl
    obtain rfl : φ = .free := h.prog
    exact ⟨.free, tracks_statements p, h.next, h.book, h.reads, h.locked⟩
  outside := ⟨.free, inNumbering_outside rfl⟩
  select := by
    rintro t ⟨_, snapshot, writes, locks⟩ next ⟨φ, h⟩ rfl
    exact ⟨φ, h.prog _, h.next, h.book, h.reads, h.locked⟩
  forUpdate := by
    rintro t ⟨_, snapshot, writes, locks⟩ rows next ⟨φ, h⟩ rfl
    have hlocked : ∀ k o, φ.number = some (k, o) →
        .district k ∈ rows (server.applyAll writes t) ++ locks := fun k o hk =>
      List.mem_append_right _ (h.locked k o hk)
    obtain hnext | ⟨k, o, rfl, hrow, ho, hnext⟩ := h.prog (server.applyAll writes t)
    · exact ⟨φ, hnext, h.next, h.book, h.reads, hlocked⟩
    · -- The transaction has left the numbers as they are committed.
      have hreads : t.book.next k = some o := by
        rw [book_applyAll, h.next t.book nofun] at ho
        exact ho
      refine ⟨.seen k o, hnext, fun b _ => h.next b nofun, fun b _ _ => h.book b nofun nofun, ?_, ?_⟩
      · rintro _ _ ⟨⟩
        exact hreads
      · rintro _ _ ⟨⟩
        exact List.mem_append_left _ hrow
  write := by
    rintro t ⟨_, snapshot, writes, locks⟩ w next ⟨φ, h⟩ - rfl -
    obtain ⟨φ', hgoes, hnext⟩ := h.prog
    have hnumber := hgoes.number_eq
    refine ⟨φ', hnext, fun b hb => ?_, fun b hb hblank => ?_, ?_, fun k o hk => ?_⟩
    · rw [Book.writeAll_append, next_write (h.next b (Numbering.reads_of_number hnumber hb))]
      exact hgoes.next hb
    · rw [Book.writeAll_append, h.book b (Numbering.reads_of_number hnumber hb)
        (Numbering.blank_of_number hnumber hblank)]
      exact hgoes.book hb hblank
    · exact Numbering.reads_of_number hnumber.symm h.reads
    · exact List.mem_append_right _ (h.locked k o (hnumber.symm.trans hk))
  commit := by
    rintro t ⟨_, snapshot, writes, locks⟩ entry next log ⟨φ, h⟩ hlog rfl
    obtain ⟨hsaid, hnext⟩ := h.prog
    have hblank : φ.Blank t.book := by
      rintro ⟨k, o⟩ hk
      exact hlog.fresh hfresh k o (h.reads k o hk) o (le_refl o)
    have hbook : (server.applyAll writes t).book = φ.book t.book := by
      rw [book_applyAll]
      exact h.book t.book h.reads hblank
    refine ⟨⟨.free, inNumbering_outside hnext⟩, ?_⟩
    rw [hbook]
    exact hlog.commit hsaid h.reads
  other := by
    rintro t x y entry next ⟨φ, h⟩ ⟨ψ, hy⟩ hprog hapart
    refine ⟨ψ, hy.prog, hy.next, hy.book, fun k o hk => ?_, hy.locked⟩
    have hfree : .district k ∉ x.locks := fun hx => hapart _ hx (hy.locked k o hk)
    rw [book_applyAll, h.next t.book h.reads]
    refine Eq.trans ?_ (hy.reads k o hk)
    cases φ with
    | free => rfl
    | seen j o' => rfl
    | advanced j o' =>
      have hne : k ≠ j := by
        rintro rfl
        exact hfree (h.locked k o' rfl)
      exact Function.update_of_ne hne _ _
    | placed j o' olCnt lines =>
      have hne : k ≠ j := by
        rintro rfl
        exact hfree (h.locked k o' rfl)
      exact Function.update_of_ne hne _ _

/-- Every connection keeps to its phases, and the log says of the book what it should. -/
theorem numbering_inv {n : Nat} {t : Database} {es : List (ConnectionEvent Transaction n)}
    {s : Clients n} (hfresh : Fresh t.book) (hrun : run threadStep es (System.start t) = some s) :
    ConnectionInv (fun t x => ∃ φ, InNumbering t x φ) (fun t' log => Numbered t.book t'.book log)
      s := by
  have hstart : Numbered t.book t.book [] := by
    refine ⟨fun k => ?_, fun k => ?_, fun k o ho => (by cases ho), fun k o _ => ⟨rfl, rfl⟩⟩
    · simp [orderedOf]
    · cases t.book.next k <;> rfl
  refine (numberingRule t.book hfresh).run hstart ?_ hrun
  refine allSteps_of_forall (fun _ _ => ?_) es _
  unfold Connection.FineStep
  split <;> trivial

/-- **The orders are numbered as they are committed**, in every run of deliveries, payments and new
orders of any number of threads, wherever they wait, fail and are rolled back. -/
theorem orders_numbered {n : Nat} {t : Database} {es : List (ConnectionEvent Transaction n)}
    {s : Clients n} (hfresh : Fresh t.book) (hrun : run threadStep es (System.start t) = some s) :
    Numbered t.book s.committed.book s.log := (numbering_inv hfresh hrun).shared

/-! ## A run -/

def newordOfOne : Transaction :=
  .neword ⟨1, 1, 1, 1, 1, fun _ => 1, fun _ => 1, fun _ => 1, "2014-01-02", "dist"⟩

/-- Thread `i` is rolled back with a number in hand, and both order then, one after the other has
the district. -/
def orderedTwice {n : Nat} (i j : Fin n) : List (ConnectionEvent Transaction n) :=
  [.begin i newordOfOne] ++ goes 5 i ++ [.fail i, .begin i newordOfOne, .begin j newordOfOne,
    .go j] ++ goes 10 i ++ goes 9 j

theorem fresh_oneOrder : Fresh (oneOrder [undatedLine 1 1]).book := by
  intro k first hfirst o ho
  obtain ⟨d, hd, rfl⟩ := Option.map_eq_some_iff.mp hfirst
  obtain ⟨hmem, rfl⟩ := Rows.find?_eq_some_iff.mp hd
  obtain rfl := List.mem_singleton.mp hmem
  have hne : ∀ x : DistrictKey × Int, x.2 = 1 → x ≠ ((1, 1), o) := by
    rintro x hx rfl
    have hbig : (2 : Int) ≤ 1 := hx ▸ ho
    exact absurd hbig (by decide)
  refine ⟨Option.map_eq_none_iff.mpr (Rows.find?_eq_none_iff.mpr fun r hr => ?_),
    List.map_eq_nil_iff.mpr (List.filter_eq_nil_iff.mpr fun l hl => ?_)⟩
  · obtain rfl := List.mem_singleton.mp hr
    exact hne _ rfl
  · obtain rfl := List.mem_singleton.mp hl
    exact decide_eq_true_iff.not.mpr (hne _ rfl)

theorem orders_numbered_two : ∃ s,
    run threadStep (orderedTwice 0 1) (System.start (n := 2) (oneOrder [undatedLine 1 1])) =
        some s ∧
      s.log = [.ordered ((1, 1), 2), .ordered ((1, 1), 3)] ∧
      Numbered (oneOrder [undatedLine 1 1]).book s.committed.book s.log := by
  have hlog : (run threadStep (orderedTwice 0 1) (System.start (n := 2)
      (oneOrder [undatedLine 1 1]))).map System.log =
        some [.ordered ((1, 1), 2), .ordered ((1, 1), 3)] := by decide +kernel
  obtain ⟨s, hs, hdone⟩ := Option.map_eq_some_iff.mp hlog
  exact ⟨s, hs, hdone, orders_numbered fresh_oneOrder hs⟩

end TokuQa.Tpcc
