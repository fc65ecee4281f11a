import TokuQa.Tpcc.LoadConsistency
import TokuQa.Tpcc.OrderNumbers
import TokuQa.Tpcc.YearToDate

/-!
# What is loaded, and what becomes of it

`tpcc_load` fills the tables, and the threads of `tpcc_start` run on them. `Whole` is what may be
said of the tables at any time from then on: the orders of each district are numbered from 1 up to
`d_next_o_id`, each has its lines and no line is without its order, `d_ytd` is what `history` has
for the district, and `w_ytd` is what the districts have and a constant beside. A load makes the
tables whole, and they stay so (`loaded_run_whole`).

The constant should be 0: `LoadWare` makes it 2700000, and nothing that is done later changes it.
-/

set_option autoImplicit false

namespace TokuQa.Tpcc

open TokuQa.Lib

/-! ## Whole tables -/

/-- The orders of each district are 1 up to the next number, each with its lines. -/
structure Book.Whole (b : Book) : Prop where
  one_le : ∀ k next, b.next k = some next → 1 ≤ next
  orders : ∀ k o, (b.olCnt (k, o)).isSome = true ↔
    ∃ next, b.next k = some next ∧ 1 ≤ o ∧ o < next
  lines : ∀ k olCnt, b.olCnt k = some olCnt → b.lines k = lineNumbers olCnt.toNat
  ofOrder : ∀ k, b.olCnt k = none → b.lines k = []

/-- The tables, with so much that a warehouse has beside what its districts have. -/
structure Whole (surplus : ℚ) (t : Database) : Prop where
  book : t.book.Whole
  dYtd : ∀ d ∈ t.district, d.dYtd = districtHistory d.key t
  wYtd : ∀ w ∈ t.warehouse, w.wYtd = districtsYtd w.wId t + surplus

/-! ## They stay so -/

section

variable {b₀ b : Book} {log : List Done}

theorem Book.Whole.fresh (h : b.Whole) : Fresh b := by
  intro k first hfirst o ho
  have hnone : b.olCnt (k, o) = none := by
    refine Option.not_isSome_iff_eq_none.mp fun hsome => ?_
    obtain ⟨next, hnext, -, hlt⟩ := (h.orders k o).mp hsome
    obtain rfl : first = next := Option.some.inj (hfirst.symm.trans hnext)
    omega
  exact ⟨hnone, h.ofOrder _ hnone⟩

/-- The orders that are committed are those from the first number on. -/
theorem Numbered.mem_iff (h : Numbered b₀ b log) (k : DistrictKey) (o : Int) :
    o ∈ orderedOf k log ↔ ∃ first, b₀.next k = some first ∧ first ≤ o ∧
      o < first + (orderedOf k log).length := by
  constructor
  · intro ho
    have hnumbers := h.numbers k
    cases hfirst : b₀.next k with
    | none =>
      rw [hfirst, Option.elim_none] at hnumbers
      rw [hnumbers] at ho
      cases ho
    | some first =>
      rw [hfirst, Option.elim_some] at hnumbers
      rw [hnumbers, List.mem_map] at ho
      obtain ⟨i, hi, rfl⟩ := ho
      rw [List.mem_range] at hi
      exact ⟨first, rfl, by omega, by omega⟩
  · rintro ⟨first, hfirst, hle, hlt⟩
    rw [h.numbers k, hfirst, Option.elim_some, List.mem_map]
    refine ⟨(o - first).toNat, ?_, by omega⟩
    rw [List.mem_range]
    omega

theorem Numbered.whole (h : Numbered b₀ b log) (h₀ : b₀.Whole) : b.Whole := by
  refine ⟨fun k next hnext => ?_, fun k o => ?_, fun k olCnt hcnt => ?_, fun k hnone => ?_⟩
  · rw [h.next] at hnext
    obtain ⟨first, hfirst, rfl⟩ := Option.map_eq_some_iff.mp hnext
    have hone := h₀.one_le k first hfirst
    omega
  · by_cases ho : o ∈ orderedOf k log
    · obtain ⟨olCnt, hcnt, -⟩ := h.new k o ho
      obtain ⟨first, hfirst, hle, hlt⟩ := (h.mem_iff k o).mp ho
      have hone := h₀.one_le k first hfirst
      rw [h.next, hfirst, hcnt]
      simp only [Option.isSome_some, Option.map_some, Option.some.injEq, exists_eq_left', true_iff]
      omega
    · rw [(h.old k o ho).1, h₀.orders, h.next]
      rw [h.mem_iff] at ho
      cases hfirst : b₀.next k with
      | none => simp
      | some first =>
        simp only [hfirst, Option.some.injEq, exists_eq_left', not_and, not_lt] at ho
        simp only [Option.map_some, Option.some.injEq, exists_eq_left']
        omega
  · by_cases ho : k.2 ∈ orderedOf k.1 log
    · obtain ⟨olCnt', hcnt', hlines⟩ := h.new k.1 k.2 ho
      obtain rfl : olCnt' = olCnt := Option.some.inj (hcnt'.symm.trans hcnt)
      exact hlines
    · obtain ⟨hcnt', hlines⟩ := h.old k.1 k.2 ho
      exact hlines.trans (h₀.lines k olCnt (hcnt'.symm.trans hcnt))
  · by_cases ho : k.2 ∈ orderedOf k.1 log
    · obtain ⟨olCnt, hcnt, -⟩ := h.new k.1 k.2 ho
      exact absurd (hcnt.symm.trans hnone) (Option.some_ne_none olCnt)
    · obtain ⟨hcnt, hlines⟩ := h.old k.1 k.2 ho
      exact hlines.trans (h₀.ofOrder k (hcnt.symm.trans hnone))

end

section

variable {surplus : ℚ} {t t' : Database} {log : List Done} {new : List History}

theorem districtHistory_eq_paidAt (k : DistrictKey) : districtHistory k t = paidAt k t.history :=
  rfl

theorem paidAt_append (k : DistrictKey) (h h' : List History) :
    paidAt k (h ++ h') = paidAt k h + paidAt k h' := by
  rw [paidAt, List.map_append, List.sum_append]
  rfl

/-- A payment goes to both sides. -/
theorem Whole.paid (h : Whole surplus t) (hbook : t'.book.Whole)
    (hpaid : PaymentsCounted t t' log new) : Whole surplus t' := by
  refine ⟨hbook, fun d hd => ?_, fun w hw => ?_⟩
  · have hfound := hpaid.district d.key
    rw [Rows.find?_eq_some_iff.mpr ⟨hd, rfl⟩, Option.map_some, eq_comm] at hfound
    obtain ⟨d₀, hd₀, hsum⟩ := Option.map_eq_some_iff.mp hfound
    obtain ⟨hmem, hkey⟩ := Rows.find?_eq_some_iff.mp hd₀
    rw [districtHistory_eq_paidAt, hpaid.grows.history, paidAt_append, ← hsum, h.dYtd d₀ hmem, hkey]
    rfl
  · have hthere : t'.warehouse.find? w.wId = some w := Rows.find?_eq_some_iff.mpr ⟨hw, rfl⟩
    have hfound := hpaid.grows.warehouse w.wId
    rw [hthere, Option.map_some, eq_comm] at hfound
    obtain ⟨w₀, hw₀, hsum⟩ := Option.map_eq_some_iff.mp hfound
    obtain ⟨hmem, hkey⟩ := Rows.find?_eq_some_iff.mp hw₀
    have hid : w₀.wId = w.wId := hkey
    rw [hpaid.grows.districts, ← hsum, h.wYtd w₀ hmem, hid]
    ring

theorem Whole.run {n : Nat} {es : List (ConnectionEvent Transaction n)} {s : Clients n}
    (h : Whole surplus t) (hrun : run threadStep es (System.start t) = some s) :
    Whole surplus s.committed := by
  obtain ⟨new, hbooked, hpaid⟩ := (paying_inv hrun).committed
  have hnumbered := (numbering_inv h.book.fresh hrun).shared
  exact h.paid (hnumbered.whole h.book) (hbooked.counted hpaid)

end

/-! ## What is loaded -/

theorem upTo_eq_lineNumbers (n : Nat) : upTo n = lineNumbers n :=
  List.map_congr_left fun i _ => Int.add_comm i 1

section

variable {d : LoadDraws} {now : String} {minWare maxWare : Int} {t : Database}

/-- The lines of an order, as they were put in. -/
theorem LoadedOnce.lines (h : LoadedOnce minWare maxWare t) (k : DistrictKey × Int) :
    t.book.lines k = t.orders.rows.flatMap fun r =>
      if r.key = k then lineNumbers r.oOlCnt.toNat else [] := by
  have hkeys : t.book.lines k =
      ((t.orderLine.rows.map OrderLine.key).filter fun x => x.1 = k).map Prod.snd := by
    rw [List.filter_map, List.map_map]
    rfl
  rw [hkeys, h.orderLine, List.filter_flatMap, List.map_flatMap]
  refine List.flatMap_congr fun r _ => ?_
  rw [List.filter_map, List.map_map]
  by_cases hk : r.key = k
  · simp [hk, Function.comp_def, upTo_eq_lineNumbers]
  · simp [hk, Function.comp_def]

theorem LoadedWith.next_eq (h : LoadedWith d now minWare maxWare t) (k : DistrictKey) :
    t.book.next k = if k ∈ districtsOf minWare maxWare then some 3001 else none := by
  cases hfound : t.district.find? k with
  | some r =>
    obtain ⟨hr, rfl⟩ := Rows.find?_eq_some_iff.mp hfound
    obtain ⟨hk, -, hnext⟩ := h.mem_district hr
    rw [if_pos hk, ← hnext]
    exact congrArg (Option.map District.dNextOId) hfound
  | none =>
    have hk : k ∉ districtsOf minWare maxWare := by
      intro hk
      rw [← h.once.district] at hk
      obtain ⟨r, hr, hkey⟩ := List.mem_map.mp hk
      exact Rows.find?_eq_none_iff.mp hfound r hr hkey
    rw [if_neg hk]
    exact congrArg (Option.map District.dNextOId) hfound

theorem olCnt_isSome (k : DistrictKey × Int) : (t.book.olCnt k).isSome = true ↔ HasOrderRow t k := by
  rw [Database.book, Option.isSome_map, Option.isSome_iff_exists]
  simp only [Rows.find?_eq_some_iff]
  rfl

theorem LoadedWith.book_whole (h : LoadedWith d now minWare maxWare t) : t.book.Whole := by
  have hnext := h.next_eq
  refine ⟨fun k next hk => ?_, fun k o => ?_, fun k olCnt hcnt => ?_, fun k hnone => ?_⟩
  · rw [hnext] at hk
    split at hk
    case isTrue =>
      cases hk
      decide
    case isFalse => cases hk
  · rw [olCnt_isSome, h.hasOrderRow, hnext]
    have hlast : (ordPerDist : Int) = 3000 := rfl
    by_cases hk : k ∈ districtsOf minWare maxWare
    · simp only [hk, true_and, if_true, Option.some.injEq, exists_eq_left', hlast]
      omega
    · simp [hk]
  · obtain ⟨r, hr, rfl⟩ := Option.map_eq_some_iff.mp hcnt
    obtain ⟨hmem, rfl⟩ := Rows.find?_eq_some_iff.mp hr
    rw [h.once.lines, Rows.flatMap_of_one (t.orders.nodup.of_map Order.key) hmem, if_pos rfl]
    intro r' hr' hne
    exact if_neg fun hk => hne (Rows.eq_of_key hr' hmem hk)
  · have hgone := Rows.find?_eq_none_iff.mp (Option.map_eq_none_iff.mp hnone)
    rw [h.once.lines]
    exact List.flatMap_eq_nil_iff.mpr fun r hr => if_neg (hgone r hr)

theorem LoadedWith.whole (h : LoadedWith d now minWare maxWare t) : Whole 2700000 t := by
  refine ⟨h.book_whole, h.orders_consistent.dYtd, fun w hw => ?_⟩
  rw [Rows.mem_def, h.warehouse] at hw
  obtain ⟨wId, hwId, rfl⟩ := List.mem_map.mp hw
  have hytd : (wareRow (d.ware wId) wId).wYtd = 3000000 := rfl
  have hid : (wareRow (d.ware wId) wId).wId = wId := rfl
  rw [hytd, hid, h.districtsYtd_eq hwId]
  norm_num

end

/-- **The tables are whole at any time**: behind every load, whatever it draws and wherever its
statements fail, in every run of deliveries, payments and new orders of any number of threads. -/
theorem loaded_run_whole {draws : Nat → LoadDraws} {now : String} {minWare maxWare : Int}
    {fails : List Bool} {fuel n : Nat} {l : Loading Database}
    {es : List (ConnectionEvent Transaction n)} {s : Clients n}
    (hload : load draws now minWare maxWare fuel (started fails) = some l)
    (hrun : run threadStep es (System.start l.conn.committed) = some s) :
    Whole 2700000 s.committed := by
  obtain ⟨items, ware, cust, ord, happly⟩ := load_eq_some (s := started fails) rfl hload
  exact (loadedWith_of_applyAll happly).whole.run hrun

/-- The first statement of the load fails, and the first payment is rolled back. -/
theorem loaded_run_whole_one : ∃ l s,
    load (fun _ => zeroDraws) "2014-01-01 00:00:00" 1 1 2 (started [true]) = some l ∧
      run threadStep [.begin 0 (payOf 7), .go 0, .fail 0]
        (System.start (n := 1) l.conn.committed) = some s ∧
      Whole 2700000 s.committed := by
  obtain ⟨l, hl⟩ : ∃ l, load (fun _ => zeroDraws) "2014-01-01 00:00:00" 1 1 2 (started [true]) =
      some l := load_ends rfl (fun _ => applyAll_allInserts_isSome) (by decide)
  obtain ⟨s, hs⟩ : ∃ s, run threadStep [.begin 0 (payOf 7), .go 0, .fail 0]
      (System.start (n := 1) l.conn.committed) = some s := ⟨_, rfl⟩
  have hwhole := loaded_run_whole hl hs
  exact ⟨l, s, hl, hs, hwhole⟩

end TokuQa.Tpcc
