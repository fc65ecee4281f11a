import Mathlib.Data.Prod.Lex
import TokuQa.Lib.Selection
import TokuQa.Tpcc.Neword

/-!
# The order of the locks of `neword.c`

A new order reads its stock rows `FOR UPDATE`, in the order of its lines after the sort, which is
there `to avoid DeadLock`. The key is an `int`, made of the warehouse and the item, and it
overflows from warehouse 21474 on: lines that overflow come first, and among themselves, like the
others, they are in the order of warehouses and items (`LockLe`). No two rows have the same key. So
the order is not that of warehouses and items, but it is one order, and two orders lock the
rows they share in the same order (`locks_agree`).
-/

set_option autoImplicit false

namespace TokuQa.Tpcc

open TokuQa.Lib

namespace NewordArgs

/-- The stock row of a line. -/
def stockRow (a : NewordArgs) (i : Nat) : Int × Int := (a.supware i, a.itemid i)

/-- An order that the driver can make, for any number of warehouses a `smallint` can hold. -/
structure Lockable (a : NewordArgs) : Prop where
  count : a.oOlCnt ≤ maxNumItems
  supware : ∀ i < a.oOlCnt.toNat, 1 ≤ a.supware i ∧ a.supware i ≤ 32767
  itemid : ∀ i < a.oOlCnt.toNat, 1 ≤ a.itemid i ∧ a.itemid i ≤ maxItems + 1

end NewordArgs

/-- A stock row that there may be, or that of the item that does not exist. -/
def ValidRow (k : Int × Int) : Prop :=
  (1 ≤ k.1 ∧ k.1 ≤ 32767) ∧ 1 ≤ k.2 ∧ k.2 ≤ maxItems + 1

/-- The key of the row is no `int`. -/
def Overflows (k : Int × Int) : Prop := 2 ^ 31 ≤ (maxItems + 1) * k.1 + k.2

/-- The order of the locks: first the rows with a key that overflows, and in either part the order
of warehouses and items. -/
def LockLe (k k' : Int × Int) : Prop :=
  Overflows k ∧ ¬ Overflows k' ∨ (Overflows k ↔ Overflows k') ∧ toLex k ≤ toLex k'

/-- The key of a row. -/
def rowKey (k : Int × Int) : Int := wrap32 ((maxItems + 1) * k.1 + k.2)

/-! ## The sort -/

section

variable {key : Nat → Int} {seq seq' : List Nat} {i : Nat}

/-- The inner loop finds the least element of the rest. -/
theorem minPlace_least {n j : Nat} {minNum m : Nat} (hj : j + n = seq.length) (hij : i ≤ j)
    (hi : i ≤ minNum) (hm : minNum < seq.length)
    (hmin : ∀ (q : Nat) (hq : q < seq.length), i ≤ q → q < j → key seq[minNum] ≤ key seq[q])
    (h : minPlace key seq n j (key seq[minNum]) minNum = some m) :
    i ≤ m ∧ ∃ hm : m < seq.length,
      ∀ (q : Nat) (hq : q < seq.length), i ≤ q → key seq[m] ≤ key seq[q] := by
  induction n generalizing j minNum with
  | zero =>
    cases h
    exact ⟨hi, hm, fun q hq hiq => hmin q hq hiq (by omega)⟩
  | succ n ih =>
    have hlt : j < seq.length := by omega
    rw [minPlace] at h
    simp only [List.getElem?_eq_getElem hlt, Option.bind_eq_bind, Option.bind_some] at h
    split at h
    · rename_i hless
      refine ih (by omega) (by omega) hij hlt (fun q hq hiq hqj => ?_) h
      rcases Nat.lt_succ_iff_lt_or_eq.mp hqj with hqj | rfl
      · exact hless.le.trans (hmin q hq hiq hqj)
      · exact le_rfl
    · rename_i hge
      refine ih (by omega) (by omega) hi hm (fun q hq hiq hqj => ?_) h
      rcases Nat.lt_succ_iff_lt_or_eq.mp hqj with hqj | rfl
      · exact hmin q hq hiq hqj
      · exact not_lt.mp hge

/-- The outer loop, from an array that is in order up to `i`. -/
theorem sortSeq_sorted {n : Nat} (hn : seq.length ≤ i + n + 1) (hfit : i + n < seq.length ∨ n = 0)
    (hsel : SelectedTo key i seq) (h : sortSeq key n i seq = some seq') :
    seq'.Pairwise fun x y => key x ≤ key y := by
  induction n generalizing i seq with
  | zero =>
    cases h
    exact pairwise_of_selectedTo hsel hn
  | succ n ih =>
    have hi : i < seq.length := by omega
    rw [sortSeq] at h
    simp only [List.getElem?_eq_getElem hi, Option.bind_eq_bind, Option.bind_some] at h
    obtain ⟨m, hm, h⟩ := Option.bind_eq_some_iff.mp h
    obtain ⟨him, hlt, hmin⟩ : i ≤ m ∧ ∃ hlt : m < seq.length,
        ∀ (q : Nat) (hq : q < seq.length), i ≤ q → key seq[m] ≤ key seq[q] := by
      refine minPlace_least (by omega) (Nat.le_succ i) le_rfl hi (fun q hq hiq hqi => ?_) hm
      obtain rfl : i = q := by omega
      exact le_rfl
    split at h
    · obtain ⟨seq₁, hswap, h⟩ := Option.bind_eq_some_iff.mp h
      obtain ⟨seq₂, hswap', hperm⟩ := exchange_perm hi hlt
      obtain rfl := Option.some.inj (hswap.symm.trans hswap')
      have hlength := hperm.length_eq
      exact ih (by omega) (by omega) (selectedTo_exchange hsel him hlt hmin hswap) h
    · rename_i hsame
      obtain rfl : m = i := not_not.mp hsame
      exact ih (by omega) (by omega) (selectedTo_stay hsel hi hmin) h

end

theorem olNumSeq_sorted {a : NewordArgs} {seq : List Nat} (h : olNumSeq a = some seq) :
    seq.Pairwise fun x y => a.sortKey x ≤ a.sortKey y := by
  refine sortSeq_sorted ?_ ?_ (selectedTo_zero a.sortKey _) h <;>
  · rw [List.length_range]
    omega

/-! ## The key -/

section

variable {k k' : Int × Int}

theorem rowKey_cases (hk : ValidRow k) :
    ¬ Overflows k ∧ rowKey k = (maxItems + 1) * k.1 + k.2 ∨
      Overflows k ∧ rowKey k = (maxItems + 1) * k.1 + k.2 - 2 ^ 32 := by
  obtain ⟨⟨hw, hw'⟩, hi, hi'⟩ := hk
  unfold Overflows rowKey maxItems at *
  by_cases hover : (2 : Int) ^ 31 ≤ (100000 + 1) * k.1 + k.2
  · refine .inr ⟨hover, ?_⟩
    rw [wrap32, wrap_of_overflow hover (by omega)]
    omega
  · exact .inl ⟨hover, wrap_eq_self (by omega) (by omega)⟩

/-- As numbers without a bound, the keys are in the order of warehouses and items. -/
theorem toLex_le_iff (hk : ValidRow k) (hk' : ValidRow k') :
    toLex k ≤ toLex k' ↔ (maxItems + 1) * k.1 + k.2 ≤ (maxItems + 1) * k'.1 + k'.2 := by
  obtain ⟨-, hi, hi'⟩ := hk
  obtain ⟨-, hj, hj'⟩ := hk'
  have hlex : toLex k ≤ toLex k' ↔ k.1 < k'.1 ∨ k.1 = k'.1 ∧ k.2 ≤ k'.2 := Prod.Lex.le_iff
  rw [hlex]
  unfold maxItems at *
  omega

/-- **What the sort goes by**: the order of the keys is that of the locks. -/
theorem rowKey_le_iff (hk : ValidRow k) (hk' : ValidRow k') :
    rowKey k ≤ rowKey k' ↔ LockLe k k' := by
  have hlex := toLex_le_iff hk hk'
  rcases rowKey_cases hk with ⟨hno, hkey⟩ | ⟨hover, hkey⟩ <;>
  rcases rowKey_cases hk' with ⟨hno', hkey'⟩ | ⟨hover', hkey'⟩
  · rw [hkey, hkey', ← hlex]
    simp [LockLe, hno, hno']
  · refine iff_of_false ?_ (by simp [LockLe, hno, hover'])
    obtain ⟨⟨hw, -⟩, hi, -⟩ := hk
    obtain ⟨⟨-, hw'⟩, -, hi'⟩ := hk'
    unfold maxItems at *
    omega
  · refine iff_of_true ?_ (.inl ⟨hover, hno'⟩)
    obtain ⟨⟨-, hw⟩, -, hi⟩ := hk
    obtain ⟨⟨hw', -⟩, hi', -⟩ := hk'
    unfold maxItems at *
    omega
  · rw [hkey, hkey', Int.sub_le_sub_right_iff, ← hlex]
    simp [LockLe, hover, hover']

/-- No two rows have the same key. -/
theorem rowKey_injective (hk : ValidRow k) (hk' : ValidRow k') (h : rowKey k = rowKey k') :
    k = k' := by
  have hle := (rowKey_le_iff hk hk').mp h.le
  have hge := (rowKey_le_iff hk' hk).mp h.ge
  rcases hle with ⟨hover, hno⟩ | ⟨hsame, hle⟩
  · rcases hge with ⟨hover', -⟩ | ⟨hsame, -⟩
    · exact absurd hover' hno
    · exact absurd (hsame.mpr hover) hno
  · rcases hge with ⟨hover', hno'⟩ | ⟨-, hge⟩
    · exact absurd (hsame.mpr hover') hno'
    · exact toLex_inj.mp (le_antisymm hle hge)

end

/-! ## The locks -/

section

variable {a : NewordArgs} {seq : List Nat}

/-- The rows of an order are valid. -/
theorem NewordArgs.Lockable.rows (ha : a.Lockable) (h : olNumSeq a = some seq) :
    ∀ k ∈ seq.map a.stockRow, ValidRow k := by
  obtain ⟨seq', hseq', hperm⟩ := olNumSeq_perm a
  obtain rfl := Option.some.inj (h.symm.trans hseq')
  intro k hk
  obtain ⟨i, hi, rfl⟩ := List.mem_map.mp hk
  have hlt := List.mem_range.mp (hperm.mem_iff.mp hi)
  exact ⟨ha.supware i hlt, ha.itemid i hlt⟩

/-- The keys of the rows are in order. -/
theorem rows_sorted (h : olNumSeq a = some seq) :
    (seq.map a.stockRow).Pairwise fun k k' => rowKey k ≤ rowKey k' :=
  List.pairwise_map.mpr (olNumSeq_sorted h)

/-- **New orders lock in one order**: the sort permutes the lines, the rows of the lines are in the
order of the locks, and any two rows that two orders share come in the same order in both. -/
theorem locks_agree (ha : a.Lockable) (b : NewordArgs) :
    ∃ seq seq', olNumSeq a = some seq ∧ olNumSeq b = some seq' ∧
      seq.Perm (List.range a.oOlCnt.toNat) ∧ (seq.map a.stockRow).Pairwise LockLe ∧
      ∀ k k', k ∈ seq.map a.stockRow → k' ∈ seq.map a.stockRow → k ∈ seq'.map b.stockRow →
        k' ∈ seq'.map b.stockRow →
        ((seq.map a.stockRow).idxOf k < (seq.map a.stockRow).idxOf k' ↔
          (seq'.map b.stockRow).idxOf k < (seq'.map b.stockRow).idxOf k') := by
  obtain ⟨seq, hseq, hperm⟩ := olNumSeq_perm a
  obtain ⟨seq', hseq', -⟩ := olNumSeq_perm b
  have hrows := ha.rows hseq
  refine ⟨seq, seq', hseq, hseq', hperm, ?_, fun k k' hk hk' hkb hkb' => ?_⟩
  · exact (rows_sorted hseq).imp_of_mem fun hk hk' hle =>
      (rowKey_le_iff (hrows _ hk) (hrows _ hk')).mp hle
  · by_cases heq : k = k'
    · rw [heq]
      exact iff_of_false (lt_irrefl _) (lt_irrefl _)
    have hne : rowKey k ≠ rowKey k' := fun h =>
      heq (rowKey_injective (hrows k hk) (hrows k' hk') h)
    rw [idxOf_lt_idxOf_iff (rows_sorted hseq) hk hk' hne,
      idxOf_lt_idxOf_iff (rows_sorted hseq') hkb hkb' hne]

end

/-- Two lines, of the warehouses 1 and `w`. -/
def twoLines (w : Int) : NewordArgs where
  wId := 1
  dId := 1
  cId := 1
  oOlCnt := 2
  oAllLocal := 0
  itemid _ := 1
  supware i := if i = 0 then 1 else w
  qty _ := 1
  datetime := ""
  distInfo := ""

theorem twoLines_lockable {w : Int} (h : 1 ≤ w) (h' : w ≤ 32767) : (twoLines w).Lockable := by
  have hcount : (2 : Int) ≤ maxNumItems := by decide
  have hitem : (1 : Int) ≤ maxItems + 1 := by decide
  refine ⟨hcount, fun i _ => ?_, fun _ _ => ⟨le_rfl, hitem⟩⟩
  unfold twoLines
  dsimp only
  split
  · decide
  · exact ⟨h, h'⟩

theorem locks_agree_two :
    ∃ seq seq', olNumSeq (twoLines 2) = some seq ∧ olNumSeq (twoLines 3) = some seq' ∧
      seq.Perm (List.range (twoLines 2).oOlCnt.toNat) ∧
      (seq.map (twoLines 2).stockRow).Pairwise LockLe ∧
      ∀ k k', k ∈ seq.map (twoLines 2).stockRow → k' ∈ seq.map (twoLines 2).stockRow →
        k ∈ seq'.map (twoLines 3).stockRow → k' ∈ seq'.map (twoLines 3).stockRow →
        ((seq.map (twoLines 2).stockRow).idxOf k < (seq.map (twoLines 2).stockRow).idxOf k' ↔
          (seq'.map (twoLines 3).stockRow).idxOf k <
            (seq'.map (twoLines 3).stockRow).idxOf k') :=
  locks_agree (twoLines_lockable (by decide) (by decide)) (twoLines 3)

/-- The last warehouse comes before the first one. -/
theorem last_warehouse_first : ∃ seq, olNumSeq (twoLines 32767) = some seq ∧
    ¬ (seq.map (twoLines 32767).stockRow).Pairwise fun k k' => toLex k ≤ toLex k' := by
  refine ⟨[1, 0], by decide, ?_⟩
  decide

end TokuQa.Tpcc
