import Mathlib.Data.List.Intervals
import Mathlib.Tactic.Linarith
import Mathlib.Tactic.Ring

/-!
# `iibench.py`: the size of the table

`Insert` puts a statement of rows on the queue in each round, and with `with_max_table_rows` a
`DELETE` of as many from `tail` on if `table_size` has got past the limit. What the table has is
what the other process makes of the statements, in their order; a row is its `transactionid` here.

The first row has number 1 and `tail` begins at 0, so the first `DELETE` leaves a row behind, and
the table has one row more than `table_size` from then on. A statement has no more than `max_rows`
rows, and `table_size` counts `rows_per_commit` for it.
-/

set_option autoImplicit false

namespace TokuQa.Iibench

/-- The options `Insert` reads. -/
structure Flags where
  rowsPerCommit : Nat
  maxRows : Int
  withMaxTableRows : Bool
  maxTableRows : Int

inductive Statement where
  | insert (rows : Nat)
  /-- `transactionid >= tail and transactionid < ceiling`. -/
  | delete (tail ceiling : Nat)

/-- The table with its `auto_increment` counter. -/
structure Table where
  next : Nat
  rows : List Nat

/-- `create_table`. -/
def Table.created : Table := ⟨1, []⟩

def Table.execute (t : Table) : Statement → Table
  | .insert n => ⟨t.next + n, t.rows ++ List.Ico t.next (t.next + n)⟩
  | .delete tail ceiling => { t with rows := t.rows.filter fun id => ¬ (tail ≤ id ∧ id < ceiling) }

/-- The variables of `Insert`. -/
structure Vars where
  inserted : Nat
  tableSize : Int
  tail : Nat

/-- How many rows `generate_insert_rows` makes. -/
def Flags.batch (f : Flags) : Nat := (min (f.rowsPerCommit : Int) f.maxRows).toNat

/-- `ceil(max_rows / rows_per_commit)`; nothing for a negative number. -/
def Flags.rounds (f : Flags) : Nat :=
  ((f.maxRows + f.rowsPerCommit - 1) / f.rowsPerCommit).toNat

/-- One round: what it puts on the queue, and the variables behind it. -/
def round (f : Flags) (s : Vars) : List Statement × Vars :=
  let s := { s with
    inserted := s.inserted + f.rowsPerCommit
    tableSize := s.tableSize + f.rowsPerCommit }
  if f.withMaxTableRows ∧ f.maxTableRows < s.tableSize then
    ([.insert f.batch, .delete s.tail (s.tail + f.rowsPerCommit)],
      { s with
        tableSize := s.tableSize - f.rowsPerCommit
        tail := s.tail + f.rowsPerCommit })
  else ([.insert f.batch], s)

/-- The variables behind so many rounds, and the table the statements of these have made. -/
def after (f : Flags) : Nat → Vars × Table
  | 0 => (⟨0, 0, 0⟩, .created)
  | k + 1 =>
    let (s, t) := after f k
    let (queue, s) := round f s
    (s, queue.foldl Table.execute t)

/-- The size had got past the limit in one of the rounds. -/
def LimitReached (f : Flags) (k : Nat) : Prop :=
  f.withMaxTableRows ∧ ∃ j < k, f.maxTableRows < (after f j).1.tableSize + f.rowsPerCommit

/-- What the bookkeeping is for. -/
def Kept (f : Flags) (k : Nat) : Prop :=
  (after f k).1.tableSize = (after f k).2.rows.length ∧
    (LimitReached f k → ((after f k).2.rows.length : Int) ≤ f.maxTableRows)

/-- The rows from `tail` to `ceiling` are the first ones. -/
theorem execute_delete {t : Table} {first tail ceiling : Nat} (ht : t.rows = List.Ico first t.next)
    (htail : tail ≤ first) :
    (t.execute (.delete tail ceiling)).rows = List.Ico (max first ceiling) t.next := by
  rw [Table.execute, ht, ← List.Ico.filter_le]
  refine List.filter_congr fun id hid => ?_
  have hfirst := (List.Ico.mem.mp hid).1
  rw [decide_eq_decide]
  omega

section

variable {f : Flags}

/-- What holds after `k` rounds, `d` of which have deleted, when a batch is full. -/
structure Rounds (f : Flags) (k d : Nat) (s : Vars) (t : Table) : Prop where
  le : d ≤ k
  tableSize : s.tableSize = (k - d : Int) * f.rowsPerCommit
  tail : s.tail = d * f.rowsPerCommit
  next : t.next = k * f.rowsPerCommit + 1
  rows : t.rows = List.Ico (max 1 (d * f.rowsPerCommit)) t.next

theorem Rounds.start : Rounds f 0 0 ⟨0, 0, 0⟩ .created := by
  refine ⟨Nat.le_refl 0, ?_, ?_, ?_, ?_⟩ <;> simp [Table.created]

theorem batch_eq (h : (f.rowsPerCommit : Int) ≤ f.maxRows) : f.batch = f.rowsPerCommit := by
  rw [Flags.batch, min_eq_left h, Int.toNat_natCast]

/-- A round inserts, and may delete. -/
theorem Rounds.round {k d : Nat} {s : Vars} {t : Table} (h : Rounds f k d s t)
    (hfull : (f.rowsPerCommit : Int) ≤ f.maxRows) :
    Rounds f (k + 1)
      (if f.withMaxTableRows ∧ f.maxTableRows < s.tableSize + f.rowsPerCommit then d + 1 else d)
      (Iibench.round f s).2 ((Iibench.round f s).1.foldl Table.execute t) := by
  have hle : d * f.rowsPerCommit ≤ k * f.rowsPerCommit := Nat.mul_le_mul_right _ h.le
  have hnext : (t.execute (.insert f.batch)).next = (k + 1) * f.rowsPerCommit + 1 := by
    show t.next + f.batch = _
    rw [batch_eq hfull, h.next]
    ring
  have hrows : (t.execute (.insert f.batch)).rows =
      List.Ico (max 1 (d * f.rowsPerCommit)) (t.execute (.insert f.batch)).next := by
    show t.rows ++ List.Ico t.next (t.next + f.batch) = List.Ico _ (t.next + f.batch)
    rw [h.rows]
    refine List.Ico.append_consecutive ?_ (Nat.le_add_right _ _)
    rw [h.next]
    omega
  unfold Iibench.round
  simp only
  split
  · refine ⟨Nat.succ_le_succ h.le, ?_, ?_, hnext, ?_⟩
    · show s.tableSize + f.rowsPerCommit - f.rowsPerCommit = _
      rw [h.tableSize]
      push_cast
      ring
    · show s.tail + f.rowsPerCommit = _
      rw [h.tail]
      ring
    · have htail : s.tail ≤ max 1 (d * f.rowsPerCommit) := by
        rw [h.tail]
        omega
      refine (execute_delete hrows htail).trans ?_
      rw [h.tail, Nat.succ_mul]
      congr 1
      omega
  · refine ⟨Nat.le_succ_of_le h.le, ?_, h.tail, hnext, hrows⟩
    show s.tableSize + f.rowsPerCommit = _
    rw [h.tableSize]
    push_cast
    ring

/-- No row is missing, and one row is left behind by the first `DELETE`. -/
theorem Rounds.length {k d : Nat} {s : Vars} {t : Table} (h : Rounds f k d s t)
    (hpos : 1 ≤ f.rowsPerCommit) :
    (t.rows.length : Int) = s.tableSize + if d = 0 then 0 else 1 := by
  have hle : d * f.rowsPerCommit ≤ k * f.rowsPerCommit := Nat.mul_le_mul_right _ h.le
  have hsize : s.tableSize = (k * f.rowsPerCommit : Nat) - (d * f.rowsPerCommit : Nat) := by
    rw [h.tableSize]
    push_cast
    ring
  rw [h.rows, List.Ico.length, h.next, hsize]
  by_cases hd : d = 0
  · rw [if_pos hd, hd, Nat.zero_mul]
    omega
  · have hdone : f.rowsPerCommit ≤ d * f.rowsPerCommit :=
      Nat.le_mul_of_pos_left _ (Nat.pos_of_ne_zero hd)
    rw [if_neg hd]
    omega

theorem LimitReached.succ_iff {k : Nat} : LimitReached f (k + 1) ↔ LimitReached f k ∨
    f.withMaxTableRows ∧ f.maxTableRows < (after f k).1.tableSize + f.rowsPerCommit := by
  constructor
  · rintro ⟨hwith, j, hj, hpast⟩
    rcases Nat.lt_succ_iff_lt_or_eq.mp hj with hlt | rfl
    · exact .inl ⟨hwith, j, hlt, hpast⟩
    · exact .inr ⟨hwith, hpast⟩
  · rintro (⟨hwith, j, hj, hpast⟩ | ⟨hwith, hpast⟩)
    · exact ⟨hwith, j, Nat.lt_succ_of_lt hj, hpast⟩
    · exact ⟨hwith, k, Nat.lt_succ_self k, hpast⟩

/-- **A run of full batches**: a `DELETE` is in it as soon as the limit is reached. -/
theorem rounds_after (hfull : (f.rowsPerCommit : Int) ≤ f.maxRows) (k : Nat) :
    ∃ d, Rounds f k d (after f k).1 (after f k).2 ∧ (d = 0 ↔ ¬ LimitReached f k) := by
  induction k with
  | zero =>
    refine ⟨0, .start, iff_of_true rfl ?_⟩
    rintro ⟨-, j, hj, -⟩
    exact Nat.not_lt_zero j hj
  | succ k ih =>
    obtain ⟨d, hrounds, hd⟩ := ih
    refine ⟨_, hrounds.round hfull, ?_⟩
    rw [LimitReached.succ_iff, not_or, ← hd]
    split
    · next hpast => exact iff_of_false (Nat.succ_ne_zero d) fun h => h.2 hpast
    · next hpast => exact (and_iff_left hpast).symm

/-- The limit is reached when it would be without any `DELETE`. -/
theorem limitReached_iff (hfull : (f.rowsPerCommit : Int) ≤ f.maxRows) {k : Nat} :
    LimitReached f k ↔
      f.withMaxTableRows ∧ 0 < k ∧ f.maxTableRows < k * f.rowsPerCommit := by
  induction k with
  | zero => exact iff_of_false (fun ⟨_, j, hj, _⟩ => Nat.not_lt_zero j hj) fun h => by simp at h
  | succ k ih =>
    obtain ⟨d, hrounds, hd⟩ := rounds_after hfull k
    rw [LimitReached.succ_iff]
    by_cases hreached : LimitReached f k
    · obtain ⟨hwith, -, hlt⟩ := ih.mp hreached
      refine iff_of_true (.inl hreached) ⟨hwith, Nat.succ_pos k, lt_of_lt_of_le hlt ?_⟩
      push_cast
      linarith [Int.natCast_nonneg f.rowsPerCommit]
    · have hsize : (after f k).1.tableSize = k * f.rowsPerCommit := by
        rw [hrounds.tableSize, hd.mpr hreached]
        push_cast
        ring
      rw [or_iff_right hreached, hsize]
      refine and_congr_right fun _ => ?_
      rw [and_iff_right (Nat.succ_pos k)]
      push_cast
      rw [add_mul, one_mul]

/-- With full batches the bookkeeping is right as long as nothing has been deleted. -/
theorem kept_iff_of_full (hpos : 1 ≤ f.rowsPerCommit) (hfull : (f.rowsPerCommit : Int) ≤ f.maxRows)
    {k : Nat} : Kept f k ↔ ¬ LimitReached f k := by
  obtain ⟨d, hrounds, hd⟩ := rounds_after hfull k
  have hlength := hrounds.length hpos
  constructor
  · rintro ⟨hsize, -⟩
    refine hd.mp (by_contra fun hne => ?_)
    rw [if_neg hne] at hlength
    omega
  · intro hreached
    rw [if_pos (hd.mpr hreached), add_zero] at hlength
    exact ⟨hlength.symm, fun h => absurd h hreached⟩

/-! ## A batch that is not full -/

theorem rounds_of_not_full (h : f.maxRows < f.rowsPerCommit) : f.rounds ≤ 1 := by
  have hlt : (f.maxRows + f.rowsPerCommit - 1) / f.rowsPerCommit < 2 := by
    by_cases hzero : (f.rowsPerCommit : Int) = 0
    · rw [hzero, Int.ediv_zero]
      decide
    · exact Int.ediv_lt_of_lt_mul (by omega) (by omega)
  unfold Flags.rounds
  omega

theorem maxRows_pos (h : 1 ≤ f.rounds) : 0 < f.maxRows := by
  by_contra hle
  have hlt : (f.maxRows + f.rowsPerCommit - 1) / f.rowsPerCommit < 1 := by
    by_cases hzero : (f.rowsPerCommit : Int) = 0
    · rw [hzero, Int.ediv_zero]
      decide
    · exact Int.ediv_lt_of_lt_mul (by omega) (by omega)
  unfold Flags.rounds at h
  omega

/-- There is one round, and a `DELETE` in it takes all its rows. -/
theorem kept_one_iff (hrows : 0 < f.maxRows) (h : f.maxRows < f.rowsPerCommit) :
    Kept f 1 ↔ f.withMaxTableRows ∧ 0 ≤ f.maxTableRows ∧ f.maxTableRows < f.rowsPerCommit := by
  have hbatch : (f.batch : Int) = f.maxRows := by
    rw [Flags.batch, min_eq_right h.le, Int.toNat_of_nonneg hrows.le]
  have hreached : LimitReached f 1 ↔
      f.withMaxTableRows ∧ f.maxTableRows < f.rowsPerCommit := by
    rw [LimitReached.succ_iff, or_iff_right fun ⟨_, j, hj, _⟩ => Nat.not_lt_zero j hj]
    simp [after]
  unfold Kept
  rw [hreached]
  by_cases hpast : f.withMaxTableRows ∧ f.maxTableRows < f.rowsPerCommit
  · have hround : round f ⟨0, 0, 0⟩ = ([.insert f.batch, .delete 0 f.rowsPerCommit],
        ⟨f.rowsPerCommit, 0, f.rowsPerCommit⟩) := by
      simp [round, hpast]
    have hempty : (after f 1).2.rows = [] := by
      simp only [after, hround, List.foldl_cons, List.foldl_nil]
      rw [@execute_delete _ 1 _ _ rfl (Nat.zero_le 1), List.Ico.eq_nil_of_le]
      show 1 + f.batch ≤ _
      omega
    have hsize : (after f 1).1.tableSize = 0 := by simp only [after, hround]
    rw [hempty, hsize]
    simp [hpast]
  · have hround : round f ⟨0, 0, 0⟩ = ([.insert f.batch],
        ⟨f.rowsPerCommit, f.rowsPerCommit, 0⟩) := by
      simp [round, hpast]
    have hlength : (after f 1).2.rows.length = f.batch := by
      simp [after, hround, Table.execute, Table.created]
    have hsize : (after f 1).1.tableSize = f.rowsPerCommit := by simp only [after, hround]
    rw [hlength, hsize]
    refine iff_of_false (fun hkept => ?_) fun hall => hpast ⟨hall.1, hall.2.2⟩
    omega

end

/-- **The bookkeeping is right** in each of the first `k` rounds if there is no `DELETE` among
full batches, or a batch that is not full is deleted again. -/
theorem kept_iff {f : Flags} (hpos : 1 ≤ f.rowsPerCommit) {k : Nat} (hk : k ≤ f.rounds) :
    (∀ j ≤ k, Kept f j) ↔ k = 0 ∨
      ((f.rowsPerCommit : Int) ≤ f.maxRows ∧
        (f.withMaxTableRows → (k * f.rowsPerCommit : Int) ≤ f.maxTableRows)) ∨
      (f.maxRows < f.rowsPerCommit ∧ f.withMaxTableRows ∧
        0 ≤ f.maxTableRows ∧ f.maxTableRows < f.rowsPerCommit) := by
  have hstart : Kept f 0 := ⟨rfl, fun ⟨_, j, hj, _⟩ => absurd hj (Nat.not_lt_zero j)⟩
  rcases Nat.eq_zero_or_pos k with rfl | hkpos
  · exact iff_of_true (fun j hj => Nat.le_zero.mp hj ▸ hstart) (.inl rfl)
  rw [or_iff_right hkpos.ne']
  by_cases hfull : (f.rowsPerCommit : Int) ≤ f.maxRows
  · have hall : (∀ j ≤ k, Kept f j) ↔ ¬ LimitReached f k := by
      constructor
      · exact fun h => (kept_iff_of_full hpos hfull).mp (h k (Nat.le_refl k))
      · refine fun h j hj => (kept_iff_of_full hpos hfull).mpr fun ⟨hwith, i, hi, hpast⟩ => ?_
        exact h ⟨hwith, i, lt_of_lt_of_le hi hj, hpast⟩
    rw [hall, limitReached_iff hfull, and_iff_right hfull, or_iff_left fun h => not_lt.mpr hfull h.1]
    constructor
    · exact fun h hwith => not_lt.mp fun hlt => h ⟨hwith, hkpos, hlt⟩
    · exact fun h ⟨hwith, _, hlt⟩ => not_lt.mpr (h hwith) hlt
  · have hlt := not_le.mp hfull
    obtain rfl : k = 1 := Nat.le_antisymm (hk.trans (rounds_of_not_full hlt)) hkpos
    rw [or_iff_right fun h => hfull h.1, and_iff_right hlt, ← kept_one_iff (maxRows_pos hk) hlt]
    constructor
    · exact fun h => h 1 (Nat.le_refl 1)
    · intro h j hj
      rcases Nat.le_one_iff_eq_zero_or_eq_one.mp hj with rfl | rfl
      · exact hstart
      · exact h

/-- Three rounds of full batches under the limit. -/
theorem kept_three : Kept ⟨1000, 10000, true, 5000⟩ 3 :=
  (kept_iff (f := ⟨1000, 10000, true, 5000⟩) (by decide) (by decide)).mpr
    (.inr (.inl ⟨by decide, fun _ => by decide⟩)) 3 (Nat.le_refl 3)

/-- One row more than the limit: the `DELETE` of the second round finds no row 0. -/
theorem not_kept_two : ¬ Kept ⟨1, 2, true, 1⟩ 2 := fun h => absurd h.1 (by decide)

end TokuQa.Iibench
