import Mathlib.Data.Finmap

/-!
# Tables with a primary key

A table is a finite map from its primary key to the rest of the row, with the four
statements that write one row: `INSERT ... ON DUPLICATE KEY UPDATE`, `REPLACE`,
`UPDATE ... WHERE <key>` and `DELETE ... WHERE <key>`. Equality is extensional
(`Finmap.ext_lookup`), so two tables are equal exactly when every key finds the same row.

What is added to `Finmap` here is **counting**: `Table.count p t` is `SELECT COUNT(*)` under
a condition on key and row. The one lemma every count proof uses is `count_eq_erase`: a row
contributes to the count by itself, and the rest of the table does not see it.
-/

set_option autoImplicit false

namespace TokuQa.Lib

/-- A table: primary key to row. -/
abbrev Table (κ ν : Type) := Finmap (fun _ : κ => ν)

namespace Table

variable {κ ν : Type} [DecidableEq κ]

/-- `INSERT ... ON DUPLICATE KEY UPDATE`: the affected-row number (1 inserted, 0 found and
left as it was, 2 found and changed) and the table after it. -/
def insertOnDuplicate [DecidableEq ν] (k : κ) (row : ν) (update : ν → ν) (t : Table κ ν) :
    Nat × Table κ ν :=
  match t.lookup k with
  | none => (1, t.insert k row)
  | some old => if update old = old then (0, t) else (2, t.insert k (update old))

/-- `UPDATE ... SET ... WHERE <key>`. -/
def updateWhere (k : κ) (update : ν → ν) (t : Table κ ν) : Table κ ν :=
  match t.lookup k with
  | none => t
  | some old => t.insert k (update old)

/-- `SELECT COUNT(*) WHERE p`. -/
def count (p : κ → ν → Bool) (t : Table κ ν) : Nat :=
  t.entries.countP (fun e => p e.1 e.2)

/-! ## Lookups after a statement -/

theorem lookup_insert_eq (t : Table κ ν) (k k' : κ) (v : ν) :
    (t.insert k v).lookup k' = if k' = k then some v else t.lookup k' := by
  by_cases h : k' = k
  · subst h; simp
  · simp [h, Finmap.lookup_insert_of_ne]

theorem lookup_erase_eq (t : Table κ ν) (k k' : κ) :
    (t.erase k).lookup k' = if k' = k then none else t.lookup k' := by
  by_cases h : k' = k
  · subst h; simp
  · simp [h, Finmap.lookup_erase_ne]

theorem lookup_updateWhere (t : Table κ ν) (k k' : κ) (f : ν → ν) :
    (t.updateWhere k f).lookup k' = if k' = k then (t.lookup k).map f else t.lookup k' := by
  unfold updateWhere
  cases hk : t.lookup k with
  | none =>
    by_cases h : k' = k
    · subst h; simp [hk]
    · simp [h]
  | some old => simp [lookup_insert_eq]

theorem lookup_insertOnDuplicate [DecidableEq ν] (t : Table κ ν) (k k' : κ) (row : ν)
    (f : ν → ν) :
    (t.insertOnDuplicate k row f).2.lookup k' =
      if k' = k then some ((t.lookup k).elim row f) else t.lookup k' := by
  unfold insertOnDuplicate
  cases hk : t.lookup k with
  | none => simp [lookup_insert_eq]
  | some old =>
    by_cases hf : f old = old
    · by_cases h : k' = k
      · subst h; simp [hf, hk]
      · simp [hf, h]
    · simp [hf, lookup_insert_eq]

/-- Writing back the row a key already has changes nothing. -/
theorem insert_self {t : Table κ ν} {k : κ} {v : ν} (h : t.lookup k = some v) :
    t.insert k v = t := by
  refine Finmap.ext_lookup fun k' => ?_
  rw [lookup_insert_eq]
  by_cases hk : k' = k
  · rw [if_pos hk, hk, h]
  · rw [if_neg hk]

/-! ## Counting -/

omit [DecidableEq κ] in
@[simp] theorem count_empty (p : κ → ν → Bool) : count p (∅ : Table κ ν) = 0 := rfl

/-- An absent key adds its own row to the count, and nothing else changes. -/
theorem count_insert_of_notMem {t : Table κ ν} {k : κ} (p : κ → ν → Bool) (v : ν)
    (h : t.lookup k = none) :
    count p (t.insert k v) = count p t + if p k v then 1 else 0 := by
  have hmem : k ∉ t := Finmap.lookup_eq_none.mp h
  unfold count
  rw [Finmap.entries_insert_of_notMem hmem, Multiset.countP_cons]

/-- **A row is counted by itself.** Taking it out of the table takes exactly its own
contribution out of the count. -/
theorem count_eq_erase {t : Table κ ν} {k : κ} (p : κ → ν → Bool) :
    count p t = count p (t.erase k) + if (t.lookup k).any (p k) then 1 else 0 := by
  cases h : t.lookup k with
  | none =>
    have hself : t.erase k = t := by
      refine Finmap.ext_lookup fun k' => ?_
      rw [lookup_erase_eq]
      by_cases hk : k' = k
      · rw [if_pos hk, hk, h]
      · rw [if_neg hk]
    simp [hself]
  | some v =>
    have hback : (t.erase k).insert k v = t := by
      refine Finmap.ext_lookup fun k' => ?_
      rw [lookup_insert_eq, lookup_erase_eq]
      by_cases hk : k' = k
      · rw [if_pos hk, hk, h]
      · rw [if_neg hk, if_neg hk]
    have hadd := count_insert_of_notMem p v (Finmap.lookup_erase k t)
    rw [hback] at hadd
    simpa using hadd

/-- **One row changed.** Two tables that agree away from a key differ in their counts by what
that key contributes to each. -/
theorem count_of_erase_eq {t t' : Table κ ν} {k : κ} (p : κ → ν → Bool)
    (h : t'.erase k = t.erase k) :
    count p t' + (if (t.lookup k).any (p k) then 1 else 0) =
      count p t + if (t'.lookup k).any (p k) then 1 else 0 := by
  have hnew := count_eq_erase (t := t') (k := k) p
  have hold := count_eq_erase (t := t) (k := k) p
  rw [h] at hnew
  omega

/-- A counted row makes the count positive. -/
theorem count_pos_of_lookup {t : Table κ ν} {k : κ} {v : ν} {p : κ → ν → Bool}
    (h : t.lookup k = some v) (hp : p k v = true) : 0 < count p t := by
  have := count_eq_erase (t := t) (k := k) p
  rw [h] at this
  simp only [Option.any_some, hp, if_true] at this
  omega

/-- Where the row does not matter, counting rows is counting keys. -/
theorem count_eq_card {t : Table κ ν} {p : κ → ν → Bool} {q : κ → Bool}
    (h : ∀ k v, t.lookup k = some v → p k v = q k) :
    count p t = (t.keys.filter fun k => q k = true).card := by
  have hcongr : t.entries.countP (fun e => p e.1 e.2 = true) =
      t.entries.countP fun e => q e.1 = true := by
    refine Multiset.countP_congr rfl fun e he => ?_
    rw [h e.1 e.2 (Finmap.mem_lookup_iff.mpr he)]
  have hkeys : (t.keys.filter fun k => q k = true).card =
      (t.entries.map Sigma.fst).countP fun k => q k = true := by
    rw [Multiset.countP_eq_card_filter]
    rfl
  rw [hkeys, Multiset.countP_map, ← Multiset.countP_eq_card_filter]
  exact hcongr

end Table

end TokuQa.Lib
