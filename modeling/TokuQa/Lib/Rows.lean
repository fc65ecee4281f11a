import Mathlib.Algebra.BigOperators.Group.List.Basic
import Mathlib.Algebra.Group.Basic
import Mathlib.Data.List.Nodup
import Mathlib.Tactic.Abel
import TokuQa.Lib.KeyedList

/-!
# Tables as rows in a list, under a primary key

`Rows key` is a list of rows, no two of which have the same key: a statement that would break
that does not exist here (`INSERT` of a key that is there is `none`, and `UPDATE` keeps the key).
The other statements are those of SQL that are not about one key: `SELECT`, `UPDATE` and
`DELETE` take a condition on the row.

What a statement does to the rows is in its `mem_` lemma; `sum_update` is what an `UPDATE` of one
row does to a `SUM`.
-/

set_option autoImplicit false

namespace TokuQa.Lib

/-- A table. -/
structure Rows {α κ : Type} (key : α → κ) where
  rows : List α
  nodup : (rows.map key).Nodup

namespace Rows

variable {α κ : Type} {key : α → κ}

theorem ext_rows {t t' : Rows key} (h : t.rows = t'.rows) : t = t' := by
  cases t
  cases t'
  cases h
  rfl

instance [DecidableEq α] : DecidableEq (Rows key) := fun _ _ =>
  decidable_of_iff _ ⟨ext_rows, congrArg Rows.rows⟩

instance : Membership α (Rows key) := ⟨fun t a => a ∈ t.rows⟩

theorem mem_def {t : Rows key} {a : α} : a ∈ t ↔ a ∈ t.rows := Iff.rfl

/-- A key has one row. -/
theorem eq_of_key {t : Rows key} {a b : α} (ha : a ∈ t) (hb : b ∈ t) (h : key a = key b) :
    a = b := List.inj_on_of_nodup_map t.nodup ha hb h

/-! ## Statements -/

def empty : Rows key := ⟨[], List.nodup_nil⟩

def select (t : Rows key) (p : α → Bool) : List α := t.rows.filter p

theorem mem_select {t : Rows key} {p : α → Bool} {a : α} :
    a ∈ t.select p ↔ a ∈ t ∧ p a = true := List.mem_filter

section

variable [DecidableEq κ]

/-- `SELECT .. WHERE <key>`. -/
def find? (t : Rows key) (k : κ) : Option α := findKey key k t.rows

theorem find?_eq_some_iff {t : Rows key} {k : κ} {a : α} :
    t.find? k = some a ↔ a ∈ t ∧ key a = k := by
  refine ⟨mem_of_findKey, fun ⟨ha, hk⟩ => ?_⟩
  have hsome : (t.find? k).isSome = true :=
    findKey_isSome_iff.mpr (List.mem_map.mpr ⟨a, ha, hk⟩)
  obtain ⟨b, hb⟩ := Option.isSome_iff_exists.mp hsome
  obtain ⟨hmem, hkey⟩ := mem_of_findKey hb
  rw [hb, eq_of_key hmem ha (hkey.trans hk.symm)]

theorem find?_eq_none_iff {t : Rows key} {k : κ} : t.find? k = none ↔ ∀ a ∈ t, key a ≠ k := by
  constructor
  · intro h a ha hk
    rw [find?_eq_some_iff.mpr ⟨ha, hk⟩] at h
    cases h
  · intro h
    cases hf : t.find? k with
    | none => rfl
    | some a => exact absurd (find?_eq_some_iff.mp hf).2 (h a (find?_eq_some_iff.mp hf).1)

/-- `INSERT`: a duplicate key is an error. -/
def insert? (t : Rows key) (a : α) : Option (Rows key) :=
  if h : key a ∈ t.rows.map key then none
  else some ⟨t.rows ++ [a], by
    rw [List.map_append]
    exact t.nodup.append (List.nodup_singleton _) (List.disjoint_singleton.mpr h)⟩

theorem insert?_eq_some_iff {t t' : Rows key} {a : α} :
    t.insert? a = some t' ↔ (∀ b ∈ t, key b ≠ key a) ∧ t'.rows = t.rows ++ [a] := by
  unfold insert?
  by_cases h : key a ∈ t.rows.map key
  · rw [dif_pos h]
    obtain ⟨b, hb, hk⟩ := List.mem_map.mp h
    exact ⟨(fun he => nomatch he), fun ⟨hne, _⟩ => absurd hk (hne b hb)⟩
  · rw [dif_neg h, Option.some.injEq]
    constructor
    · rintro rfl
      exact ⟨fun b hb hk => h (List.mem_map.mpr ⟨b, hb, hk⟩), rfl⟩
    · rintro ⟨-, hrows⟩
      exact ext_rows hrows.symm

theorem insert?_eq_none_iff {t : Rows key} {a : α} :
    t.insert? a = none ↔ ∃ b ∈ t, key b = key a := by
  unfold insert?
  by_cases h : key a ∈ t.rows.map key
  · rw [dif_pos h]
    exact ⟨fun _ => List.mem_map.mp h, fun _ => rfl⟩
  · rw [dif_neg h]
    exact ⟨(fun he => nomatch he), fun ⟨b, hb, hk⟩ => absurd (List.mem_map.mpr ⟨b, hb, hk⟩) h⟩

theorem find?_of_insert? {t t' : Rows key} {a : α} (h : t.insert? a = some t') (k : κ) :
    t'.find? k = if key a = k then some a else t.find? k := by
  obtain ⟨hnew, hrows⟩ := insert?_eq_some_iff.mp h
  have hmem : ∀ b, b ∈ t' ↔ b ∈ t ∨ b = a := by
    intro b
    rw [mem_def, hrows, List.mem_append, List.mem_singleton, mem_def]
  split
  · rename_i hk
    exact find?_eq_some_iff.mpr ⟨(hmem a).mpr (.inr rfl), hk⟩
  · rename_i hk
    cases hf : t.find? k with
    | none =>
      refine find?_eq_none_iff.mpr fun b hb hkey => ?_
      rcases (hmem b).mp hb with hold | rfl
      · exact find?_eq_none_iff.mp hf b hold hkey
      · exact hk hkey
    | some b =>
      obtain ⟨hb, hkey⟩ := find?_eq_some_iff.mp hf
      exact find?_eq_some_iff.mpr ⟨(hmem b).mpr (.inl hb), hkey⟩

/-- A row whose key is new goes in. -/
theorem exists_insert? {t : Rows key} {a : α} {l : List α}
    (h : ((t.rows ++ a :: l).map key).Nodup) :
    ∃ t', t.insert? a = some t' ∧ t'.rows = t.rows ++ [a] := by
  have hnew : ∀ b ∈ t, key b ≠ key a := by
    intro b hb hk
    rw [List.map_append, List.map_cons] at h
    have hdisj := List.disjoint_of_nodup_append h
    exact hdisj (List.mem_map_of_mem hb) (by rw [hk]; exact List.mem_cons_self)
  cases hi : t.insert? a with
  | none =>
    obtain ⟨b, hb, hk⟩ := insert?_eq_none_iff.mp hi
    exact absurd hk (hnew b hb)
  | some t' => exact ⟨t', rfl, (insert?_eq_some_iff.mp hi).2⟩

/-- Rows put in one after another; what has a key that is there is left out. -/
def insertAll (t : Rows key) (l : List α) : Rows key := l.foldl (fun t a => (t.insert? a).getD t) t

end

/-- What an `UPDATE` sets; not the key. -/
abbrev Setter (key : α → κ) := { f : α → α // ∀ a, key (f a) = key a }

/-- `UPDATE .. WHERE p`. -/
def update (t : Rows key) (p : α → Bool) (f : Setter key) : Rows key :=
  ⟨t.rows.map fun a => if p a then f.1 a else a, by
    have hkeys : (t.rows.map fun a => if p a then f.1 a else a).map key = t.rows.map key := by
      rw [List.map_map]
      refine List.map_congr_left fun a _ => ?_
      simp only [Function.comp_apply]
      split
      · exact f.2 a
      · rfl
    rw [hkeys]
    exact t.nodup⟩

theorem mem_update {t : Rows key} {p : α → Bool} {f : Setter key} {b : α} :
    b ∈ t.update p f ↔ ∃ a ∈ t, b = if p a then f.1 a else a := by
  rw [mem_def]
  simp only [update, List.mem_map, mem_def, eq_comm]

theorem rows_update (t : Rows key) (p : α → Bool) (f : Setter key) :
    (t.update p f).rows = t.rows.map fun a => if p a then f.1 a else a := rfl

theorem find?_update [DecidableEq κ] {t : Rows key} {p : α → Bool} {f : Setter key} {k : κ} :
    (t.update p f).find? k = (t.find? k).map fun a => if p a then f.1 a else a := by
  have hkey : ∀ a, key (if p a = true then f.1 a else a) = key a := by
    intro a
    split
    · exact f.2 a
    · rfl
  cases h : t.find? k with
  | none =>
    rw [Option.map_none, find?_eq_none_iff]
    intro b hb
    obtain ⟨a, ha, rfl⟩ := mem_update.mp hb
    rw [hkey]
    exact find?_eq_none_iff.mp h a ha
  | some a =>
    obtain ⟨ha, hk⟩ := find?_eq_some_iff.mp h
    exact find?_eq_some_iff.mpr ⟨mem_update.mpr ⟨a, ha, rfl⟩, (hkey a).trans hk⟩

/-- An `UPDATE` that changes neither what is asked for nor what is read. -/
theorem map_select_update {β : Type} {t : Rows key} {p q : α → Bool} {f : Setter key} (g : α → β)
    (h : ∀ a, q (if p a then f.1 a else a) = q a ∧ g (if p a then f.1 a else a) = g a) :
    ((t.update p f).select q).map g = (t.select q).map g := by
  rw [select, rows_update, List.filter_map, List.map_map]
  have hq : (q ∘ fun a => if p a then f.1 a else a) = q := funext fun a => (h a).1
  rw [hq]
  exact List.map_congr_left fun a _ => (h a).2

/-- Two updates that set the same in every row of the table are one. -/
theorem update_congr {t : Rows key} {p q : α → Bool} {f g : Setter key}
    (h : ∀ a ∈ t, (if p a then f.1 a else a) = if q a then g.1 a else a) :
    t.update p f = t.update q g := ext_rows (List.map_congr_left h)

/-- `DELETE .. WHERE p`. -/
def delete (t : Rows key) (p : α → Bool) : Rows key :=
  ⟨t.rows.filter fun a => !p a, t.nodup.sublist (List.filter_sublist.map key)⟩

theorem mem_delete {t : Rows key} {p : α → Bool} {a : α} :
    a ∈ t.delete p ↔ a ∈ t ∧ p a = false := by
  rw [mem_def]
  simp only [delete, List.mem_filter, mem_def, Bool.not_eq_true']

theorem find?_delete [DecidableEq κ] {t : Rows key} (k k' : κ) :
    (t.delete fun r => key r = k').find? k = if k = k' then none else t.find? k := by
  have hmem : ∀ b, b ∈ t.delete (fun r => key r = k') ↔ b ∈ t ∧ key b ≠ k' := by
    intro b
    rw [mem_delete, decide_eq_false_iff_not]
  split
  · rename_i hk
    refine find?_eq_none_iff.mpr fun b hb hkey => ?_
    exact ((hmem b).mp hb).2 (hkey.trans hk)
  · rename_i hk
    cases hf : t.find? k with
    | none => exact find?_eq_none_iff.mpr fun b hb => find?_eq_none_iff.mp hf b ((hmem b).mp hb).1
    | some b =>
      obtain ⟨hb, hkey⟩ := find?_eq_some_iff.mp hf
      refine find?_eq_some_iff.mpr ⟨(hmem b).mpr ⟨hb, fun hb' => hk ?_⟩, hkey⟩
      rw [← hkey, hb']

/-! ## Sums -/

section

variable {M : Type} [AddCommMonoid M]

/-- An `UPDATE` of one row changes a sum by what that row contributes. -/
theorem sum_update (g : α → M) {t : Rows key} {p : α → Bool} {f : Setter key} {a : α}
    (ha : a ∈ t) (hp : ∀ b ∈ t, p b = true ↔ b = a) :
    ((t.update p f).rows.map g).sum + g a = (t.rows.map g).sum + g (f.1 a) := by
  obtain ⟨front, back, hrows⟩ := List.append_of_mem ha
  have hnd : (front ++ a :: back).Nodup := by
    rw [← hrows]
    exact t.nodup.of_map key
  have hother : ∀ b ∈ front ++ back, (if p b = true then f.1 b else b) = b := by
    intro b hb
    have hne : b ≠ a := by
      rintro rfl
      rw [List.nodup_middle, List.nodup_cons] at hnd
      exact hnd.1 hb
    have hmem : b ∈ t := by
      rw [mem_def, hrows]
      rcases List.mem_append.mp hb with hb | hb
      · exact List.mem_append_left _ hb
      · exact List.mem_append_right _ (List.mem_cons_of_mem _ hb)
    exact if_neg fun hpb => hne ((hp b hmem).mp hpb)
  have hfront : front.map (fun b => if p b = true then f.1 b else b) = front :=
    (List.map_congr_left fun b hb => hother b (List.mem_append_left _ hb)).trans (List.map_id' _)
  have hback : back.map (fun b => if p b = true then f.1 b else b) = back :=
    (List.map_congr_left fun b hb => hother b (List.mem_append_right _ hb)).trans (List.map_id' _)
  rw [rows_update, hrows, List.map_append, List.map_cons, hfront, hback, if_pos ((hp a ha).mpr rfl)]
  simp only [List.map_append, List.map_cons, List.sum_append, List.sum_cons]
  abel

/-- A sum over loops in each other. -/
theorem sum_flatMap {β : Type} (l : List α) (f : α → List β) (g : β → M) :
    ((l.flatMap f).map g).sum = (l.map fun a => ((f a).map g).sum).sum := by
  induction l with
  | nil => rfl
  | cons a l ih =>
    rw [List.flatMap_cons, List.map_append, List.sum_append, ih, List.map_cons, List.sum_cons]

/-- A sum to which one element contributes. -/
theorem sum_of_one [DecidableEq α] {l : List α} (hnd : l.Nodup) {a : α} (ha : a ∈ l) {g : α → M}
    (h : ∀ b ∈ l, b ≠ a → g b = 0) : (l.map g).sum = g a := by
  rw [List.sum_map_eq_nsmul_single a g fun b hne hb => h b hb hne,
    List.count_eq_one_of_mem hnd ha, one_nsmul]

end

/-- A loop to which one element contributes. -/
theorem flatMap_of_one {α β : Type} {l : List α} (hnd : l.Nodup) {a : α} (ha : a ∈ l)
    {f : α → List β} (h : ∀ b ∈ l, b ≠ a → f b = []) : l.flatMap f = f a := by
  obtain ⟨front, back, rfl⟩ := List.append_of_mem ha
  have hapart := List.nodup_middle.mp hnd
  have hnone : ∀ b ∈ front ++ back, f b = [] := by
    intro b hb
    refine h b (List.perm_middle.symm.subset (List.mem_cons_of_mem a hb)) ?_
    rintro rfl
    exact (List.nodup_cons.mp hapart).1 hb
  have hfront : front.flatMap f = [] := List.flatMap_eq_nil_iff.mpr fun b hb =>
    hnone b (List.mem_append_left back hb)
  have hback : back.flatMap f = [] := List.flatMap_eq_nil_iff.mpr fun b hb =>
    hnone b (List.mem_append_right front hb)
  rw [List.flatMap_append, List.flatMap_cons, hfront, hback, List.nil_append, List.append_nil]

end Rows

end TokuQa.Lib
