import Mathlib.Data.List.Nodup
import Mathlib.Tactic.Common

/-!
# Lists that are maps

A list whose members have a key, no two the same one, is a map from keys to members: looking
for a key finds the first member that has it. Writing to a key changes that member, or puts a
new one at the end; erasing takes the member out. What is found afterwards is what a map would
have (`findKey_upsert`, `findKey_eraseKey`), and no key comes twice.
-/

set_option autoImplicit false

namespace TokuQa.Lib

section

variable {α κ : Type} [DecidableEq κ] (key : α → κ)

/-- The first member with the key. -/
def findKey (k : κ) (l : List α) : Option α := l.find? fun a => key a = k

/-- Changes the member with the key, or the new one, which then goes to the end. -/
def upsert (k : κ) (f : α → α) (new : α) (l : List α) : List α :=
  match l.findIdx? fun a => key a = k with
  | some i => l.modify i f
  | none => l ++ [f new]

/-- Puts a member at the end, unless its key is there. -/
def insertNew (l : List α) (a : α) : List α :=
  if findKey key (key a) l = none then l ++ [a] else l

/-- Takes the first member with the key out. -/
def eraseKey (k : κ) (l : List α) : List α := l.eraseP fun a => key a = k

variable {key} {k k' : κ} {f : α → α} {new a : α} {l : List α}

theorem upsert_nil : upsert key k f new [] = [f new] := rfl

theorem upsert_cons : upsert key k f new (a :: l) =
    if key a = k then f a :: l else a :: upsert key k f new l := by
  unfold upsert
  rw [List.findIdx?_cons]
  by_cases ha : key a = k
  · simp [ha]
  · cases l.findIdx? fun a => key a = k with
    | none => simp [ha]
    | some i => simp [ha]

theorem upsert_of_notMem (h : k ∉ l.map key) : upsert key k f new l = l ++ [f new] := by
  induction l with
  | nil => exact upsert_nil
  | cons a l ih =>
    rw [List.map_cons, List.mem_cons, not_or] at h
    rw [upsert_cons, if_neg (Ne.symm h.1), ih h.2]
    rfl

/-- **A write is found** under its key, and nothing else changes. -/
theorem findKey_upsert (hf : ∀ a, key (f a) = key a) (hnew : key new = k) :
    findKey key k' (upsert key k f new l) =
      if k' = k then some (f ((findKey key k l).getD new)) else findKey key k' l := by
  unfold findKey
  induction l with
  | nil =>
    by_cases hk : k' = k
    · simp [upsert_nil, hf, hnew, hk]
    · simp [upsert_nil, hf, hnew, hk, Ne.symm hk]
  | cons a l ih =>
    rw [upsert_cons]
    by_cases ha : key a = k
    · by_cases hk : k' = k
      · simp [hf, ha, hk]
      · simp [hf, ha, hk, Ne.symm hk]
    · rw [if_neg ha, List.find?_cons, ih]
      by_cases hk : k' = k
      · simp [ha, hk]
      · simp [hk, List.find?_cons]

theorem map_upsert (hf : ∀ a, key (f a) = key a) (hnew : key new = k) :
    (upsert key k f new l).map key = if k ∈ l.map key then l.map key else l.map key ++ [k] := by
  induction l with
  | nil => simp [upsert_nil, hf, hnew]
  | cons a l ih =>
    rw [upsert_cons]
    by_cases ha : key a = k
    · simp [ha, hf]
    · rw [if_neg ha, List.map_cons, ih]
      by_cases hk : k ∈ l.map key
      · simp [hk]
      · simp [hk, Ne.symm ha]

theorem nodup_upsert (hf : ∀ a, key (f a) = key a) (hnew : key new = k)
    (h : (l.map key).Nodup) : ((upsert key k f new l).map key).Nodup := by
  rw [map_upsert hf hnew]
  split
  · exact h
  · rename_i hk
    exact List.Nodup.append h (List.nodup_singleton k) (by simpa using hk)

theorem findKey_isSome_iff : (findKey key k l).isSome = true ↔ k ∈ l.map key := by
  simp [findKey]

theorem mem_of_findKey (h : findKey key k l = some a) : a ∈ l ∧ key a = k :=
  ⟨List.mem_of_find?_eq_some h, by simpa using List.find?_some h⟩

/-- **The first member stays** when others with its key come later. -/
theorem findKey_foldl_insertNew (new : List α) :
    findKey key k (new.foldl (insertNew key) l) = (findKey key k l).or (findKey key k new) := by
  induction new generalizing l with
  | nil => simp [findKey]
  | cons b new ih =>
    rw [List.foldl_cons, ih]
    unfold insertNew
    split
    · next hnone =>
      unfold findKey at hnone ⊢
      by_cases hb : key b = k
      · rw [hb] at hnone
        simp [List.find?_append, hnone, hb]
      · simp [List.find?_append, hb]
    · next hsome =>
      obtain ⟨x, hx⟩ := Option.ne_none_iff_exists'.mp hsome
      by_cases hb : key b = k
      · rw [hb] at hx
        simp [hx]
      · simp [findKey, hb]

theorem nodup_foldl_insertNew (new : List α) (h : (l.map key).Nodup) :
    ((new.foldl (insertNew key) l).map key).Nodup := by
  induction new generalizing l with
  | nil => exact h
  | cons b new ih =>
    refine ih ?_
    unfold insertNew
    split
    · next hnone =>
      rw [List.map_append]
      refine h.append (List.nodup_singleton _) fun k hk hb => ?_
      rw [List.map_singleton, List.mem_singleton] at hb
      rw [← findKey_isSome_iff, hb, hnone] at hk
      cases hk
    · exact h

/-- Members that are made from keys: none for a key that is not there. -/
theorem countP_filterMap_of_notMem {keys : List κ} {make : κ → Option α}
    (hmake : ∀ k a, make k = some a → key a = k) (hk : k ∉ keys) :
    (keys.filterMap make).countP (fun a => key a = k) = 0 := by
  rw [List.countP_eq_zero]
  intro a ha
  obtain ⟨k', hk', hmade⟩ := List.mem_filterMap.mp ha
  rw [decide_eq_true_eq, hmake k' a hmade]
  rintro rfl
  exact hk hk'

/-- And the one that is made for a key that is there once. -/
theorem countP_filterMap_of_mem {keys : List κ} (h : keys.Nodup) {make : κ → Option α}
    (hmake : ∀ k a, make k = some a → key a = k) (hk : k ∈ keys) :
    (keys.filterMap make).countP (fun a => key a = k) = if (make k).isSome then 1 else 0 := by
  induction keys with
  | nil => exact absurd hk List.not_mem_nil
  | cons k' keys ih =>
    obtain ⟨hk', hkeys⟩ := List.nodup_cons.mp h
    rw [List.filterMap_cons]
    by_cases heq : k = k'
    · subst heq
      have hrest := countP_filterMap_of_notMem hmake hk'
      cases hmade : make k with
      | none => simpa using hrest
      | some a => simp [hrest, hmake k a hmade]
    · have hrest := ih hkeys ((List.mem_cons.mp hk).resolve_left heq)
      cases hmade : make k' with
      | none => exact hrest
      | some a =>
        have hne : key a ≠ k := fun hkey => heq (hkey.symm.trans (hmake k' a hmade))
        simp [hrest, hne]

/-- **What was taken out** is not found, and all else is. -/
theorem findKey_eraseKey (h : (l.map key).Nodup) :
    findKey key k' (eraseKey key k l) = if k' = k then none else findKey key k' l := by
  unfold findKey eraseKey
  induction l with
  | nil => simp
  | cons a l ih =>
    rw [List.map_cons, List.nodup_cons] at h
    by_cases ha : key a = k
    · rw [List.eraseP_cons_of_pos (by simpa using ha)]
      by_cases hk : k' = k
      · rw [if_pos hk, List.find?_eq_none]
        intro b hb hkey
        rw [decide_eq_true_eq, hk, ← ha] at hkey
        exact h.1 (List.mem_map.mpr ⟨b, hb, hkey⟩)
      · simp [hk, ha, Ne.symm hk]
    · rw [List.eraseP_cons_of_neg (by simpa using ha), List.find?_cons, ih h.2]
      by_cases hk : k' = k
      · simp [hk, ha]
      · simp [hk, List.find?_cons]

theorem nodup_eraseKey (h : (l.map key).Nodup) : ((eraseKey key k l).map key).Nodup :=
  h.sublist (List.eraseP_sublist.map key)

end

end TokuQa.Lib
