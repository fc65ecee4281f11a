import Mathlib.Data.List.Nodup

/-!
# Batches, some of them lost

A list is handed on in batches, and the batches whose number `fails` are dropped. What arrives
is a sublist of the list. It is a prefix, that is every element arrives at its own place, only
if nothing arrives after a loss (`kept_prefix_iff`).
-/

set_option autoImplicit false

namespace TokuQa.Lib

variable {α : Type} {fails : Nat → Bool} {n : Nat} {bs : List (List α)}

/-- What arrives of batches that are numbered from `n` on. -/
def kept (fails : Nat → Bool) : Nat → List (List α) → List α
  | _, [] => []
  | n, b :: bs => (if fails n then [] else b) ++ kept fails (n + 1) bs

theorem kept_append_singleton (b : List α) :
    kept fails n (bs ++ [b]) = kept fails n bs ++ if fails (n + bs.length) then [] else b := by
  induction bs generalizing n with
  | nil => simp [kept]
  | cons b' bs ih =>
    have hnumber : n + 1 + bs.length = n + (bs.length + 1) := by omega
    rw [List.cons_append, kept, ih, kept, List.length_cons, hnumber, List.append_assoc]

theorem kept_sublist : (kept fails n bs).Sublist bs.flatten := by
  induction bs generalizing n with
  | nil => exact List.Sublist.refl []
  | cons b bs ih =>
    rw [kept, List.flatten_cons]
    refine List.Sublist.append ?_ ih
    split
    · exact List.nil_sublist b
    · exact List.Sublist.refl b

/-- Nothing arrives when every batch with something in it is lost. -/
theorem kept_eq_nil_iff :
    kept fails n bs = [] ↔ ∀ j, bs.getD j [] ≠ [] → fails (n + j) = true := by
  induction bs generalizing n with
  | nil => simp [kept]
  | cons b bs ih =>
    rw [kept, List.append_eq_nil_iff, ih, ← Nat.and_forall_add_one (p := fun j =>
      (b :: bs).getD j [] ≠ [] → fails (n + j) = true)]
    refine and_congr ?_ (forall_congr' fun j => ?_)
    · cases fails n <;> simp
    · have hnumber : n + 1 + j = n + (j + 1) := by omega
      rw [hnumber, List.getD_cons_succ]

/-- A list that begins with a batch shares nothing with the batches after it. -/
theorem kept_prefix_append_iff {b : List α} (hnodup : (b ++ bs.flatten).Nodup) (hb : b ≠ []) :
    kept fails n bs <+: b ++ bs.flatten ↔ kept fails n bs = [] := by
  constructor
  · intro h
    cases hkept : kept fails n bs with
    | nil => rfl
    | cons x xs =>
      cases b with
      | nil => exact absurd rfl hb
      | cons y ys =>
        rw [hkept, List.cons_append, List.cons_prefix_cons] at h
        have hx : x ∈ bs.flatten := kept_sublist.subset (hkept ▸ List.mem_cons_self)
        rw [h.1] at hx
        exact absurd hx ((List.nodup_append'.mp hnodup).2.2 List.mem_cons_self)
  · intro h
    rw [h]
    exact List.nil_prefix

/-- **Everything is in its place** exactly when every batch after a lost one is lost too, empty
batches aside. -/
theorem kept_prefix_iff (hnodup : bs.flatten.Nodup) :
    kept fails n bs <+: bs.flatten ↔
      ∀ i j, i < j → bs.getD i [] ≠ [] → bs.getD j [] ≠ [] → fails (n + i) = true →
        fails (n + j) = true := by
  induction bs generalizing n with
  | nil => simp [kept]
  | cons b bs ih =>
    rw [List.flatten_cons] at hnodup
    rw [List.flatten_cons, kept]
    by_cases hlost : fails n = true ∧ b ≠ []
    · -- the first batch is missed, so nothing else may arrive
      rw [if_pos hlost.1, List.nil_append, kept_prefix_append_iff hnodup hlost.2, kept_eq_nil_iff]
      constructor
      · intro h i j hij hi hj hfi
        obtain ⟨j, rfl⟩ : ∃ j', j = j' + 1 := ⟨j - 1, by omega⟩
        have hnumber : n + (j + 1) = n + 1 + j := by omega
        rw [hnumber]
        exact h j hj
      · intro h j hj
        have hnumber : n + 1 + j = n + (j + 1) := by omega
        rw [hnumber]
        exact h 0 (j + 1) (Nat.succ_pos j) hlost.2 hj hlost.1
    · have hhead : (if fails n = true then [] else b) = b := by
        by_cases hf : fails n = true
        · rw [if_pos hf]
          by_contra hb
          exact hlost ⟨hf, Ne.symm hb⟩
        · exact if_neg hf
      rw [hhead, List.prefix_append_right_inj, ih (List.nodup_append'.mp hnodup).2.1]
      constructor
      · intro h i j hij hi hj hfi
        obtain ⟨j, rfl⟩ : ∃ j', j = j' + 1 := ⟨j - 1, by omega⟩
        cases i with
        | zero => exact absurd ⟨hfi, hi⟩ hlost
        | succ i =>
          have hnumber : ∀ k, n + (k + 1) = n + 1 + k := fun k => by omega
          rw [hnumber] at hfi ⊢
          exact h i j (by omega) hi hj hfi
      · intro h i j hij hi hj hfi
        have hnumber : ∀ k, n + 1 + k = n + (k + 1) := fun k => by omega
        rw [hnumber] at hfi ⊢
        exact h (i + 1) (j + 1) (by omega) hi hj hfi

/-- Which batches have something in them, when all but the last have the same size. -/
theorem getD_ne_nil_iff {size : Nat} {last : List α} (hfull : ∀ b ∈ bs, b.length = size)
    (hlast : last.length < size) (j : Nat) :
    (bs ++ [last]).getD j [] ≠ [] ↔ j * size < (bs ++ [last]).flatten.length := by
  induction bs generalizing j with
  | nil =>
    cases j with
    | zero => simp [List.length_pos_iff]
    | succ j =>
      have hbeyond : size ≤ (j + 1) * size := Nat.le_mul_of_pos_left size (Nat.succ_pos j)
      simp
      omega
  | cons b bs ih =>
    have hb : b.length = size := hfull b List.mem_cons_self
    cases j with
    | zero =>
      have hne : b ≠ [] := List.ne_nil_of_length_pos (by omega)
      refine iff_of_true hne ?_
      rw [List.cons_append, List.flatten_cons, List.length_append]
      omega
    | succ j =>
      have hrest := ih (fun b' hb' => hfull b' (List.mem_cons_of_mem b hb')) j
      rw [List.cons_append, List.getD_cons_succ, hrest, List.flatten_cons, List.length_append, hb,
        Nat.succ_mul]
      omega

end TokuQa.Lib
