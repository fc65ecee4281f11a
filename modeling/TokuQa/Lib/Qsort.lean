import Mathlib.Data.List.Sort

/-!
# Sorting by a comparison function

`qsort` of C takes a function that says with the sign of a number which of two elements comes
first. What it promises (`IsQsort`), it promises for functions that are consistent on the elements
at hand: with any other one the result may be anything. A function whose sign is the order of the
elements is consistent, and they come out in their order (`IsQsort.ascending`).
-/

set_option autoImplicit false

namespace TokuQa.Lib

section

variable {α : Type} {cmp : α → α → Int} {xs : List α}

/-- The function is a total preorder on the elements. -/
structure Consistent (cmp : α → α → Int) (xs : List α) : Prop where
  antisymm : ∀ a ∈ xs, ∀ b ∈ xs, 0 < cmp a b ↔ cmp b a < 0
  trans : ∀ a ∈ xs, ∀ b ∈ xs, ∀ c ∈ xs, cmp a b ≤ 0 → cmp b c ≤ 0 → cmp a c ≤ 0

/-- What `qsort` is known to do. -/
structure IsQsort (sort : (α → α → Int) → List α → List α) : Prop where
  perm : ∀ {cmp xs}, Consistent cmp xs → (sort cmp xs).Perm xs
  sorted : ∀ {cmp xs}, Consistent cmp xs → (sort cmp xs).Pairwise fun a b => cmp a b ≤ 0

/-- One that does: it looks at elements of the list only. -/
def qsort (cmp : α → α → Int) (xs : List α) : List α :=
  (xs.attach.insertionSort fun (a b : {x // x ∈ xs}) => cmp a b ≤ 0).map Subtype.val

theorem isQsort_qsort : IsQsort (qsort (α := α)) where
  perm {cmp xs} _ := by
    have hmap := (List.perm_insertionSort (fun a b : {x // x ∈ xs} => cmp a b ≤ 0) xs.attach).map
      Subtype.val
    rwa [List.attach_map_subtype_val] at hmap
  sorted {cmp xs} h := by
    have htotal : Std.Total fun a b : {x // x ∈ xs} => cmp a b ≤ 0 := by
      refine ⟨fun a b => ?_⟩
      have hab := h.antisymm a a.2 b b.2
      omega
    have htrans : IsTrans {x // x ∈ xs} fun a b => cmp a b ≤ 0 :=
      ⟨fun a b c => h.trans a a.2 b b.2 c c.2⟩
    rw [qsort, List.pairwise_map]
    exact List.pairwise_insertionSort _ _

end

section

variable {α : Type} [LinearOrder α] {cmp : α → α → Int} {xs : List α}

/-- The sign of the function is the order. -/
def SignOf (cmp : α → α → Int) (xs : List α) : Prop :=
  ∀ a ∈ xs, ∀ b ∈ xs, (cmp a b < 0 ↔ a < b) ∧ (cmp a b = 0 ↔ a = b)

theorem SignOf.le_iff (h : SignOf cmp xs) {a b : α} (ha : a ∈ xs) (hb : b ∈ xs) :
    cmp a b ≤ 0 ↔ a ≤ b := by
  obtain ⟨hlt, heq⟩ := h a ha b hb
  rw [le_iff_lt_or_eq, le_iff_lt_or_eq, hlt, heq]

theorem SignOf.consistent (h : SignOf cmp xs) : Consistent cmp xs where
  antisymm a ha b hb := by
    rw [← not_le, h.le_iff ha hb, not_le, (h b hb a ha).1]
  trans a ha b hb c hc hab hbc := by
    rw [h.le_iff ha hb] at hab
    rw [h.le_iff hb hc] at hbc
    exact (h.le_iff ha hc).mpr (hab.trans hbc)

/-- **The elements come out in their order.** -/
theorem IsQsort.ascending {sort : (α → α → Int) → List α → List α} (hsort : IsQsort sort)
    (h : SignOf cmp xs) : (sort cmp xs).Pairwise (· ≤ ·) := by
  have hperm := hsort.perm h.consistent
  refine (hsort.sorted h.consistent).imp_of_mem fun ha hb hab => ?_
  exact (h.le_iff (hperm.subset ha) (hperm.subset hb)).mp hab

end

end TokuQa.Lib
