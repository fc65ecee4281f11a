import Mathlib.Data.List.Perm.Basic
import Mathlib.Data.List.Nodup
import Mathlib.Order.Defs.Unbundled

/-!
# A sorted set under a comparator

A sorted set is the list of its elements in iteration order. `treeAdd cmp x` puts `x` where
the comparator says, and leaves the set alone when an element compares equal, which is what a
`TreeSet` does with `add`.

`r` is the order the comparator is meant to have. The comparator need not agree with `r`
everywhere, only on the element added against the elements there (`Sorts`); then adding keeps
the set sorted, adds exactly that element, and a set sorted by an asymmetric order is fixed
by its members (`eq_of_mem_iff`).
-/

set_option autoImplicit false

namespace TokuQa.Lib

variable {α : Type}

def treeAdd (cmp : α → α → Int) (x : α) : List α → List α
  | [] => [x]
  | y :: ys =>
    if cmp x y < 0 then x :: y :: ys
    else if cmp x y = 0 then y :: ys
    else y :: treeAdd cmp x ys

/-- The comparator puts `x` on the side of `y` that `r` does, and never beside it. -/
def Sorts (cmp : α → α → Int) (r : α → α → Prop) (x y : α) : Prop :=
  (cmp x y < 0 ∧ r x y) ∨ (0 < cmp x y ∧ r y x)

section

variable {cmp : α → α → Int} {r : α → α → Prop} {x : α} {ys : List α}

theorem perm_treeAdd (h : ∀ y ∈ ys, cmp x y ≠ 0) : (treeAdd cmp x ys).Perm (x :: ys) := by
  induction ys with
  | nil => rfl
  | cons y ys ih =>
    have hrest := ih fun z hz => h z (by simp [hz])
    unfold treeAdd
    split
    · rfl
    · rw [if_neg (h y (by simp))]
      exact (hrest.cons y).trans (List.Perm.swap x y ys)

theorem Sorts.ne_zero {y : α} (h : Sorts cmp r x y) : cmp x y ≠ 0 := by
  rcases h with ⟨h, _⟩ | ⟨h, _⟩ <;> omega

theorem mem_treeAdd (h : ∀ y ∈ ys, Sorts cmp r x y) {z : α} :
    z ∈ treeAdd cmp x ys ↔ z = x ∨ z ∈ ys := by
  rw [(perm_treeAdd fun y hy => (h y hy).ne_zero).mem_iff, List.mem_cons]

/-- **Adding keeps the set sorted.** -/
theorem pairwise_treeAdd [IsTrans α r] (h : ∀ y ∈ ys, Sorts cmp r x y) (hys : ys.Pairwise r) :
    (treeAdd cmp x ys).Pairwise r := by
  induction ys with
  | nil => simp [treeAdd]
  | cons y ys ih =>
    have hy : Sorts cmp r x y := h y (by simp)
    have hrest : ∀ z ∈ ys, Sorts cmp r x z := fun z hz => h z (by simp [hz])
    rw [List.pairwise_cons] at hys
    unfold treeAdd
    rcases hy with ⟨hlt, hr⟩ | ⟨hgt, hr⟩
    · rw [if_pos hlt]
      refine List.pairwise_cons.mpr ⟨fun z hz => ?_, List.pairwise_cons.mpr hys⟩
      rcases List.mem_cons.mp hz with rfl | hz
      · exact hr
      · exact IsTrans.trans _ _ _ hr (hys.1 z hz)
    · rw [if_neg (by omega), if_neg (by omega)]
      refine List.pairwise_cons.mpr ⟨fun z hz => ?_, ih hrest hys.2⟩
      rcases (mem_treeAdd hrest).mp hz with rfl | hz
      · exact hr
      · exact hys.1 z hz

/-- A strictly sorted list is determined by its members. -/
theorem eq_of_mem_iff (hasymm : ∀ x y, r x y → ¬ r y x) {xs ys : List α} (hxs : xs.Pairwise r)
    (hys : ys.Pairwise r) (hmem : ∀ z, z ∈ xs ↔ z ∈ ys) : xs = ys := by
  have hne : ∀ {zs : List α}, zs.Pairwise r → zs.Nodup := by
    intro zs hzs
    refine hzs.imp fun {a b} hab he => ?_
    subst he
    exact hasymm a a hab hab
  have hperm : xs.Perm ys := (List.perm_ext_iff_of_nodup (hne hxs) (hne hys)).mpr hmem
  exact hperm.eq_of_pairwise (fun a b _ _ hab hba => absurd hba (hasymm a b hab)) hxs hys

end

end TokuQa.Lib
