import Mathlib.Data.List.Sort

/-!
# Order statistics

The value of a rank among some values is the one that comes there, from 1 on, when they are in
ascending order. What is used of it is how it is found by counting: of the values that are below a
bound there are as many as the rank exactly if the value of that rank is below it
(`le_countP_iff`).
-/

set_option autoImplicit false

namespace TokuQa.Lib

section

variable {α : Type} {p : α → Bool} {xs : List α} {x : α} {k : Nat}

/-- In a list in which `p` holds of a first part only, the places of that part are below its
length. -/
theorem lt_countP_iff (hp : xs.Pairwise fun a b => p b = true → p a = true)
    (hx : xs[k]? = some x) : k < xs.countP p ↔ p x = true := by
  induction xs generalizing k with
  | nil => cases hx
  | cons a xs ih =>
    obtain ⟨ha, hxs⟩ := List.pairwise_cons.mp hp
    cases k with
    | zero =>
      cases hx
      refine ⟨fun hpos => ?_, fun hpx => List.countP_pos_iff.mpr ⟨x, List.mem_cons_self, hpx⟩⟩
      obtain ⟨b, hb, hpb⟩ := List.countP_pos_iff.mp hpos
      rcases List.mem_cons.mp hb with rfl | hb
      · exact hpb
      · exact ha b hb hpb
    | succ k =>
      rw [← ih hxs hx, List.countP_cons]
      by_cases hpa : p a = true
      · rw [if_pos hpa]
        omega
      · have hzero : xs.countP p = 0 := List.countP_eq_zero.mpr fun b hb hpb => hpa (ha b hb hpb)
        rw [if_neg hpa]
        omega

end

variable {α : Type} [LinearOrder α]

def ascending (xs : List α) : List α := xs.insertionSort (· ≤ ·)

/-- The value of a rank, from 1 on. -/
def ofRank (xs : List α) (k : Nat) : Option α := (ascending xs)[k - 1]?

variable {p : α → Bool} {xs : List α} {x : α} {k : Nat}

theorem ofRank_isSome (hk : 1 ≤ k) (hk' : k ≤ xs.length) : ∃ x, ofRank xs k = some x := by
  have hlen : k - 1 < (ascending xs).length := by
    rw [ascending, List.length_insertionSort]
    omega
  exact ⟨_, List.getElem?_eq_getElem hlen⟩

theorem ofRank_le_length (h : ofRank xs k = some x) : k ≤ xs.length := by
  obtain ⟨hlt, _⟩ := List.getElem?_eq_some_iff.mp h
  rw [ascending, List.length_insertionSort] at hlt
  omega

/-- **A rank is found by counting.** -/
theorem le_countP_iff (hp : ∀ a b, a ≤ b → p b = true → p a = true) (hk : 1 ≤ k)
    (hx : ofRank xs k = some x) : k ≤ xs.countP p ↔ p x = true := by
  have hsorted : (ascending xs).Pairwise fun a b => p b = true → p a = true :=
    (List.pairwise_insertionSort (· ≤ ·) xs).imp (hp _ _)
  have hperm : (ascending xs).Perm xs := List.perm_insertionSort (· ≤ ·) xs
  rw [← lt_countP_iff hsorted hx, hperm.countP_eq]
  omega

end TokuQa.Lib
