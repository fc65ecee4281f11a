import Mathlib.Algebra.Order.Ring.Int
import Mathlib.Data.List.Nodup
import Mathlib.Data.List.Perm.Subperm
import Mathlib.Data.Nat.ModEq

/-!
# Stepping through the residues

Steps of a fixed length modulo `n`, from anywhere. If the length has no factor in common with
`n`, then `n` steps meet every residue, each of them once.
-/

set_option autoImplicit false

namespace TokuQa.Lib

variable {p n : Nat}

theorem stride_injective (hp : Nat.Coprime n p) (s : Nat) {i j : Nat} (hi : i < n) (hj : j < n)
    (h : (s + i * p) % n = (s + j * p) % n) : i = j := by
  have hmul : i * p ≡ j * p [MOD n] := Nat.ModEq.add_left_cancel' s h
  have hmod : i ≡ j [MOD n] := Nat.ModEq.cancel_right_of_coprime hp hmul
  rw [← Nat.mod_eq_of_lt hi, ← Nat.mod_eq_of_lt hj]
  exact hmod

/-- **Every residue, once.** -/
theorem perm_stride (hn : 0 < n) (hp : Nat.Coprime n p) (s : Nat) :
    ((List.range n).map fun k => (s + k * p) % n).Perm (List.range n) := by
  have hnodup : ((List.range n).map fun k => (s + k * p) % n).Nodup := by
    refine (List.nodup_map_iff_inj_on List.nodup_range).mpr fun i hi j hj he => ?_
    exact stride_injective hp s (List.mem_range.mp hi) (List.mem_range.mp hj) he
  have hsub : ((List.range n).map fun k => (s + k * p) % n) ⊆ List.range n := by
    intro x hx
    obtain ⟨k, -, rfl⟩ := List.mem_map.mp hx
    exact List.mem_range.mpr (Nat.mod_lt _ hn)
  refine (List.subperm_of_subset hnodup hsub).perm_of_length_le ?_
  simp

end TokuQa.Lib
