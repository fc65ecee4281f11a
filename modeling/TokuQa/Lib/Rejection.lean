import Mathlib.Data.Finset.Card
import Mathlib.Data.Finset.Lattice.Basic
import Mathlib.Data.Finset.Range
import Mathlib.Data.Nat.Find

/-!
# Rejection sampling

Values are drawn until so many different free ones have come. `fresh` are those that have come in
the first `k` draws; a rejected draw adds nothing to them (`fresh_of_rejected`), an accepted one
adds itself (`fresh_succ_of_accepted`). One more comes as long as not all free values have
(`exists_fresh_draw`), and which values have come when there are `n` of them can be said without
the number of draws it took (`mem_fresh_iff`).
-/

set_option autoImplicit false

namespace TokuQa.Lib

variable {ι : Type} [DecidableEq ι]

/-- The free values among the first `k` draws. -/
def fresh (draw : Nat → ι) (free : Finset ι) (k : Nat) : Finset ι :=
  (Finset.range k).image draw ∩ free

section

variable {draw : Nat → ι} {free : Finset ι} {k k' n : Nat} {v : ι}

theorem mem_fresh : v ∈ fresh draw free k ↔ (∃ i < k, draw i = v) ∧ v ∈ free := by
  simp [fresh]

theorem fresh_subset (draw : Nat → ι) (free : Finset ι) (k : Nat) : fresh draw free k ⊆ free :=
  Finset.inter_subset_right

theorem fresh_mono (h : k ≤ k') : fresh draw free k ⊆ fresh draw free k' := by
  intro v hv
  obtain ⟨⟨i, hi, hdraw⟩, hfree⟩ := mem_fresh.mp hv
  exact mem_fresh.mpr ⟨⟨i, hi.trans_le h, hdraw⟩, hfree⟩

/-- Nothing comes of draws that are not free or have come before. -/
theorem fresh_of_rejected (hk : k ≤ k')
    (h : ∀ i, k ≤ i → i < k' → draw i ∈ free → draw i ∈ fresh draw free k) :
    fresh draw free k' = fresh draw free k := by
  refine Finset.Subset.antisymm (fun v hv => ?_) (fresh_mono hk)
  obtain ⟨⟨i, hi, rfl⟩, hfree⟩ := mem_fresh.mp hv
  rcases Nat.lt_or_ge i k with hlt | hge
  · exact mem_fresh.mpr ⟨⟨i, hlt, rfl⟩, hfree⟩
  · exact h i hge hi hfree

theorem fresh_succ_of_accepted (h : draw k ∈ free) :
    fresh draw free (k + 1) = insert (draw k) (fresh draw free k) := by
  rw [fresh, Finset.range_add_one, Finset.image_insert, Finset.insert_inter_of_mem h]
  rfl

/-- **There is always another one**, if every value is drawn and not all free ones have come. -/
theorem exists_fresh_draw (hall : ∀ v ∈ free, ∃ i < n, draw i = v)
    (h : (fresh draw free k).card < free.card) :
    ∃ i ≥ k, i < n ∧ draw i ∈ free ∧ draw i ∉ fresh draw free k := by
  obtain ⟨v, hfree, hv⟩ := Finset.exists_mem_notMem_of_card_lt_card h
  obtain ⟨i, hi, rfl⟩ := hall v hfree
  refine ⟨i, ?_, hi, hfree, hv⟩
  by_contra hlt
  exact hv (mem_fresh.mpr ⟨⟨i, not_le.mp hlt, rfl⟩, hfree⟩)

/-- **Which values are among the first `n`**: those that are drawn when fewer than `n` have come. -/
theorem mem_fresh_iff (hcard : (fresh draw free k).card = n) (hfree : v ∈ free) :
    v ∈ fresh draw free k ↔ ∃ i, draw i = v ∧ (fresh draw free i).card < n := by
  constructor
  · intro hv
    obtain ⟨⟨i, hi, hdraw⟩, -⟩ := mem_fresh.mp hv
    -- the first time it is drawn
    have hex : ∃ i, draw i = v := ⟨i, hdraw⟩
    refine ⟨Nat.find hex, Nat.find_spec hex, ?_⟩
    have hle : Nat.find hex ≤ k := (Nat.find_min' hex hdraw).trans hi.le
    have hnot : v ∉ fresh draw free (Nat.find hex) := by
      intro hmem
      obtain ⟨⟨j, hj, hdraw'⟩, -⟩ := mem_fresh.mp hmem
      exact Nat.find_min hex hj hdraw'
    rw [← hcard]
    exact Finset.card_lt_card ⟨fresh_mono hle, fun hsub => hnot (hsub hv)⟩
  · rintro ⟨i, hdraw, hlt⟩
    refine mem_fresh.mpr ⟨⟨i, ?_, hdraw⟩, hfree⟩
    by_contra hge
    have hsub : fresh draw free k ⊆ fresh draw free i := fresh_mono (not_lt.mp hge)
    have hle := Finset.card_le_card hsub
    omega

end

end TokuQa.Lib
