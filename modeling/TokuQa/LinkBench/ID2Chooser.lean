import TokuQa.Lib.JavaInt
import TokuQa.LinkBench.LinkStore

/-!
# `ID2Chooser.java`, as far as the load phase uses it

How many links of a type an id gets, and which ids they point to. The configured link
distribution and the random numbers are arguments: `totCount` is what `calcTotalLinkCount`
answers, and `nextInt` what `rng.nextInt((int) randomid2max)` does.
-/

set_option autoImplicit false

namespace TokuQa.LinkBench

open TokuQa.Lib

structure ID2Chooser where
  /-- "If > 0, choose id2s in range [startid1, randomid2max)". -/
  randomid2max : Int
  /-- "Number of distinct link types". -/
  linkTypeCount : Nat

namespace ID2Chooser

/-- "Just have link types in a sequence starting at the default one". -/
def getLinkTypes (c : ID2Chooser) : List Int :=
  (List.range c.linkTypeCount).map fun i : Nat => defaultLinkType + i

/-- "Divide total links between types". -/
def calcLinkCount (c : ID2Chooser) (totCount linkType : Int) : Int :=
  let minCount := totCount.tdiv c.linkTypeCount
  let leftOver := totCount - minCount
  let typeNum := wrap32 (linkType - defaultLinkType)
  if typeNum < leftOver then minCount + 1 else minCount

def chooseForLoad (c : ID2Chooser) (nextInt id1 : Int) (outlinkIx : Nat) : Int :=
  if c.randomid2max = 0 then wrap64 (id1 + outlinkIx) else nextInt

/-! ## What the loader relies on -/

variable {c : ID2Chooser}

theorem nodup_getLinkTypes (c : ID2Chooser) : c.getLinkTypes.Nodup :=
  nodup_range_add defaultLinkType c.linkTypeCount

/-- The share of a type is a `long` when the total is: only a single type gets the whole, and
nothing is left over then. -/
theorem calcLinkCount_lt {totCount linkType : Int} (htot : totCount < 2 ^ 63)
    (ht : linkType ∈ c.getLinkTypes) : c.calcLinkCount totCount linkType < 2 ^ 63 := by
  obtain ⟨i, hi, rfl⟩ := List.mem_map.mp ht
  have hi : i < c.linkTypeCount := List.mem_range.mp hi
  unfold calcLinkCount
  dsimp only
  by_cases hone : c.linkTypeCount = 1
  · have hi0 : i = 0 := by omega
    subst hi0
    have htyp : wrap32 (defaultLinkType + ((0 : Nat) : Int) - defaultLinkType) = 0 := by decide
    rw [htyp, hone, if_neg (by simp)]
    simpa using htot
  · have hshare : totCount.tdiv c.linkTypeCount < 2 ^ 62 := by
      rcases le_or_gt totCount 0 with hneg | hpos
      · have hneg' : 0 ≤ (-totCount).tdiv c.linkTypeCount := Int.tdiv_nonneg (by omega) (by omega)
        rw [Int.neg_tdiv] at hneg'
        omega
      · rw [Int.tdiv_eq_ediv_of_nonneg (by omega)]
        refine Int.ediv_lt_of_lt_mul (by omega) ?_
        have htwo : (2 : Int) ≤ c.linkTypeCount := by omega
        omega
    split <;> omega

/-- Consecutive ids are told apart even where they wrap around. -/
theorem wrap64_add_injective (id1 : Int) {i j : Nat} (hi : (i : Int) < 2 ^ 63)
    (hj : (j : Int) < 2 ^ 63) (h : wrap64 (id1 + i) = wrap64 (id1 + j)) : i = j := by
  have heq : id1 + (i : Int) = id1 + (j : Int) := wrap_injective h (by omega)
  have : (i : Int) = j := Int.add_left_cancel heq
  exact_mod_cast this

end ID2Chooser

end TokuQa.LinkBench
