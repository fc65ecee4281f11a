import Mathlib.Algebra.Order.Field.Basic
import Mathlib.Algebra.Order.Field.Rat
import Mathlib.Order.Bounds.Basic
import TokuQa.LinkBench.PiecewiseLinear

/-!
# `PiecewiseLinearDistribution.java`, how often an id is expected

The first id of the range is expected most often. `expectedCount` gives an id the rank `u` in
`(0, 1]` and looks for the first point whose probability is at least `u`, with a binary search of
its own. The search is right for lists whose indices add up to an `int`, and the rank is for ranges
whose length is a `long` (`countsFall`).
-/

set_option autoImplicit false

namespace TokuQa.LinkBench.PiecewiseLinear

open TokuQa.Lib

/-- The loop of `binarySearch`, for at most `fuel` steps. -/
def binarySearchLoop (points : List Point) (p : ℚ) : Nat → Int → Int → Except Exn Int
  | 0, _, _ => .error .outOfFuel
  | fuel + 1, left, right => do
    if left < right then
      let mid := (wrap32 (left + right)).tdiv 2
      if (← load points mid).probability ≥ p then
        binarySearchLoop points p fuel left mid
      else
        binarySearchLoop points p fuel (mid + 1) right
    else if (← load points left).probability ≥ p then return left
    else return left + 1

def binarySearch (points : List Point) (p : ℚ) : Except Exn Int :=
  binarySearchLoop points p points.length 0 (points.length - 1)

/-- "Put in into range [0.0, 1.0] with most popular at 0.0". -/
def expectedCount (min max id : Int) (cdf : List Point) : Except Exn ℚ := do
  if id < min ∨ id ≥ max then
    return 0
  let n := wrap64 (max - min)
  let u : ℚ := 1 - wrap64 (id - min) / n
  let ix ← binarySearch cdf u
  let p1 ← load cdf ix
  if ¬ u ≤ p1.probability then
    throw .assertionError
  return p1.value

/-- Points that are a distribution function. -/
structure IsCdf (cdf : List Point) : Prop where
  nonempty : cdf ≠ []
  values : cdf.Pairwise (·.value ≤ ·.value)
  probabilities : cdf.Pairwise (·.probability ≤ ·.probability)
  last : 1 ≤ (cdf.getLast nonempty).probability

/-- The first index with a probability of at least `p`. -/
def IsFirst (points : List Point) (p : ℚ) (ix : Nat) : Prop :=
  IsLeast {i | ∃ h : i < points.length, p ≤ points[i].probability} ix

/-- The search finds the first index, every id has a count, and later ids are not expected more
often. -/
structure CountsFall (cdf : List Point) (min max : Int) : Prop where
  search : ∀ u, 0 < u → u ≤ 1 → ∃ ix : Nat, binarySearch cdf u = .ok ix ∧ IsFirst cdf u ix
  counts : ∀ id, ∃ count, expectedCount min max id cdf = .ok count
  antitone : ∀ id id' count count', min ≤ id → id ≤ id' → id' < max →
    expectedCount min max id cdf = .ok count → expectedCount min max id' cdf = .ok count' →
      count' ≤ count

/-! ## The search -/

section

variable {points : List Point} {p : ℚ}

theorem IsFirst.le_iff (hmono : points.Pairwise (·.probability ≤ ·.probability)) {ix : Nat}
    (h : IsFirst points p ix) {i : Nat} (hi : i < points.length) :
    p ≤ points[i].probability ↔ ix ≤ i := by
  obtain ⟨⟨hix, hp⟩, hleast⟩ := h
  constructor
  · exact fun hle => hleast ⟨hi, hle⟩
  · intro hle
    rcases hle.eq_or_lt with rfl | hlt
    · exact hp
    · exact hp.trans (List.pairwise_iff_getElem.mp hmono _ _ hix hi hlt)

/-- The invariant is that the first index lies between `left` and `right`. -/
theorem binarySearchLoop_eq (hlen : (points.length : Int) ≤ 2 ^ 30 + 1)
    (hmono : points.Pairwise (·.probability ≤ ·.probability)) {ix : Nat}
    (hfirst : IsFirst points p ix) {fuel left right : Nat} (hright : right < points.length)
    (hfuel : right - left < fuel)
    (hleft : left ≤ ix) (hix : ix ≤ right) :
    binarySearchLoop points p fuel left right = .ok ix := by
  induction fuel generalizing left right with
  | zero => omega
  | succ fuel ih =>
    rw [binarySearchLoop]
    split
    · rename_i hlt
      have hmid : (wrap32 ((left : Int) + right)).tdiv 2 = ((left + right) / 2 : Nat) := by
        rw [show wrap32 _ = _ from wrap_eq_self (by omega) (by omega),
          Int.tdiv_eq_ediv_of_nonneg (by omega)]
        omega
      have hbound : (left + right) / 2 < points.length := by omega
      dsimp only
      rw [hmid, load_of_lt hbound]
      dsimp only [bind, Except.bind]
      by_cases hreach : p ≤ points[(left + right) / 2].probability
      · have hle := (hfirst.le_iff hmono hbound).mp hreach
        rw [if_pos hreach]
        exact ih hbound (by omega) hleft hle
      · have hgt := (hfirst.le_iff hmono hbound).not.mp hreach
        rw [if_neg hreach]
        exact_mod_cast ih hright (by omega) (by omega) hix
    · have hhere : left = ix := by omega
      have hbound : left < points.length := by omega
      simp only [load_of_lt hbound, bind, Except.bind]
      rw [if_pos ((hfirst.le_iff hmono hbound).mpr hhere.ge), hhere]
      rfl

end

section

variable {cdf : List Point}

theorem IsCdf.exists_isFirst (h : IsCdf cdf) {u : ℚ} (hu : u ≤ 1) : ∃ ix, IsFirst cdf u ix := by
  have hpos := List.length_pos_of_ne_nil h.nonempty
  have hlast : u ≤ cdf[cdf.length - 1].probability := by
    rw [← List.getLast_eq_getElem h.nonempty]
    exact hu.trans h.last
  have hex : ∃ i, ∃ h : i < cdf.length, u ≤ cdf[i].probability := ⟨cdf.length - 1, by omega, hlast⟩
  exact ⟨Nat.find hex, Nat.isLeast_find hex⟩

theorem binarySearch_eq (h : IsCdf cdf) (hlen : (cdf.length : Int) ≤ 2 ^ 30 + 1) {u : ℚ} {ix : Nat}
    (hfirst : IsFirst cdf u ix) : binarySearch cdf u = .ok ix := by
  have hix : ix < cdf.length := hfirst.1.1
  have hright : ((cdf.length : Int) - 1) = (cdf.length - 1 : Nat) := by omega
  rw [binarySearch, hright]
  exact binarySearchLoop_eq hlen h.probabilities hfirst (by omega) (by omega) (Nat.zero_le ix)
    (by omega)

/-! ## The counts -/

/-- The first id has rank 1, and a later one a smaller rank. -/
theorem rank_bounds {min max id : Int} (hid : min ≤ id) (hid' : id < max) :
    0 < 1 - ((id - min : Int) : ℚ) / (max - min : Int) ∧
      1 - ((id - min : Int) : ℚ) / (max - min : Int) ≤ 1 := by
  have hn : (0 : ℚ) < (max - min : Int) := by exact_mod_cast (by omega : 0 < max - min)
  have hpos : (0 : ℚ) ≤ (id - min : Int) := by exact_mod_cast (by omega : 0 ≤ id - min)
  have hlt : ((id - min : Int) : ℚ) < (max - min : Int) := by
    exact_mod_cast (by omega : id - min < max - min)
  exact ⟨sub_pos.mpr ((div_lt_one hn).mpr hlt), sub_le_self 1 (div_nonneg hpos hn.le)⟩

theorem rank_antitone {min max id id' : Int} (hlt : min < max) (hle : id ≤ id') :
    1 - ((id' - min : Int) : ℚ) / (max - min : Int) ≤
      1 - ((id - min : Int) : ℚ) / (max - min : Int) := by
  have hn : (0 : ℚ) ≤ (max - min : Int) := by exact_mod_cast (by omega : 0 ≤ max - min)
  have hrank : ((id - min : Int) : ℚ) ≤ (id' - min : Int) := by
    exact_mod_cast (by omega : id - min ≤ id' - min)
  exact sub_le_sub_left (div_le_div_of_nonneg_right hrank hn) 1

/-- The count is the value found for the rank. -/
theorem expectedCount_eq (h : IsCdf cdf) (hlen : (cdf.length : Int) ≤ 2 ^ 30 + 1) {min max id : Int}
    (hn : max - min < 2 ^ 63) (hid : min ≤ id) (hid' : id < max) {ix : Nat} (hix : ix < cdf.length)
    (hfirst : IsFirst cdf (1 - (id - min : Int) / (max - min : Int)) ix) :
    expectedCount min max id cdf = .ok cdf[ix].value := by
  have hlength : wrap64 (max - min) = max - min := wrap_eq_self (by omega) hn
  have hrank : wrap64 (id - min) = id - min := wrap_eq_self (by omega) (by omega)
  obtain ⟨_, hreach⟩ := hfirst.1
  unfold expectedCount
  rw [if_neg (by omega), hlength, hrank]
  dsimp only
  rw [binarySearch_eq h hlen hfirst]
  dsimp only [bind, Except.bind]
  rw [load_of_lt hix]
  dsimp only
  rw [if_neg (not_not.mpr hreach)]
  rfl

/-- **Expected counts fall**, for points that are a distribution function. -/
theorem countsFall (h : IsCdf cdf) (hlen : (cdf.length : Int) ≤ 2 ^ 30 + 1) {min max : Int}
    (hlt : min < max) (hn : max - min < 2 ^ 63) : CountsFall cdf min max where
  search := fun u _ hu => by
    obtain ⟨ix, hfirst⟩ := h.exists_isFirst hu
    exact ⟨ix, binarySearch_eq h hlen hfirst, hfirst⟩
  counts := fun id => by
    by_cases hid : id < min ∨ id ≥ max
    · exact ⟨0, if_pos hid⟩
    · obtain ⟨hid, hid'⟩ : min ≤ id ∧ id < max := by omega
      obtain ⟨ix, hfirst⟩ := h.exists_isFirst (rank_bounds hid hid').2
      exact ⟨_, expectedCount_eq h hlen hn hid hid' hfirst.1.1 hfirst⟩
  antitone := fun id id' count count' hid hle hid' hcount hcount' => by
    obtain ⟨ix, hfirst⟩ := h.exists_isFirst (rank_bounds hid (hle.trans_lt hid')).2
    obtain ⟨ix', hfirst'⟩ := h.exists_isFirst (rank_bounds (hid.trans hle) hid').2
    rw [expectedCount_eq h hlen hn hid (by omega) hfirst.1.1 hfirst] at hcount
    rw [expectedCount_eq h hlen hn (by omega) hid' hfirst'.1.1 hfirst'] at hcount'
    -- what reaches the rank of the earlier id reaches that of the later one
    have hix : ix' ≤ ix := hfirst.mono hfirst' fun i hi =>
      ⟨hi.1, (rank_antitone hlt hle).trans hi.2⟩
    rw [← Except.ok.inj hcount, ← Except.ok.inj hcount']
    rcases hix.eq_or_lt with rfl | hlt'
    · exact le_rfl
    · exact_mod_cast List.pairwise_iff_getElem.mp h.values _ _ hfirst'.1.1 hfirst.1.1 hlt'

/-- Three points and nine ids. -/
theorem countsFall_three : CountsFall [⟨0, 1 / 2⟩, ⟨3, 3 / 4⟩, ⟨5, 1⟩] 1 10 :=
  countsFall ⟨by decide, by decide, by decide +kernel, by decide +kernel⟩ (by decide) (by decide)
    (by decide)

/-! ## Where sums overflow -/

/-- The sum of the last two indices is not an `int`, and a search that has to go there asks for a
negative index. -/
theorem binarySearchLoop_error {init : List Point} (last : Point) {p : ℚ}
    (hp : ∀ pt ∈ init, pt.probability < p) (hlen : (2 : Int) ^ 30 + 1 ≤ init.length)
    (hlen' : (init.length : Int) < 2 ^ 31) (fuel : Nat) {left : Nat} (hleft : left < init.length) :
    ∃ e, binarySearchLoop (init ++ [last]) p fuel left init.length = .error e := by
  induction fuel generalizing left with
  | zero => exact ⟨_, rfl⟩
  | succ fuel ih =>
    rw [binarySearchLoop, if_pos (by omega)]
    dsimp only
    rcases lt_or_ge ((left : Int) + init.length) (2 ^ 31) with hsum | hsum
    · have hmid : (wrap32 ((left : Int) + init.length)).tdiv 2 = ((left + init.length) / 2 : Nat) := by
        rw [show wrap32 _ = _ from wrap_eq_self (by omega) hsum,
          Int.tdiv_eq_ediv_of_nonneg (by omega)]
        omega
      have hbound : (left + init.length) / 2 < init.length := by omega
      have hbelow := hp _ (List.getElem_mem hbound)
      rw [hmid, load_of_lt (by rw [List.length_append]; omega)]
      dsimp only [bind, Except.bind]
      rw [List.getElem_append_left hbound, if_neg hbelow.not_ge]
      have hnext : (left + init.length) / 2 + 1 < init.length := by omega
      exact_mod_cast ih hnext
    · have hmid : (wrap32 ((left : Int) + init.length)).tdiv 2 < 0 := by
        have hneg : (left : Int) + init.length - 2 * 2 ^ 31 =
            -(2 * 2 ^ 31 - (left + init.length)) := by omega
        rw [show wrap32 _ = _ from wrap_of_overflow hsum (by omega), hneg, Int.neg_tdiv,
          Int.tdiv_eq_ediv_of_nonneg (by omega)]
        omega
      rw [load, if_pos hmid]
      exact ⟨_, rfl⟩

theorem long_not_countsFall {n : Nat} (hn : (2 : Int) ^ 30 + 1 ≤ n) (hn' : (n : Int) < 2 ^ 31)
    (min max : Int) : IsCdf (List.replicate n ⟨0, 0⟩ ++ [⟨0, 1⟩]) ∧
      ¬ CountsFall (List.replicate n ⟨0, 0⟩ ++ [⟨0, 1⟩]) min max := by
  constructor
  · refine ⟨by simp, ?_, ?_, by simp⟩ <;>
      simp [List.pairwise_append, List.pairwise_replicate]
  · intro h
    obtain ⟨ix, hix, -⟩ := h.search 1 one_pos le_rfl
    have hlen : (List.replicate n (⟨0, 0⟩ : Point)).length = n := List.length_replicate
    have hbelow : ∀ pt ∈ List.replicate n (⟨0, 0⟩ : Point), pt.probability < 1 := by
      intro pt hpt
      rw [(List.mem_replicate.mp hpt).2]
      exact one_pos
    have hpos : 0 < (List.replicate n (⟨0, 0⟩ : Point)).length := by omega
    obtain ⟨e, he⟩ := binarySearchLoop_error (⟨0, 1⟩ : Point) hbelow (by omega) (by omega) (n + 1) hpos
    have hlast :
        ((List.replicate n (⟨0, 0⟩ : Point) ++ [(⟨0, 1⟩ : Point)]).length : Int) - 1 = n := by
      rw [List.length_append, hlen, List.length_singleton]
      omega
    rw [binarySearch, hlast, List.length_append, hlen, List.length_singleton] at hix
    rw [hlen] at he
    exact absurd (hix.symm.trans he) nofun

/-- The second of nearly `2 ^ 64` ids has rank 2, and in the list of `2 ^ 30 + 2` points the last
one is not found. -/
theorem not_countsFall :
    (IsCdf [⟨0, 1⟩] ∧ ¬ CountsFall [⟨0, 1⟩] (-2 ^ 63) (2 ^ 63 - 1)) ∧
      IsCdf (List.replicate (2 ^ 30 + 1) ⟨0, 0⟩ ++ [⟨0, 1⟩]) ∧
        ¬ CountsFall (List.replicate (2 ^ 30 + 1) ⟨0, 0⟩ ++ [⟨0, 1⟩]) 0 1 := by
  refine ⟨⟨⟨by decide, by decide, by decide, by decide⟩, fun h => ?_⟩,
    long_not_countsFall (by norm_num) (by norm_num) 0 1⟩
  obtain ⟨count, hcount⟩ := h.counts (-2 ^ 63 + 1)
  have herror : expectedCount (-2 ^ 63) (2 ^ 63 - 1) (-2 ^ 63 + 1) [⟨0, 1⟩] =
      .error .indexOutOfBounds := by decide +kernel
  rw [herror] at hcount
  cases hcount

end

end TokuQa.LinkBench.PiecewiseLinear
