import TokuQa.Lib.JavaInt
import TokuQa.Lib.Residue

/-!
# `Shuffler.java`

"Divide 0..9 into multiple groups", then "move elements with same position in each group together":
the elements with one position are a residue class modulo `m`, so the value at `i` is
`Lib.gathered m n i`, in which the first `n % m` classes have one element more.

`long` arithmetic is wrapped where it can leave its range; of sums and products only the result
is, and a quotient leaves it for no positive divisor. A division by zero throws, which is `none`.
-/

set_option autoImplicit false

namespace TokuQa.LinkBench.Shuffler

open TokuQa.Lib

/-- "Get T(a)[i]". -/
def getPermutationValue (i n m : Int) : Option Int :=
  if m = 0 then none
  else
    let minsize := n.tdiv m
    let maxsize := if n.tmod m = 0 then minsize else minsize + 1
    let nMaxsizeGroups := n.tmod m
    let newgroupid := i.tmod m
    let newidx := i.tdiv m
    if newgroupid < nMaxsizeGroups then some (wrap64 (newgroupid * maxsize + newidx))
    else some (wrap64 (nMaxsizeGroups * maxsize + (newgroupid - nMaxsizeGroups) * minsize + newidx))

/-- The same between `start` and `end`. -/
def getPermutationValueFrom (start end_ m i : Int) : Option Int :=
  (getPermutationValue (wrap64 (i - start)) (wrap64 (end_ - start)) m).map fun v => wrap64 (start + v)

/-- "Apply multiple transformation T to make a more random permutation". -/
def getPermutationValues (start end_ : Int) (ms : List Int) (i : Int) : Option Int :=
  ms.foldlM (fun i m => getPermutationValueFrom start end_ m i) i

/-- Every id of the range has a value, which is in the range; no two have the same, and none is
left out. -/
def Permutes (start end_ : Int) (f : Int → Option Int) : Prop :=
  Set.BijOn f (Set.Ico start end_) (Set.image some (Set.Ico start end_))

section

variable {start end_ i n m : Int} {f g : Int → Option Int}

/-- The code computes where the element is when the classes are laid out. -/
theorem getPermutationValue_eq (hm : 1 ≤ m) (hi : 0 ≤ i) (hin : i < n) (hn : n < 2 ^ 63) :
    getPermutationValue i n m = some (gathered m n i) := by
  have hmem := gathered_mapsTo (s := m) (n := n) (by omega) ⟨hi, hin⟩
  have hwrap : wrap64 (gathered m n i) = gathered m n i := wrap_eq_self (by have := hmem.1; omega)
    (hmem.2.trans hn)
  have hr0 := Int.emod_nonneg n (b := m) (by omega)
  have hg0 := Int.emod_nonneg i (b := m) (by omega)
  unfold getPermutationValue
  rw [if_neg (by omega), Int.tdiv_eq_ediv_of_nonneg (by omega), Int.tdiv_eq_ediv_of_nonneg hi,
    Int.tmod_eq_emod_of_nonneg (by omega), Int.tmod_eq_emod_of_nonneg hi]
  dsimp only
  rw [← hwrap]
  unfold gathered classStart
  by_cases hbig : i % m < n % m
  · rw [if_pos hbig, if_neg (by omega), min_eq_left hbig.le, Int.mul_add, Int.mul_one]
  · rw [if_neg hbig, min_eq_right (by omega), Int.sub_mul]
    refine congrArg (fun x => some (wrap64 x)) ?_
    by_cases hzero : n % m = 0
    · rw [if_pos hzero, hzero, Int.zero_mul]
      omega
    · rw [if_neg hzero, Int.mul_add, Int.mul_one]
      omega

theorem permutes_of_bijOn {h : Int → Int} (hh : Set.BijOn h (Set.Ico start end_) (Set.Ico start end_))
    (hf : ∀ i ∈ Set.Ico start end_, f i = some (h i)) : Permutes start end_ f := by
  have hsome : Set.BijOn some (Set.Ico start end_) (Set.image some (Set.Ico start end_)) :=
    (Option.some_injective Int).injOn.bijOn_image
  exact (hsome.comp hh).congr fun i hi => (hf i hi).symm

/-- One permutation after another. -/
theorem Permutes.bind (hf : Permutes start end_ f) (hg : Permutes start end_ g) :
    Permutes start end_ fun i => (f i).bind g := by
  have hbind : Set.BijOn (fun x : Option Int => x.bind g) (Set.image some (Set.Ico start end_))
      (Set.image some (Set.Ico start end_)) := by
    refine ⟨?_, ?_, ?_⟩
    · rintro _ ⟨i, hi, rfl⟩
      exact hg.mapsTo hi
    · rintro _ ⟨i, hi, rfl⟩ _ ⟨j, hj, rfl⟩ heq
      rw [hg.injOn hi hj heq]
    · intro y hy
      obtain ⟨i, hi, rfl⟩ := hg.surjOn hy
      exact ⟨some i, ⟨i, hi, rfl⟩, rfl⟩
  exact hbind.comp hf

theorem permutes_some : Permutes start end_ some :=
  (Option.some_injective Int).injOn.bijOn_image

section

variable (hstart : -2 ^ 63 ≤ start) (hend : end_ < 2 ^ 63) (hlen : end_ - start < 2 ^ 63)
include hstart hend hlen

theorem getPermutationValueFrom_permutes (hm : 1 ≤ m) :
    Permutes start end_ (getPermutationValueFrom start end_ m) := by
  have hshift : Set.BijOn (fun i => i - start) (Set.Ico start end_) (Set.Ico 0 (end_ - start)) := by
    refine ⟨fun i hi => ?_, fun i _ j _ heq => ?_, fun k hk => ⟨k + start, ?_, ?_⟩⟩
    · simp only [Set.mem_Ico] at hi ⊢
      omega
    · simp only at heq
      omega
    · simp only [Set.mem_Ico] at hk ⊢
      omega
    · exact Int.add_sub_cancel k start
  have hback : Set.BijOn (fun v => start + v) (Set.Ico 0 (end_ - start)) (Set.Ico start end_) := by
    refine ⟨fun k hk => ?_, fun i _ j _ heq => ?_, fun i hi => ⟨i - start, ?_, ?_⟩⟩
    · simp only [Set.mem_Ico] at hk ⊢
      omega
    · exact Int.add_left_cancel heq
    · simp only [Set.mem_Ico] at hi ⊢
      omega
    · simp only
      omega
  have hgather : Set.BijOn (gathered m (end_ - start)) (Set.Ico 0 (end_ - start))
      (Set.Ico 0 (end_ - start)) := gathered_bijOn (by omega)
  refine permutes_of_bijOn (hback.comp (hgather.comp hshift)) fun i hi => ?_
  have hmem := hshift.mapsTo hi
  have hval := hback.mapsTo (hgather.mapsTo hmem)
  simp only [Set.mem_Ico] at hmem
  have hi' : wrap64 (i - start) = i - start := wrap_eq_self (by omega) (by omega)
  have hn : wrap64 (end_ - start) = end_ - start := wrap_eq_self (by omega) hlen
  unfold getPermutationValueFrom
  rw [hi', hn, getPermutationValue_eq hm hmem.1 hmem.2 hlen, Option.map_some]
  exact congrArg some (wrap_eq_self (hstart.trans hval.1) (hval.2.trans hend))

/-- **`getPermutationValue` is a permutation** of the range, and so is every composition of it,
whatever the sizes of the groups. -/
theorem getPermutationValues_permutes :
    (∀ m, 1 ≤ m → Permutes start end_ (getPermutationValueFrom start end_ m)) ∧
      ∀ ms : List Int, (∀ m ∈ ms, 1 ≤ m) →
        Permutes start end_ (getPermutationValues start end_ ms) := by
  refine ⟨fun m hm => getPermutationValueFrom_permutes hstart hend hlen hm, fun ms hms => ?_⟩
  induction ms with
  | nil => exact permutes_some
  | cons m ms ih =>
    have hfirst := getPermutationValueFrom_permutes hstart hend hlen (hms m List.mem_cons_self)
    exact hfirst.bind (ih fun m' hm' => hms m' (List.mem_cons_of_mem m hm'))

end

end

/-- Nine ids in groups of four, as in the comment of the class, and then in groups of twenty. -/
theorem getPermutationValues_nine :
    (∀ m, 1 ≤ m → Permutes 0 9 (getPermutationValueFrom 0 9 m)) ∧
      ∀ ms : List Int, (∀ m ∈ ms, 1 ≤ m) → Permutes 0 9 (getPermutationValues 0 9 ms) :=
  getPermutationValues_permutes (by decide) (by decide) (by decide)

/-- Where the length is no `long`, the first id goes to the end of the range. -/
theorem length_overflows :
    ¬ ∀ start end_ m : Int, -2 ^ 63 ≤ start → start < end_ → end_ < 2 ^ 63 → 1 ≤ m →
      Permutes start end_ (getPermutationValueFrom start end_ m) := by
  intro h
  have hperm := h (-2 ^ 63) (2 ^ 63 - 1) 2 (by decide) (by decide) (by decide) (by decide)
  have hvalue : getPermutationValueFrom (-2 ^ 63) (2 ^ 63 - 1) 2 (-2 ^ 63) = some (2 ^ 63 - 1) := by
    decide
  obtain ⟨v, hv, heq⟩ :=
    hperm.mapsTo (Set.left_mem_Ico.mpr (by decide : (-2 ^ 63 : Int) < 2 ^ 63 - 1))
  rw [hvalue] at heq
  cases heq
  exact lt_irrefl _ hv.2

end TokuQa.LinkBench.Shuffler
