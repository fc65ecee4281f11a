import TokuQa.Tpcc.LoadRows

/-!
# `support.c`: `InitPermutation` and `GetPermutation`

The two share the static array `nums` and the counter `perm_count`. The array has as many cells as
a district has customers, and holds anything before the first call; the number of orders
`ORD_PER_DIST` is a parameter, of which the header only says that it is the number of customers.

The shuffle exchanges every cell but the last with one behind it, so its ranges shrink to a single
cell and are never empty; what `GetPermutation` deals out is what was filled in, in some order.
-/

set_option autoImplicit false

namespace TokuQa.Tpcc.Permutation

open TokuQa.Lib

/-- The static variables. -/
structure Statics where
  nums : List Int
  permCount : Nat

/-- What `RandomNumber` is asked for. -/
structure Request where
  min : Nat
  max : Nat

/-- The first loop, with `n` turns left from `i` on. -/
def fill : (n i : Nat) → List Int → Option (List Int)
  | 0, _, nums => some nums
  | n + 1, i, nums => do fill n (i + 1) (← setAt nums i ((i : Int) + 1))

/-- The second loop, with the requests it makes: `rand i` is what `rand` returns in turn `i`.
`swap_int` keeps its first argument in `tmp`. -/
def shuffle (ordPerDist : Nat) (rand : Nat → Nat) :
    (n i : Nat) → List Int → Option (List Request × List Int)
  | 0, _, nums => some ([], nums)
  | n + 1, i, nums => do
    let j := randomNumber (rand i) (i + 1) (ordPerDist - 1)
    let nums ← exchange nums j i
    let (requests, nums) ← shuffle ordPerDist rand n (i + 1) nums
    some (⟨i + 1, ordPerDist - 1⟩ :: requests, nums)

def initPermutation (ordPerDist : Nat) (rand : Nat → Nat) (s : Statics) :
    Option (List Request × Statics) := do
  let nums ← fill ordPerDist 0 s.nums
  let (requests, nums) ← shuffle ordPerDist rand (ordPerDist - 1) 0 nums
  some (requests, ⟨nums, 0⟩)

/-- `none` past the end, where the code aborts. -/
def getPermutation (ordPerDist : Nat) (s : Statics) : Option (Int × Statics) :=
  if ordPerDist ≤ s.permCount then none
  else do
    let x ← s.nums[s.permCount]?
    some (x, { s with permCount := s.permCount + 1 })

/-- The calls of a loop of `k` turns. -/
def getPermutations (ordPerDist : Nat) : Nat → Statics → Option (List Int × Statics)
  | 0, s => some ([], s)
  | k + 1, s => do
    let (x, s) ← getPermutation ordPerDist s
    let (xs, s) ← getPermutations ordPerDist k s
    some (x :: xs, s)

/-! ## The fill -/

theorem fill_eq {n i : Nat} {nums : List Int} (h : i + n ≤ nums.length) :
    fill n i nums =
      some (nums.take i ++ ((List.range n).map fun k : Nat => ((i + k : Nat) : Int) + 1) ++
        nums.drop (i + n)) := by
  induction n generalizing i nums with
  | zero => simp [fill]
  | succ n ih =>
    have hlt : i < nums.length := by omega
    have hset : i + 1 + n ≤ (nums.set i ((i : Int) + 1)).length := by
      rw [List.length_set]
      omega
    have htake : (nums.set i ((i : Int) + 1)).take (i + 1) = nums.take i ++ [(i : Int) + 1] := by
      rw [List.take_set, List.take_succ_eq_append_getElem hlt, List.set_append_right _ _ (by simp)]
      simp [Nat.min_eq_left hlt.le]
    have hdrop : (nums.set i ((i : Int) + 1)).drop (i + 1 + n) = nums.drop (i + (n + 1)) := by
      rw [List.drop_set_of_lt (by omega), Nat.add_right_comm]
      rfl
    simp only [fill, setAt_of_lt hlt, Option.bind_eq_bind, Option.bind_some, ih hset, htake, hdrop,
      List.range_succ_eq_map, List.map_cons, List.map_map, List.append_assoc, List.cons_append,
      List.nil_append, Nat.add_zero]
    congr 4
    refine List.map_congr_left fun k _ => ?_
    simp only [Function.comp_apply]
    omega

/-- The customers in order, and what the array holds behind them. -/
theorem fill_upTo {n : Nat} {nums : List Int} (h : n ≤ nums.length) :
    fill n 0 nums = some (upTo n ++ nums.drop n) := by
  rw [fill_eq (by omega), List.take_zero, List.nil_append, Nat.zero_add]
  simp only [Nat.zero_add]
  rfl

/-! ## The shuffle -/

theorem shuffle_perm {ordPerDist : Nat} (rand : Nat → Nat) {n i : Nat} {nums : List Int}
    (back : List Int) (hi : i + n = ordPerDist - 1) (hpos : 0 < ordPerDist)
    (hlen : nums.length = ordPerDist) :
    ∃ requests nums', shuffle ordPerDist rand n i (nums ++ back) = some (requests, nums' ++ back) ∧
      nums'.Perm nums ∧ ∀ r ∈ requests, r.min ≤ r.max := by
  induction n generalizing i nums with
  | zero => exact ⟨[], nums, rfl, List.Perm.refl nums, by simp⟩
  | succ n ih =>
    have hrange : i + 1 ≤ ordPerDist - 1 := by omega
    have hj : randomNumber (rand i) (i + 1) (ordPerDist - 1) < nums.length := by
      have hle := randomNumber_le hrange (rand i)
      omega
    obtain ⟨nums₁, hswap, hperm⟩ := exchange_perm hj (by omega : i < nums.length)
    obtain ⟨requests, nums', hrest, hperm', hle⟩ := ih (i := i + 1) (by omega)
      (hperm.length_eq.trans hlen)
    refine ⟨⟨i + 1, ordPerDist - 1⟩ :: requests, nums', ?_, hperm'.trans hperm, ?_⟩
    · simp only [shuffle, exchange_append back hswap, Option.bind_eq_bind, Option.bind_some, hrest]
    · intro r hr
      rcases List.mem_cons.mp hr with rfl | hr
      · exact hrange
      · exact hle r hr

/-! ## The dealing -/

theorem getPermutations_eq {ordPerDist : Nat} {s : Statics} {k : Nat}
    (hk : s.permCount + k ≤ ordPerDist) (hlen : ordPerDist ≤ s.nums.length) :
    getPermutations ordPerDist k s =
      some ((s.nums.drop s.permCount).take k, { s with permCount := s.permCount + k }) := by
  induction k generalizing s with
  | zero => rfl
  | succ k ih =>
    have hlt : s.permCount < s.nums.length := by omega
    have hrest := ih (s := { s with permCount := s.permCount + 1 })
      (by show s.permCount + 1 + k ≤ ordPerDist; omega) hlen
    simp only [getPermutations, getPermutation, if_neg (by omega : ¬ ordPerDist ≤ s.permCount),
      List.getElem?_eq_getElem hlt, Option.bind_eq_bind, Option.bind_some, hrest]
    rw [List.drop_eq_getElem_cons hlt, List.take_succ_cons, Nat.add_right_comm]
    rfl

/-- **Every customer is dealt once**, whatever the array held and whatever is drawn, and no
request is for an empty range. -/
theorem each_customer_once {n : Nat} {s : Statics} (hn : 1 ≤ n) (hlen : n ≤ s.nums.length)
    (rand : Nat → Nat) :
    ∃ requests s' out s'', initPermutation n rand s = some (requests, s') ∧
      (∀ r ∈ requests, r.min ≤ r.max) ∧
      getPermutations n n s' = some (out, s'') ∧ out.Nodup ∧
      ∀ c : Int, c ∈ out ↔ 1 ≤ c ∧ c ≤ n := by
  obtain ⟨requests, nums', hshuffle, hperm, hle⟩ :=
    shuffle_perm (n := n - 1) (i := 0) rand (s.nums.drop n) (by omega) hn (length_upTo n)
  have hlen' : nums'.length = n := hperm.length_eq.trans (length_upTo n)
  refine ⟨requests, ⟨nums' ++ s.nums.drop n, 0⟩, nums', ⟨nums' ++ s.nums.drop n, n⟩, ?_, hle, ?_,
    hperm.nodup_iff.mpr (nodup_upTo n), fun c => hperm.mem_iff.trans mem_upTo⟩
  · simp only [initPermutation, fill_upTo hlen, hshuffle, Option.bind_eq_bind, Option.bind_some]
  · rw [getPermutations_eq (by simp) (by simp [hlen'])]
    simp [← hlen']

/-- Four customers, at draws that exchange the first with the last. -/
theorem each_customer_once_four : ∃ requests s' out s'',
    initPermutation 4 (fun _ => 2) ⟨[7, 7, 7, 7], 4⟩ = some (requests, s') ∧
      (∀ r ∈ requests, r.min ≤ r.max) ∧
      getPermutations 4 4 s' = some (out, s'') ∧ out.Nodup ∧
      ∀ c : Int, c ∈ out ↔ 1 ≤ c ∧ c ≤ (4 : Nat) :=
  each_customer_once (by decide) (by decide) _

/-! ## The rows that are loaded -/

theorem shuffle_eq_shuffleFrom (rand : Nat → Nat) (n i : Nat) (nums : List Int) :
    (shuffle ordPerDist rand n i nums).map Prod.snd = shuffleFrom rand n i nums := by
  induction n generalizing i nums with
  | zero => rfl
  | succ n ih =>
    rw [shuffle, shuffleFrom, exchange_comm]
    cases hx : exchange nums i (randomNumber (rand i) (i + 1) (ordPerDist - 1)) with
    | none => rfl
    | some nums₁ =>
      simp only [Option.bind_eq_bind, Option.bind_some, ← ih]
      cases shuffle ordPerDist rand n (i + 1) nums₁ <;> rfl

/-- The array that the rows of `Orders` are taken from. -/
theorem initPermutation_nums (rand : Nat → Nat) {s : Statics} (h : s.nums.length = custPerDist) :
    (initPermutation ordPerDist rand s).map (·.2.nums) = Tpcc.initPermutation rand := by
  have hlen : ordPerDist ≤ s.nums.length := h.ge
  have hdrop : s.nums.drop ordPerDist = [] := List.drop_eq_nil_of_le h.le
  rw [initPermutation, fill_upTo hlen, hdrop, List.append_nil, Option.bind_eq_bind,
    Option.bind_some, Tpcc.initPermutation, ← shuffle_eq_shuffleFrom]
  cases shuffle ordPerDist rand (ordPerDist - 1) 0 (upTo ordPerDist) <;> rfl

end TokuQa.Tpcc.Permutation
