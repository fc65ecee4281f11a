import Mathlib.Algebra.Order.Field.Basic
import Mathlib.Algebra.Order.Field.Rat
import Mathlib.Tactic.Linarith
import Mathlib.Tactic.NormNum
import TokuQa.Lib.JavaInt

/-!
# `UniformDistribution.java`, choosing an id

`choose` has three cases, by the number of ids. A range that an `int` can count is drawn from with
`nextInt`, and `min` is added. A range below `UINT_RANGE` is drawn by `randint2`, in two pieces that
fit together; `min` is not added. A larger range is drawn as a multiple of `UINT_RANGE` and a rest.
The multiple is never the last one, `randint2` is asked for a rest that can be too small for its
first piece, and `min` is not added either (`covers_iff`).

A generator is what it returns: `nextInt k` for the bound of the `k`-th call. `nextDouble` is
rational, a number of 53 bits after the point, and so is the quotient it is compared with.
-/

set_option autoImplicit false

namespace TokuQa.LinkBench

open TokuQa.Lib

/-- The numbers a call of `choose` gets. -/
structure Rng where
  nextInt : Nat → Int → Int
  nextDouble : ℚ

/-- A generator keeps to its bounds. -/
structure Rng.Keeps (rng : Rng) : Prop where
  nextInt : ∀ k bound, 0 < bound → 0 ≤ rng.nextInt k bound ∧ rng.nextInt k bound < bound
  nextDouble : ∃ j : Nat, j < 2 ^ 53 ∧ rng.nextDouble = j / 2 ^ 53

theorem Rng.Keeps.nextDouble_lt {rng : Rng} (h : rng.Keeps) : rng.nextDouble < 1 := by
  obtain ⟨j, hj, heq⟩ := h.nextDouble
  have hj' : (j : ℚ) < 2 ^ 53 := by exact_mod_cast hj
  rw [heq, div_lt_one (by norm_num)]
  exact hj'

structure UniformDistribution where
  min : Int
  max : Int

namespace UniformDistribution

inductive Exn where
  | illegalArgument
  | assertionError
deriving DecidableEq

/-- `Integer.MAX_VALUE`. -/
def intMax : Int := 2 ^ 31 - 1

/-- "Total number of representable numbers by int", less one. -/
def uintRange : Int := intMax - -2 ^ 31

/-- `rng.nextInt(bound)`. -/
def draw (nextInt : Int → Int) (bound : Int) : Except Exn Int :=
  if bound ≤ 0 then .error .illegalArgument else .ok (nextInt bound)

/-- "Produce a random integer in range [0, n]". The quotient for `n = 0` is infinite. -/
def randint2 (nextDouble : ℚ) (nextInt : Int → Int) (n : Int) : Except Exn Int := do
  if ¬ n < uintRange then
    throw .assertionError
  if n = 0 ∨ nextDouble < intMax / n then draw nextInt intMax
  else return intMax + (← draw nextInt (wrap32 (n - intMax)))

/-- "Choose an id X uniformly in the range". -/
def choose (d : UniformDistribution) (rng : Rng) : Except Exn Int := do
  let n := wrap64 (d.max - d.min)
  if n ≤ intMax then return wrap64 (d.min + (← draw (rng.nextInt 0) (wrap32 n)))
  else if n < uintRange then randint2 rng.nextDouble (rng.nextInt 0) n
  else
    let k ← draw (rng.nextInt 0) (wrap32 (n.tdiv uintRange))
    let rest ← randint2 rng.nextDouble (rng.nextInt 1) (n.tmod uintRange)
    return wrap64 (uintRange * k + rest)

/-- Whatever is drawn, an id of the range is chosen, and every one of them is for some draw. -/
structure Covers (d : UniformDistribution) : Prop where
  inRange : ∀ rng : Rng, rng.Keeps → ∃ id, d.choose rng = .ok id ∧ d.min ≤ id ∧ id < d.max
  onto : ∀ id, d.min ≤ id → id < d.max → ∃ rng : Rng, rng.Keeps ∧ d.choose rng = .ok id

/-! ## `randint2` -/

/-- The generator that draws `x` wherever it can. -/
def rngOf (x : Int) (nextDouble : ℚ) : Rng := ⟨fun _ bound => Min.min x (bound - 1), nextDouble⟩

theorem rngOf_keeps {x : Int} (hx : 0 ≤ x) {j : Nat} (hj : j < 2 ^ 53) :
    (rngOf x (j / 2 ^ 53)).Keeps where
  nextInt := fun _ bound hb => by
    simp only [rngOf]
    omega
  nextDouble := ⟨j, hj, rfl⟩

section

variable {rng : Rng} {k : Nat} {n : Int}

/-- Which piece is drawn from: the first one always where there is no other. -/
theorem first_piece (hkeeps : rng.Keeps) (hn : 0 ≤ n) (hn' : n ≤ intMax) :
    n = 0 ∨ rng.nextDouble < intMax / n := by
  rcases hn.eq_or_lt with hzero | hpos
  · exact .inl hzero.symm
  · right
    have hpos' : (0 : ℚ) < n := by exact_mod_cast hpos
    have hle : (1 : ℚ) ≤ intMax / n := by
      rw [le_div_iff₀ hpos', one_mul]
      exact_mod_cast hn'
    exact hkeeps.nextDouble_lt.trans_le hle

theorem randint2_bounds (hkeeps : rng.Keeps) (hn : 0 ≤ n) (hn' : n < uintRange) :
    ∃ x, randint2 rng.nextDouble (rng.nextInt k) n = .ok x ∧ 0 ≤ x ∧ x < Max.max intMax n := by
  have hmax : intMax = 2 ^ 31 - 1 := rfl
  have huint : uintRange = 2 ^ 32 - 1 := rfl
  have hfirst := hkeeps.nextInt k intMax (by omega)
  unfold randint2 draw
  rw [if_neg (by omega)]
  by_cases hpiece : n = 0 ∨ rng.nextDouble < intMax / n
  · rw [if_pos hpiece, if_neg (by omega)]
    exact ⟨_, rfl, by omega⟩
  · have hlarge : intMax < n := by
      by_contra hsmall
      exact hpiece (first_piece hkeeps hn (by omega))
    have hbound : wrap32 (n - intMax) = n - intMax := wrap_eq_self (by omega) (by omega)
    have hsecond := hkeeps.nextInt k (n - intMax) (by omega)
    rw [if_neg hpiece, hbound, if_neg (by omega)]
    exact ⟨_, rfl, by omega⟩

/-- The two pieces fit together. -/
theorem randint2_onto (hn : intMax < n) (hn' : n < uintRange) {x : Int} (hx : 0 ≤ x) (hx' : x < n) :
    ∃ rng : Rng, rng.Keeps ∧ ∀ k, randint2 rng.nextDouble (rng.nextInt k) n = .ok x := by
  have hmax : intMax = 2 ^ 31 - 1 := rfl
  have huint : uintRange = 2 ^ 32 - 1 := rfl
  have hpos : (0 : ℚ) < n := by exact_mod_cast (by omega : 0 < n)
  rcases lt_or_ge x intMax with hsmall | hlarge
  · refine ⟨rngOf x ((0 : Nat) / 2 ^ 53), rngOf_keeps hx (by norm_num), fun k => ?_⟩
    have hpiece : (((0 : Nat) : ℚ) / 2 ^ 53) < intMax / n := by
      rw [Nat.cast_zero, zero_div]
      exact div_pos (by exact_mod_cast (by omega : 0 < intMax)) hpos
    unfold randint2 draw rngOf
    rw [if_neg (by omega), if_pos (.inr hpiece), if_neg (by omega), Except.ok.injEq]
    dsimp only
    omega
  · refine ⟨rngOf (x - intMax) ((2 ^ 53 - 1 : Nat) / 2 ^ 53), rngOf_keeps (by omega) (by norm_num),
      fun k => ?_⟩
    have hpiece : ¬ (n = 0 ∨ (((2 ^ 53 - 1 : Nat) : ℚ) / 2 ^ 53) < intMax / n) := by
      rintro (hzero | hlt)
      · omega
      · rw [lt_div_iff₀ hpos, hmax] at hlt
        have hn2 : (2 ^ 31 : ℚ) ≤ n := by exact_mod_cast (by omega : (2 ^ 31 : Int) ≤ n)
        norm_num at hlt
        linarith
    have hbound : wrap32 (n - intMax) = n - intMax := wrap_eq_self (by omega) (by omega)
    unfold randint2 draw rngOf
    rw [if_neg (by omega), if_neg hpiece, hbound, if_neg (by omega)]
    refine congrArg Except.ok ?_
    dsimp only
    omega

end

/-! ## `choose` -/

section

variable {d : UniformDistribution} {rng : Rng}

theorem choose_small (hkeeps : rng.Keeps) (hmin : -2 ^ 63 ≤ d.min) (hmax : d.max < 2 ^ 63)
    (hlt : d.min < d.max) (hn : d.max - d.min ≤ intMax) :
    d.choose rng = .ok (d.min + rng.nextInt 0 (d.max - d.min)) := by
  have hint : intMax = 2 ^ 31 - 1 := rfl
  have hlen : wrap64 (d.max - d.min) = d.max - d.min := wrap_eq_self (by omega) (by omega)
  have hbound : wrap32 (d.max - d.min) = d.max - d.min := wrap_eq_self (by omega) (by omega)
  have hdraw := hkeeps.nextInt 0 (d.max - d.min) (by omega)
  have hid : wrap64 (d.min + rng.nextInt 0 (d.max - d.min)) =
      d.min + rng.nextInt 0 (d.max - d.min) := wrap_eq_self (by omega) (by omega)
  unfold choose draw
  rw [hlen, if_pos hn, hbound, if_neg (by omega), ← hid]
  rfl

theorem choose_medium (hlt : intMax < d.max - d.min) (hlt' : d.max - d.min < uintRange) :
    d.choose rng = randint2 rng.nextDouble (rng.nextInt 0) (d.max - d.min) := by
  have hint : intMax = 2 ^ 31 - 1 := rfl
  have huint : uintRange = 2 ^ 32 - 1 := rfl
  have hlen : wrap64 (d.max - d.min) = d.max - d.min := wrap_eq_self (by omega) (by omega)
  unfold choose
  rw [hlen, if_neg (by omega), if_pos hlt']

/-- What is chosen from a large range is not negative, and is below the last id. -/
theorem choose_large (hkeeps : rng.Keeps) (hn : uintRange ≤ d.max - d.min)
    (hn' : d.max - d.min < 2 ^ 63) {id : Int} (h : d.choose rng = .ok id) :
    0 ≤ id ∧ id < d.max - d.min - 1 := by
  have hint : intMax = 2 ^ 31 - 1 := rfl
  have huint : uintRange = 2 ^ 32 - 1 := rfl
  have hlen : wrap64 (d.max - d.min) = d.max - d.min := wrap_eq_self (by omega) (by omega)
  unfold choose at h
  rw [hlen, if_neg (by omega), if_neg (by omega), Int.tdiv_eq_ediv_of_nonneg (by omega),
    Int.tmod_eq_emod_of_nonneg (by omega), huint] at h
  unfold draw at h
  split at h
  · cases h
  · rename_i hbound
    have hdraw := hkeeps.nextInt 0 _ (not_le.mp hbound)
    have hle : wrap32 ((d.max - d.min) / (2 ^ 32 - 1)) ≤ (d.max - d.min) / (2 ^ 32 - 1) := by
      by_cases hsmall : (d.max - d.min) / (2 ^ 32 - 1) < 2 ^ 31
      · exact (wrap_eq_self (by omega) hsmall).le
      · have hlt : wrap32 ((d.max - d.min) / (2 ^ 32 - 1)) < 2 ^ 31 := wrap_lt 31 _
        omega
    obtain ⟨rest, hrest, hrest0, hrest'⟩ := randint2_bounds (k := 1)
      (n := (d.max - d.min) % (2 ^ 32 - 1)) hkeeps (by omega) (by omega)
    simp only [bind, Except.bind, hrest, pure, Except.pure, Except.ok.injEq] at h
    rw [show wrap64 _ = _ from wrap_eq_self (by omega) (by omega)] at h
    omega

/-- From a range that an `int` does not count, 0 is chosen unless the call fails. -/
theorem choose_zero_of_large (hn : intMax < d.max - d.min) (hn' : d.max - d.min < 2 ^ 63) :
    d.choose (rngOf 0 ((0 : Nat) / 2 ^ 53)) = .ok 0 ∨
      ∃ e, d.choose (rngOf 0 ((0 : Nat) / 2 ^ 53)) = .error e := by
  have hint : intMax = 2 ^ 31 - 1 := rfl
  have huint : uintRange = 2 ^ 32 - 1 := rfl
  have hrest : ∀ n k, 0 ≤ n → n < uintRange →
      randint2 (rngOf 0 ((0 : Nat) / 2 ^ 53)).nextDouble ((rngOf 0 ((0 : Nat) / 2 ^ 53)).nextInt k) n =
        .ok 0 := by
    intro n k hn hn'
    have hpiece : n = 0 ∨ (((0 : Nat) : ℚ) / 2 ^ 53) < intMax / n := by
      refine hn.eq_or_lt.imp Eq.symm fun hpos => ?_
      rw [Nat.cast_zero, zero_div]
      exact div_pos (by exact_mod_cast (by omega : 0 < intMax)) (by exact_mod_cast hpos)
    unfold randint2 draw rngOf
    rw [if_neg (by omega), if_pos hpiece, if_neg (by omega)]
    rfl
  have hlen : wrap64 (d.max - d.min) = d.max - d.min := wrap_eq_self (by omega) hn'
  by_cases hmedium : d.max - d.min < uintRange
  · exact .inl ((choose_medium hn hmedium).trans (hrest _ 0 (by omega) hmedium))
  · unfold choose
    rw [hlen, if_neg (by omega), if_neg hmedium, Int.tmod_eq_emod_of_nonneg (by omega)]
    unfold draw
    split
    · exact .inr ⟨_, rfl⟩
    · left
      rename_i hbound
      have hfirst : (rngOf 0 ((0 : Nat) / 2 ^ 53)).nextInt 0
          (wrap32 ((d.max - d.min).tdiv uintRange)) = 0 := by
        rw [rngOf]
        dsimp only
        omega
      simp only [bind, Except.bind, hfirst, hrest _ 1 (Int.emod_nonneg _ (by decide : uintRange ≠ 0))
        (Int.emod_lt_of_pos _ (by decide : 0 < uintRange)), pure, Except.pure]
      rfl

theorem covers_small (hmin : -2 ^ 63 ≤ d.min) (hmax : d.max < 2 ^ 63) (hlt : d.min < d.max)
    (hsmall : d.max - d.min ≤ intMax) : d.Covers := by
  refine ⟨fun rng hkeeps => ?_, fun id hid hid' => ?_⟩
  · have hdraw := hkeeps.nextInt 0 (d.max - d.min) (by omega)
    exact ⟨_, choose_small hkeeps hmin hmax hlt hsmall, by omega, by omega⟩
  · have hkeeps := rngOf_keeps (x := id - d.min) (j := 0) (by omega) (by norm_num)
    refine ⟨_, hkeeps, (choose_small hkeeps hmin hmax hlt hsmall).trans ?_⟩
    rw [rngOf]
    refine congrArg Except.ok ?_
    dsimp only
    omega

/-- The length of a range that a `long` does not count is negative. It is drawn from as a short
range, and the last id is too far away. -/
theorem not_covers_of_wrapped (hmin : -2 ^ 63 ≤ d.min) (hmax : d.max < 2 ^ 63)
    (hlen : 2 ^ 63 ≤ d.max - d.min) : ¬ d.Covers := by
  have hint : intMax = 2 ^ 31 - 1 := rfl
  have hn : wrap64 (d.max - d.min) = d.max - d.min - 2 * 2 ^ 63 := wrap_of_overflow hlen (by omega)
  intro hcovers
  obtain ⟨rng, hkeeps, hrng⟩ := hcovers.onto (d.max - 1) (by omega) (by omega)
  unfold choose draw at hrng
  rw [hn, if_pos (by omega)] at hrng
  split at hrng
  · cases hrng
  · rename_i hbound
    have hdraw := hkeeps.nextInt 0 _ (not_le.mp hbound)
    have hlt : wrap32 (d.max - d.min - 2 * 2 ^ 63) < 2 ^ 31 := wrap_lt 31 _
    simp only [bind, Except.bind, pure, Except.pure, Except.ok.injEq] at hrng
    rw [show wrap64 _ = _ from wrap_eq_self (by omega) (by omega)] at hrng
    omega

/-- **`choose` covers its range** exactly where an `int` counts it, or where it starts at 0 and
`UINT_RANGE` is larger. -/
theorem covers_iff (hmin : -2 ^ 63 ≤ d.min) (hmax : d.max < 2 ^ 63) (hlt : d.min < d.max) :
    d.Covers ↔ d.max - d.min ≤ intMax ∨ d.max - d.min < uintRange ∧ d.min = 0 := by
  have hint : intMax = 2 ^ 31 - 1 := rfl
  have huint : uintRange = 2 ^ 32 - 1 := rfl
  by_cases hlen : 2 ^ 63 ≤ d.max - d.min
  · exact iff_of_false (not_covers_of_wrapped hmin hmax hlen) (by omega)
  rw [not_le] at hlen
  rcases le_or_gt (d.max - d.min) intMax with hsmall | hlarge
  · exact iff_of_true (covers_small hmin hmax hlt hsmall) (.inl hsmall)
  · rw [or_iff_right hlarge.not_ge]
    by_cases hmedium : d.max - d.min < uintRange
    · rw [and_iff_right hmedium]
      constructor
      · -- 0 is chosen, and so is the length less one
        intro hcovers
        have hchosen : ∀ x, 0 ≤ x → x < d.max - d.min → d.min ≤ x ∧ x < d.max := by
          intro x hx hx'
          obtain ⟨rng, hkeeps, hrng⟩ := randint2_onto hlarge hmedium hx hx'
          obtain ⟨id, hid, hbounds⟩ := hcovers.inRange rng hkeeps
          rw [choose_medium hlarge hmedium, hrng] at hid
          rwa [Except.ok.inj hid]
        have hfirst := hchosen 0 le_rfl (by omega)
        have hlast := hchosen (d.max - d.min - 1) (by omega) (by omega)
        omega
      · intro hstart
        refine ⟨fun rng hkeeps => ?_, fun id hid hid' => ?_⟩
        · obtain ⟨x, hx, hx0, hx'⟩ :=
            randint2_bounds (k := 0) (n := d.max - d.min) hkeeps (by omega) hmedium
          exact ⟨x, (choose_medium hlarge hmedium).trans hx, by omega, by omega⟩
        · obtain ⟨rng, hkeeps, hrng⟩ := randint2_onto hlarge hmedium (x := id) (by omega) (by omega)
          exact ⟨rng, hkeeps, (choose_medium hlarge hmedium).trans (hrng 0)⟩
    · refine iff_of_false (fun hcovers => ?_) (fun h => hmedium h.1)
      -- the first id is chosen for some draw, so it is not negative; then the last one is not
      obtain ⟨rng, hkeeps, hrng⟩ := hcovers.onto d.min le_rfl hlt
      obtain ⟨rng', hkeeps', hrng'⟩ := hcovers.onto (d.max - 1) (by omega) (by omega)
      have hfirst := choose_large hkeeps (by omega) hlen hrng
      have hlast := choose_large hkeeps' (by omega) hlen hrng'
      omega

end

/-- A range of three. -/
theorem covers_three :
    Covers ⟨5, 8⟩ ↔ (8 : Int) - 5 ≤ intMax ∨ (8 : Int) - 5 < uintRange ∧ (5 : Int) = 0 :=
  covers_iff (by decide) (by decide) (by decide)

/-- From three billion ids, the first of them 1, the id 0 is chosen. -/
theorem large_range_from_zero : ¬ Covers ⟨1, 3000000001⟩ := by
  intro hcovers
  have hkeeps : (rngOf 0 ((0 : Nat) / 2 ^ 53)).Keeps := rngOf_keeps le_rfl (by norm_num)
  obtain ⟨id, hid, hpos, -⟩ := hcovers.inRange _ hkeeps
  have hzero : choose ⟨1, 3000000001⟩ (rngOf 0 ((0 : Nat) / 2 ^ 53)) = .ok 0 := by decide +kernel
  rw [hzero] at hid
  obtain rfl := Except.ok.inj hid
  exact absurd hpos (by decide)

end UniformDistribution

end TokuQa.LinkBench
