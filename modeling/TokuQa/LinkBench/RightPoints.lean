import Mathlib.Algebra.Order.Field.Basic
import Mathlib.Algebra.Order.Field.Rat
import Mathlib.Data.List.GetD
import TokuQa.Lib.Run
import TokuQa.LinkBench.PiecewiseLinear

/-!
# `PiecewiseLinearDistribution.java`, choosing an id

`choose` draws a bucket of the cumulative sums, and every bucket hands out the ids of the range in
turn: `right_points` holds the next one of each. The bucket is where `Arrays.binarySearch` would
insert what is drawn, and 0 counts as 1. So there have to be two buckets. Nothing is drawn above the
last sum, unless it is negative: then the search can end behind the array, if all sums are too where
it looks on its way (`safe_iff`).

A draw is what `nextDouble` returns. The threads of a requester are not in the model: the calls come
one after another.
-/

set_option autoImplicit false

namespace TokuQa.LinkBench.PiecewiseLinear

open TokuQa.Lib

/-- The loop of `Arrays.binarySearch`, for at most `fuel` steps. -/
def arraysBinarySearch (a : List ℚ) (key : ℚ) : Nat → Int → Int → Except Exn Int
  | 0, _, _ => .error .outOfFuel
  | fuel + 1, low, high => do
    if low ≤ high then
      let mid := (low + high) / 2
      let midVal ← load a mid
      if midVal < key then arraysBinarySearch a key fuel (mid + 1) high
      else if midVal > key then arraysBinarySearch a key fuel low (mid - 1)
      else return mid
    else return -(low + 1)

/-- "Arrays.binarySearch returns (-(insertion point) - 1) when not found". -/
def insertionPoint (res : Int) : Int := if res ≥ 0 then res else -(res + 1)

/-- `binarySearch`, of an array. -/
def binarySearchArray (a : List ℚ) (p : ℚ) : Except Exn Int := do
  let res ← arraysBinarySearch a p (a.length + 1) 0 (a.length - 1)
  return insertionPoint res

/-- The index that `choose` draws. -/
def bucket (cs : List ℚ) (nextDouble : ℚ) : Except Exn Int := do
  let max_probability ← load cs (cs.length - 1)
  let idx ← binarySearchArray cs (max_probability * nextDouble)
  return if idx = 0 then 1 else idx

/-- The id that is chosen, and `right_points` afterwards. -/
def choose (startid1 maxid1 : Int) (cs : List ℚ) (nextDouble : ℚ) (right_points : List Int) :
    Except Exn (Int × List Int) := do
  let idx ← bucket cs nextDouble
  let n := wrap64 (maxid1 - startid1)
  let result := (← load right_points idx).tmod n
  let right_points ← store right_points idx ((wrap64 (result + 1)).tmod n)
  return (wrap64 (startid1 + result), right_points)

/-! ## The search -/

/-- Where a search below `top` looks after `k` times, if it goes right every time and starts with
`n` entries. -/
def rightmost (top n k : Nat) : Nat := top - 1 - n / 2 ^ (k + 1)

section

variable {a : List ℚ} {key : ℚ}

theorem rightmost_zero {low top : Nat} (h : low < top) :
    rightmost top (top - low) 0 = (low + top - 1) / 2 := by
  rw [rightmost, Nat.zero_add, pow_one]
  omega

theorem rightmost_succ (top n k : Nat) : rightmost top n (k + 1) = rightmost top (n / 2) k := by
  rw [rightmost, rightmost, Nat.div_div_eq_div_mul, Nat.pow_succ']

/-- The first place, and those of the search that has gone right there. -/
theorem forall_rightmost_iff {low top : Nat} (h : low < top) {P : Nat → Prop} :
    (∀ k, P (rightmost top (top - low) k)) ↔ P ((low + top - 1) / 2) ∧
      ((low + top - 1) / 2 + 1 < top →
        ∀ k, P (rightmost top (top - ((low + top - 1) / 2 + 1)) k)) := by
  have hfirst := rightmost_zero h
  have hhalf : top - ((low + top - 1) / 2 + 1) = (top - low) / 2 := by omega
  rw [hhalf]
  refine ⟨fun hall => ⟨hfirst ▸ hall 0, fun _ k => rightmost_succ _ _ k ▸ hall (k + 1)⟩,
    fun ⟨hzero, hrest⟩ k => ?_⟩
  cases k with
  | zero => rwa [hfirst]
  | succ k =>
    rcases lt_or_ge ((low + top - 1) / 2 + 1) top with hmore | hone
    · rw [rightmost_succ]
      exact hrest hmore k
    · -- it was the only entry, and the search looks nowhere else
      have hpow : 2 ≤ 2 ^ (k + 1 + 1) := Nat.le_self_pow (Nat.succ_ne_zero _) 2
      have hsame : rightmost top (top - low) (k + 1) = rightmost top (top - low) 0 := by
        rw [rightmost, rightmost, Nat.div_eq_of_lt (by omega), Nat.div_eq_of_lt (by omega)]
      rwa [hsame, hfirst]

theorem arraysBinarySearch_empty (fuel low : Nat) :
    arraysBinarySearch a key (fuel + 1) low (low - 1) = .ok (-(low + 1)) := by
  rw [arraysBinarySearch, if_neg (by omega)]
  rfl

theorem arraysBinarySearch_turn {fuel low top : Nat} (htop : top ≤ a.length) (hlt : low < top) :
    arraysBinarySearch a key (fuel + 1) low (top - 1) =
      if a.getD ((low + top - 1) / 2) 0 < key then
        arraysBinarySearch a key fuel ((low + top - 1) / 2 + 1 : Nat) (top - 1)
      else if a.getD ((low + top - 1) / 2) 0 > key then
        arraysBinarySearch a key fuel low (((low + top - 1) / 2 : Nat) - 1)
      else .ok ((low + top - 1) / 2 : Nat) := by
  have hmid : ((low : Int) + (top - 1)) / 2 = ((low + top - 1) / 2 : Nat) := by omega
  have hbound : (low + top - 1) / 2 < a.length := by omega
  rw [arraysBinarySearch, if_pos (by omega), List.getD_eq_getElem _ _ hbound]
  dsimp only
  rw [hmid, load_of_lt hbound]
  rfl

/-- The search ends between its bounds, and behind the last entry exactly if it has gone right every
time. -/
theorem arraysBinarySearch_eq {fuel low top : Nat} (htop : top ≤ a.length) (hlow : low ≤ top)
    (hfuel : top - low < fuel) :
    ∃ (res : Int) (idx : Nat), arraysBinarySearch a key fuel low (top - 1) = .ok res ∧
      insertionPoint res = idx ∧ low ≤ idx ∧ idx ≤ top ∧ (low < top →
        (idx = top ↔ ∀ k, a.getD (rightmost top (top - low) k) 0 < key)) := by
  induction fuel generalizing low top with
  | zero => omega
  | succ fuel ih =>
    rcases hlow.eq_or_lt with rfl | hlt
    · refine ⟨_, low, arraysBinarySearch_empty fuel low, ?_, le_rfl, le_rfl,
        fun h => absurd h (lt_irrefl low)⟩
      rw [insertionPoint, if_neg (by omega)]
      omega
    · rw [arraysBinarySearch_turn htop hlt,
        forall_rightmost_iff hlt (P := fun i => a.getD i 0 < key)]
      by_cases hright : a.getD ((low + top - 1) / 2) 0 < key
      · rw [if_pos hright]
        have hnext : (low + top - 1) / 2 + 1 ≤ top := by omega
        obtain ⟨res, idx, hres, hidx, hlo, hhi, hlast⟩ := ih htop hnext (by omega)
        refine ⟨res, idx, hres, hidx, by omega, hhi, fun _ => ⟨fun htop => ⟨hright, fun hmore =>
          (hlast hmore).mp htop⟩, fun ⟨_, hrest⟩ => ?_⟩⟩
        rcases hnext.eq_or_lt with hone | hmore
        · omega
        · exact (hlast hmore).mpr (hrest hmore)
      · -- where the search does not go right, it ends before the last entry
        rw [if_neg hright]
        by_cases hfar : a.getD ((low + top - 1) / 2) 0 > key
        · rw [if_pos hfar]
          have hprev : low ≤ (low + top - 1) / 2 := by omega
          obtain ⟨res, idx, hres, hidx, hlo, hhi, -⟩ := ih (by omega) hprev (by omega)
          exact ⟨res, idx, hres, hidx, hlo, by omega,
            fun _ => iff_of_false (by omega) fun h => hright h.1⟩
        · rw [if_neg hfar]
          refine ⟨_, (low + top - 1) / 2, rfl, ?_, by omega, by omega,
            fun _ => iff_of_false (by omega) fun h => hright h.1⟩
          rw [insertionPoint, if_pos (by omega)]

end

/-! ## The bucket -/

/-- Of the sums on the way to the last one, as the search looks at them, one is not negative. -/
def Stops (cs : List ℚ) : Prop := ∃ k, 0 ≤ cs.getD (rightmost cs.length cs.length k) 0

section

variable {cs : List ℚ} {r : ℚ}

/-- The bucket is behind the array exactly if what is drawn is larger than all sums on the way. -/
theorem bucket_eq (hlen : 0 < cs.length) (r : ℚ) :
    ∃ idx : Nat, bucket cs r = .ok (if idx = 0 then 1 else idx : Nat) ∧ idx ≤ cs.length ∧
      (idx = cs.length ↔
        ∀ k, cs.getD (rightmost cs.length cs.length k) 0 < cs[cs.length - 1] * r) := by
  have hlast : (cs.length : Int) - 1 = (cs.length - 1 : Nat) := by omega
  obtain ⟨res, idx, hres, hidx, -, hle, hiff⟩ :=
    arraysBinarySearch_eq le_rfl (Nat.zero_le cs.length) (Nat.lt_succ_self (cs.length - 0))
  refine ⟨idx, ?_, hle, hiff hlen⟩
  have hload : load cs ((cs.length : Int) - 1) = .ok cs[cs.length - 1] := by
    rw [hlast]
    exact load_of_lt (by omega)
  have hsearch : binarySearchArray cs (cs[cs.length - 1] * r) = .ok (idx : Int) := by
    unfold binarySearchArray
    rw [← hidx]
    exact congrArg (Except.map insertionPoint) hres
  unfold bucket
  rw [hload]
  dsimp only [bind, Except.bind]
  rw [hsearch]
  dsimp only
  by_cases hzero : idx = 0
  · rw [if_pos hzero, if_pos (by omega)]
    rfl
  · rw [if_neg hzero, if_neg (by omega)]
    rfl

theorem bucket_lt (hlen : 2 ≤ cs.length) (hstops : Stops cs) (hr : 0 ≤ r) (hr' : r < 1) :
    ∃ idx : Nat, bucket cs r = .ok (idx : Int) ∧ idx < cs.length := by
  have hpos : 0 < cs.length := by omega
  obtain ⟨idx, hbucket, hle, hiff⟩ := bucket_eq hpos r
  have hne : idx ≠ cs.length := by
    rw [Ne, hiff]
    intro hall
    rcases le_or_gt 0 cs[cs.length - 1] with hlast0 | hneg
    · -- the last sum is at least what is drawn
      have hlast : rightmost cs.length cs.length cs.length = cs.length - 1 := by
        rw [rightmost, Nat.div_eq_of_lt ((Nat.lt_succ_self _).trans Nat.lt_two_pow_self), Nat.sub_zero]
      have hlt := hall cs.length
      rw [hlast, List.getD_eq_getElem _ _ (by omega)] at hlt
      exact hlt.not_ge (mul_le_of_le_one_right hlast0 hr'.le)
    · obtain ⟨k, hk⟩ := hstops
      exact (hall k).not_ge ((mul_nonpos_of_nonpos_of_nonneg hneg.le hr).trans hk)
  refine ⟨_, hbucket, ?_⟩
  split <;> omega

/-- Without that, 0 is drawn for the bucket behind the array. -/
theorem bucket_zero (hlen : 0 < cs.length) (h : ¬ (2 ≤ cs.length ∧ Stops cs)) :
    bucket cs 0 = .ok (cs.length : Int) := by
  obtain ⟨idx, hbucket, hle, hiff⟩ := bucket_eq hlen 0
  rw [hbucket]
  by_cases hone : cs.length = 1
  · have hidx : (if idx = 0 then 1 else idx) = cs.length := by
      split <;> omega
    rw [hidx]
  · have hall : ∀ k, cs.getD (rightmost cs.length cs.length k) 0 < cs[cs.length - 1] * 0 := by
      intro k
      rw [mul_zero]
      exact not_le.mp fun hk => h ⟨by omega, k, hk⟩
    rw [hiff.mpr hall, if_neg (by omega)]

end

/-! ## One call -/

structure Call where
  bucket : Int
  id1 : Int
deriving DecidableEq

def chooseStep (startid1 maxid1 : Int) (cs : List ℚ) (nextDouble : ℚ) (right_points : List Int) :
    Option (List Call × List Int) :=
  match bucket cs nextDouble, choose startid1 maxid1 cs nextDouble right_points with
  | .ok idx, .ok (id1, right_points) => some ([⟨idx, id1⟩], right_points)
  | _, _ => none

/-- How many ids a bucket hands out before it starts again. -/
def period (startid1 maxid1 : Int) : Int := |wrap64 (maxid1 - startid1)|

section

variable {startid1 maxid1 : Int}

theorem period_eq (hmin : -2 ^ 63 ≤ startid1) (hmax : maxid1 < 2 ^ 63) (hlt : startid1 < maxid1) :
    period startid1 maxid1 = min (maxid1 - startid1) (2 ^ 64 - (maxid1 - startid1)) := by
  unfold period
  rcases lt_or_ge (maxid1 - startid1) (2 ^ 63) with hlen | hlen
  · rw [show wrap64 _ = _ from wrap_eq_self (by omega) hlen, abs_of_pos (by omega)]
    omega
  · rw [show wrap64 _ = _ from wrap_of_overflow hlen (by omega), abs_of_neg (by omega)]
    omega

theorem tmod_eq {x : Int} (hx : 0 ≤ x) :
    x.tmod (wrap64 (maxid1 - startid1)) = x % period startid1 maxid1 := by
  rw [period, Int.emod_abs, Int.tmod_eq_emod_of_nonneg hx]

/-- The cursor moves on by one, also where the sum overflows: there the divisor is the least `long`. -/
theorem next_eq (hmin : -2 ^ 63 ≤ startid1) (hmax : maxid1 < 2 ^ 63) (hlt : startid1 < maxid1)
    {x : Int} (hx : 0 ≤ x) (hper : x < period startid1 maxid1) :
    (wrap64 (x + 1)).tmod (wrap64 (maxid1 - startid1)) = (x + 1) % period startid1 maxid1 := by
  have hperiod := period_eq hmin hmax hlt
  rcases lt_or_ge (x + 1) (2 ^ 63) with hsum | hsum
  · rw [show wrap64 (x + 1) = _ from wrap_eq_self (by omega) hsum, tmod_eq (by omega)]
  · obtain ⟨hhalf, hlast⟩ : maxid1 - startid1 = 2 ^ 63 ∧ x + 1 = 2 ^ 63 := by omega
    rw [period, hhalf, hlast]
    decide

/-- The next id of a bucket. -/
theorem choose_eq (hmin : -2 ^ 63 ≤ startid1) (hmax : maxid1 < 2 ^ 63) (hlt : startid1 < maxid1)
    {cs : List ℚ} {nextDouble : ℚ} {right_points : List Int} {idx : Nat}
    (hbucket : bucket cs nextDouble = .ok (idx : Int)) (hidx : idx < right_points.length)
    (hpos : 0 ≤ right_points[idx]) (hper : right_points[idx] < period startid1 maxid1) :
    choose startid1 maxid1 cs nextDouble right_points =
      .ok (startid1 + right_points[idx],
        right_points.set idx ((right_points[idx] + 1) % period startid1 maxid1)) := by
  have hperiod := period_eq hmin hmax hlt
  have hid : wrap64 (startid1 + right_points[idx]) = startid1 + right_points[idx] :=
    wrap_eq_self (by omega) (by omega)
  unfold choose
  rw [hbucket]
  dsimp only [bind, Except.bind]
  rw [load_of_lt hidx]
  dsimp only
  rw [tmod_eq hpos, Int.emod_eq_of_lt hpos hper, next_eq hmin hmax hlt hpos hper, hid,
    store_of_lt (by omega) (by omega), Int.toNat_natCast]
  rfl

end

/-! ## Runs -/

/-- How many ids a bucket has handed out. -/
def handedOut (calls : List Call) (b : Int) : Int := (calls.countP fun c => c.bucket = b : Nat)

/-- Whatever is drawn, no call fails, every bucket is in the arrays, every id is in the range, and
each bucket hands out the ids of the range in turn. -/
def Safe (startid1 maxid1 : Int) (cs : List ℚ) : Prop :=
  ∀ draws : List ℚ, (∀ r ∈ draws, 0 ≤ r ∧ r < 1) → ∃ calls right_points,
    emits (chooseStep startid1 maxid1 cs) draws (List.replicate cs.length 0) =
      some (calls, right_points) ∧
    ∀ (before : List Call) (c : Call), before ++ [c] <+: calls → 0 ≤ c.bucket ∧ c.bucket < cs.length ∧
      startid1 ≤ c.id1 ∧ c.id1 < maxid1 ∧
      c.id1 = startid1 + handedOut before c.bucket % (maxid1 - startid1)

theorem handedOut_concat (calls : List Call) (c : Call) (b : Int) :
    handedOut (calls ++ [c]) b = handedOut calls b + if c.bucket = b then 1 else 0 := by
  simp only [handedOut, List.countP_append, List.countP_singleton, decide_eq_true_eq]
  push_cast
  rfl

/-- The invariant: the cursors are at the next ids, and the calls so far had their turns. -/
structure Turns (startid1 period : Int) (n : Nat) (calls : List Call) (right_points : List Int) :
    Prop where
  length : right_points.length = n
  next : ∀ b (h : b < right_points.length), right_points[b] = handedOut calls b % period
  turn : ∀ (before : List Call) (c : Call), before ++ [c] <+: calls → 0 ≤ c.bucket ∧ c.bucket < n ∧
    c.id1 = startid1 + handedOut before c.bucket % period

section

variable {startid1 maxid1 : Int} {cs : List ℚ}

theorem turns_init (startid1 period : Int) (n : Nat) :
    Turns startid1 period n [] (List.replicate n 0) where
  length := List.length_replicate
  next := fun b h => by
    rw [List.getElem_replicate]
    rfl
  turn := fun before c h => by
    have hnil := List.prefix_nil.mp h
    exact absurd hnil (by simp)

/-- One call keeps the turns. -/
theorem Turns.call {period : Int} {n : Nat} {calls : List Call} {right_points : List Int}
    (h : Turns startid1 period n calls right_points) {idx : Nat} (hidx : idx < right_points.length) :
    Turns startid1 period n (calls ++ [⟨idx, startid1 + right_points[idx]⟩])
      (right_points.set idx ((right_points[idx] + 1) % period)) where
  length := (List.length_set).trans h.length
  next := fun b hb => by
    rw [handedOut_concat, List.getElem_set]
    dsimp only
    split
    · rename_i heq
      subst heq
      rw [h.next idx hidx, if_pos rfl, Int.emod_add_emod]
    · rw [if_neg (by omega), add_zero]
      exact h.next b (by simpa using hb)
  turn := fun before c hpre => by
    rcases List.prefix_concat_iff.mp hpre with heq | hpre
    · obtain ⟨rfl, hc⟩ := List.append_inj' heq rfl
      obtain rfl := List.singleton_inj.mp hc
      dsimp only
      refine ⟨by omega, ?_, congrArg (startid1 + ·) (h.next idx hidx)⟩
      rw [← h.length]
      exact_mod_cast hidx
    · exact h.turn before c hpre

theorem period_pos (hmin : -2 ^ 63 ≤ startid1) (hmax : maxid1 < 2 ^ 63) (hlt : startid1 < maxid1) :
    0 < period startid1 maxid1 := by
  have hperiod := period_eq hmin hmax hlt
  omega

/-- What a call does where the bucket is in the arrays. -/
theorem Turns.chooseStep_eq (hmin : -2 ^ 63 ≤ startid1) (hmax : maxid1 < 2 ^ 63)
    (hlt : startid1 < maxid1) {calls : List Call} {right_points : List Int}
    (h : Turns startid1 (period startid1 maxid1) cs.length calls right_points) {r : ℚ} {idx : Nat}
    (hbucket : bucket cs r = .ok (idx : Int)) (hidx : idx < right_points.length) :
    chooseStep startid1 maxid1 cs r right_points = some ([⟨idx, startid1 + right_points[idx]⟩],
      right_points.set idx ((right_points[idx] + 1) % period startid1 maxid1)) := by
  have hpos := period_pos hmin hmax hlt
  have hchoose := choose_eq hmin hmax hlt hbucket hidx
    ((h.next idx hidx).symm ▸ Int.emod_nonneg _ hpos.ne')
    ((h.next idx hidx).symm ▸ Int.emod_lt_of_pos _ hpos)
  rw [chooseStep, hbucket, hchoose]

/-- A call that comes back has drawn a bucket of the arrays. -/
theorem chooseStep_bucket {right_points right_points' : List Int} {r : ℚ} {out : List Call}
    (h : chooseStep startid1 maxid1 cs r right_points = some (out, right_points')) :
    ∃ (idx : Nat) (id1 : Int), bucket cs r = .ok (idx : Int) ∧ idx < right_points.length ∧
      out = [⟨idx, id1⟩] := by
  unfold chooseStep at h
  split at h
  · rename_i idx id1 points hbucket hchoose
    obtain ⟨_, hidx, hrest⟩ := bind_eq_ok.mp hchoose
    obtain rfl := Except.ok.inj (hbucket.symm.trans hidx)
    obtain ⟨x, hload, -⟩ := bind_eq_ok.mp hrest
    obtain ⟨hpos, hx⟩ := load_eq_ok.mp hload
    obtain ⟨hlt, -⟩ := List.getElem?_eq_some_iff.mp hx
    have hcast : ((idx.toNat : Nat) : Int) = idx := Int.toNat_of_nonneg hpos
    refine ⟨idx.toNat, id1, hbucket.trans (congrArg Except.ok hcast.symm), hlt, ?_⟩
    rw [hcast]
    exact (Prod.mk.inj (Option.some.inj h)).1.symm
  · cases h

theorem turns_keep (hmin : -2 ^ 63 ≤ startid1) (hmax : maxid1 < 2 ^ 63) (hlt : startid1 < maxid1)
    {before out : List Call} {r : ℚ} {right_points right_points' : List Int}
    (h : Turns startid1 (period startid1 maxid1) cs.length before right_points)
    (hstep : chooseStep startid1 maxid1 cs r right_points = some (out, right_points')) :
    Turns startid1 (period startid1 maxid1) cs.length (before ++ out) right_points' := by
  obtain ⟨idx, -, hbucket, hidx, -⟩ := chooseStep_bucket hstep
  obtain ⟨rfl, rfl⟩ := Prod.mk.inj
    (Option.some.inj ((h.chooseStep_eq hmin hmax hlt hbucket hidx).symm.trans hstep))
  exact h.call hidx

theorem handedOut_of_forall {calls : List Call} {b : Int} (h : ∀ c ∈ calls, c.bucket = b) :
    handedOut calls b = calls.length := by
  unfold handedOut
  rw [List.countP_eq_length.mpr fun c hc => decide_eq_true (h c hc)]

/-- If nothing but 0 is drawn, one bucket has all the turns. -/
theorem calls_replicate {n : Nat} {right_points right_points' : List Int} {calls : List Call}
    {b : Int} (hb : bucket cs 0 = .ok b)
    (h : emits (chooseStep startid1 maxid1 cs) (List.replicate n 0) right_points =
      some (calls, right_points')) : calls.length = n ∧ ∀ c ∈ calls, c.bucket = b := by
  induction n generalizing right_points calls with
  | zero =>
    cases h
    exact ⟨rfl, fun c hc => absurd hc (List.not_mem_nil)⟩
  | succ n ih =>
    obtain ⟨out, points, rest, hstep, hrest, rfl⟩ := emits_cons_eq_some.mp h
    obtain ⟨idx, id1, hidx, -, rfl⟩ := chooseStep_bucket hstep
    obtain ⟨hlength, hall⟩ := ih hrest
    refine ⟨by rw [List.length_append, List.length_singleton, hlength, Nat.add_comm], ?_⟩
    intro c hc
    rcases List.mem_append.mp hc with hout | hmem
    · rw [List.mem_singleton.mp hout]
      exact Except.ok.inj (hidx.symm.trans hb)
    · exact hall c hmem

/-- A bucket that starts again too early. -/
theorem not_safe_of_period (hmin : -2 ^ 63 ≤ startid1) (hmax : maxid1 < 2 ^ 63)
    (hlt : startid1 < maxid1) (hshort : period startid1 maxid1 < maxid1 - startid1) :
    ¬ Safe startid1 maxid1 cs := by
  intro h
  have hpos := period_pos hmin hmax hlt
  obtain ⟨calls, right_points, hrun, hsafe⟩ := h
    (List.replicate ((period startid1 maxid1).toNat + 1) 0) fun r hr => by
      rw [(List.mem_replicate.mp hr).2]
      exact ⟨le_rfl, one_pos⟩
  have hturns := emits_keeps (turns_keep hmin hmax hlt) (turns_init startid1 _ _) hrun
  obtain ⟨out, points, rest, hstep, -, -⟩ := emits_cons_eq_some.mp hrun
  obtain ⟨idx, -, hbucket, -, -⟩ := chooseStep_bucket hstep
  obtain ⟨hlength, hall⟩ := calls_replicate hbucket hrun
  obtain ⟨before, c, rfl⟩ := calls.eq_nil_or_concat.resolve_left fun hnil => by
    rw [hnil] at hlength
    cases hlength
  rw [List.concat_eq_append] at hlength hall hturns hsafe
  have hcount : handedOut before c.bucket = period startid1 maxid1 := by
    have hbefore : before.length = (period startid1 maxid1).toNat := by
      simpa using hlength
    rw [hall c (by simp), handedOut_of_forall fun c hc => hall c (by simp [hc]), hbefore]
    omega
  -- the same call, by its turn and by what is wanted
  obtain ⟨-, -, hturn⟩ := hturns.turn before c (List.prefix_refl _)
  obtain ⟨-, -, -, -, hwanted⟩ := hsafe before c (List.prefix_refl _)
  rw [hcount, Int.emod_self] at hturn
  rw [hcount, Int.emod_eq_of_lt hpos.le hshort] at hwanted
  omega

/-- **Choosing is safe** exactly with two buckets, where the search stops, and with a period of all
ids. -/
theorem safe_iff (hmin : -2 ^ 63 ≤ startid1) (hmax : maxid1 < 2 ^ 63) (hlt : startid1 < maxid1)
    (hcs : 0 < cs.length) :
    Safe startid1 maxid1 cs ↔ 2 ≤ cs.length ∧ Stops cs ∧ maxid1 - startid1 ≤ 2 ^ 63 := by
  have hperiod := period_eq hmin hmax hlt
  constructor
  · intro h
    have hbuckets : 2 ≤ cs.length ∧ Stops cs := by
      by_contra hnot
      obtain ⟨calls, right_points, hrun, -⟩ := h [0] fun r hr => by
        rw [List.mem_singleton.mp hr]
        exact ⟨le_rfl, one_pos⟩
      obtain ⟨out, points, rest, hstep, -, -⟩ := emits_cons_eq_some.mp hrun
      obtain ⟨idx, -, hbucket, hidx, -⟩ := chooseStep_bucket hstep
      rw [List.length_replicate] at hidx
      have hbehind := Except.ok.inj ((bucket_zero hcs hnot).symm.trans hbucket)
      omega
    refine ⟨hbuckets.1, hbuckets.2, ?_⟩
    by_contra hlong
    exact not_safe_of_period hmin hmax hlt (by omega) h
  · rintro ⟨hlen, hstops, hhalf⟩ draws hdraws
    have hall : period startid1 maxid1 = maxid1 - startid1 := by omega
    have htotal : (emits (chooseStep startid1 maxid1 cs) draws
        (List.replicate cs.length 0)).isSome :=
      emits_total (turns_keep hmin hmax hlt)
        (fun h hr => by
          obtain ⟨idx, hbucket, hidx⟩ := bucket_lt hlen hstops hr.1 hr.2
          rw [h.chooseStep_eq hmin hmax hlt hbucket (h.length.symm ▸ hidx)]
          rfl)
        (turns_init startid1 _ _) hdraws
    obtain ⟨⟨calls, right_points⟩, hrun⟩ := Option.isSome_iff_exists.mp htotal
    have hturns := emits_keeps (turns_keep hmin hmax hlt) (turns_init startid1 _ _) hrun
    refine ⟨calls, right_points, hrun, fun before c hpre => ?_⟩
    obtain ⟨hbucket, hbucket', hid⟩ := hturns.turn before c hpre
    rw [hall] at hid
    have hmod := Int.emod_nonneg (handedOut before c.bucket) (by omega : maxid1 - startid1 ≠ 0)
    have hmod' := Int.emod_lt_of_pos (handedOut before c.bucket)
      (by omega : 0 < maxid1 - startid1)
    exact ⟨hbucket, hbucket', by omega, by omega, hid⟩

end

/-! ## The tables of a file -/

section

variable {points : List Point} {pdf cs : List ℚ}

theorem store_eq_ok {α : Type} {xs ys : List α} {i : Int} {x : α} (h : store xs i x = .ok ys) :
    i < xs.length ∧ ys.length = xs.length := by
  unfold store at h
  split at h
  · rename_i hi
    rw [← Except.ok.inj h]
    exact ⟨hi.2, List.length_set⟩
  · cases h

theorem storeIncrements_length {rest : List Point} {prev : Point} {pdf' : List ℚ}
    (h : storeIncrements pdf prev rest = .ok pdf') :
    pdf'.length = pdf.length ∧ ∀ pt ∈ rest, pt.value < pdf.length := by
  induction rest generalizing pdf prev with
  | nil =>
    cases h
    exact ⟨rfl, fun pt hpt => absurd hpt List.not_mem_nil⟩
  | cons curr rest ih =>
    obtain ⟨pdf₁, hstore, hrest⟩ := bind_eq_ok.mp h
    obtain ⟨hlt, hlen⟩ := store_eq_ok hstore
    obtain ⟨hlen', hall⟩ := ih hrest
    rw [hlen] at hlen' hall
    exact ⟨hlen', List.forall_mem_cons.mpr ⟨hlt, hall⟩⟩

/-- The table has an entry for every value of the points, and the last of them has the last. -/
theorem getPDF_length (hvalues : ∀ pt ∈ points, -2 ^ 31 ≤ pt.value ∧ pt.value < 2 ^ 31)
    (h : getPDF points = .ok pdf) :
    (∀ pt ∈ points, pt.value < pdf.length) ∧ ∃ pt ∈ points, pt.value + 1 = pdf.length := by
  cases points with
  | nil => cases h
  | cons first rest =>
    obtain ⟨zeros, hnew, hrest⟩ := bind_eq_ok.mp h
    obtain ⟨pdf₁, hstore, hrest⟩ := bind_eq_ok.mp hrest
    obtain ⟨hfirst, hlen⟩ := store_eq_ok hstore
    obtain ⟨hlen', hall⟩ := storeIncrements_length hrest
    rw [hlen] at hlen' hall
    rw [hlen']
    have hlast := List.getLast_mem (List.cons_ne_nil first rest)
    have hlastv := hvalues _ hlast
    refine ⟨List.forall_mem_cons.mpr ⟨hfirst, hall⟩, _, hlast, ?_⟩
    unfold newArray at hnew
    split at hnew
    · cases hnew
    · rename_i hsize
      rw [← Except.ok.inj hnew, List.length_replicate, Int.toNat_of_nonneg (not_lt.mp hsize)]
      rcases lt_or_ge (((first :: rest).getLast (List.cons_ne_nil _ _)).value + 1) (2 ^ 31)
        with hlt | hover
      · exact (wrap_eq_self (by omega) hlt).symm
      · -- the size of an array for every `int` is negative
        have hneg : wrap32 _ = _ := wrap_of_overflow hover (by omega)
        omega

theorem cumulativeSum_length (hvalues : ∀ pt ∈ points, -2 ^ 31 ≤ pt.value ∧ pt.value < 2 ^ 31)
    (h : cumulativeSum points = .ok cs) :
    0 < cs.length ∧ (2 ≤ cs.length ↔ ∃ pt ∈ points, 1 ≤ pt.value) := by
  obtain ⟨pdf, hpdf, htables⟩ := bind_eq_ok.mp h
  have hne : pdf ≠ [] := by
    rintro rfl
    cases htables
  obtain ⟨cs', hcs, hlen, -⟩ := getLast?_getCumulativeSum hne
  obtain rfl := Except.ok.inj (hcs.symm.trans htables)
  obtain ⟨hall, last, hlast, hlastv⟩ := getPDF_length hvalues hpdf
  have hpos := List.length_pos_of_ne_nil hne
  refine ⟨by omega, fun htwo => ⟨last, hlast, by omega⟩, ?_⟩
  rintro ⟨pt, hpt, hone⟩
  have hlt := hall pt hpt
  omega

end

/-- **Choosing is safe** exactly for the tables with a positive value whose search stops, and for
ranges of at most `2 ^ 63` ids. -/
theorem choose_safe_iff {points : List Point} {cs : List ℚ} {startid1 maxid1 : Int}
    (hvalues : ∀ pt ∈ points, -2 ^ 31 ≤ pt.value ∧ pt.value < 2 ^ 31)
    (hcs : cumulativeSum points = .ok cs) (hmin : -2 ^ 63 ≤ startid1) (hmax : maxid1 < 2 ^ 63)
    (hlt : startid1 < maxid1) :
    Safe startid1 maxid1 cs ↔
      (∃ pt ∈ points, 1 ≤ pt.value) ∧ Stops cs ∧ maxid1 - startid1 ≤ 2 ^ 63 := by
  obtain ⟨hpos, htwo⟩ := cumulativeSum_length hvalues hcs
  rw [safe_iff hmin hmax hlt hpos, htwo]

/-- Half of the ids are read, once. -/
theorem choose_safe_half : Safe 1 10 [0, 1 / 2] := by
  have hcs : cumulativeSum [⟨0, 1 / 2⟩, ⟨1, 1⟩] = .ok [0, 1 / 2] := by decide +kernel
  exact (choose_safe_iff (by decide) hcs (by decide) (by decide) (by decide)).mpr
    ⟨⟨⟨1, 1⟩, by decide, by decide⟩, ⟨0, by decide⟩, by decide⟩

/-- If no id is read, there is one bucket, and the second is asked for. -/
theorem all_mass_at_zero :
    cumulativeSum [⟨0, 1⟩] = .ok [0] ∧ ¬ Safe 1 10 [0] := by
  refine ⟨by decide +kernel, fun h => ?_⟩
  obtain ⟨calls, right_points, hrun, -⟩ := h [0] (by decide +kernel)
  have hstuck : emits (chooseStep 1 10 [0]) [0] [0] = none := by decide +kernel
  exact absurd (hstuck.symm.trans hrun) nofun

end TokuQa.LinkBench.PiecewiseLinear
