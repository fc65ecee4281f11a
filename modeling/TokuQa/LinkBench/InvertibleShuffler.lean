import Mathlib.Data.Int.ConditionallyCompleteOrder
import Mathlib.Data.Set.Function
import Mathlib.Order.ConditionallyCompleteLattice.Basic
import TokuQa.Lib.JavaInt
import TokuQa.Lib.Residue

/-!
# `InvertibleShuffler.java`

A permutation of `[0, n)` that turns every residue class modulo `shuffleGroups` by an amount of
its own, drawn once in the constructor. The inverse turns the class by what is missing to a
full turn, so both directions are `Lib.rotated`, and `Ok.permuteWith_eq` says the method
computes it: the branch `result = group` is never taken and no assertion fails.

`n` is a `long` and is cast to `int`, hence the bound on it. The `long` arithmetic below stays
far inside its range then (`permute` adds at most `2 * n` to an index), so it is not wrapped.
-/

set_option autoImplicit false

namespace TokuQa.LinkBench

open TokuQa.Lib

structure InvertibleShuffler where
  params : List Int
  shuffleGroups : Int
  n : Int
  nRoundedUp : Int
  nRoundedDown : Int
  minGroupSize : Int

namespace InvertibleShuffler

/-- What `permute` can throw. -/
inductive Exn where
  | illegalArgument (msg : String)
  | arrayIndexOutOfBounds
  | assertionError
deriving DecidableEq

/-- "Can't have more shuffle groups than items". -/
def groupsFor (shuffleGroups n : Int) : Int :=
  if shuffleGroups > n then wrap32 n else shuffleGroups

def minGroupSizeFor (shuffleGroups n : Int) : Int :=
  (wrap32 n).tdiv (groupsFor shuffleGroups n)

/-- The object the constructor builds around its draws. -/
def ofParams (params : List Int) (shuffleGroups n : Int) : InvertibleShuffler :=
  let groups := groupsFor shuffleGroups n
  let nRoundedDown := n.tdiv groups * groups
  { params := params
    shuffleGroups := groups
    n := n
    nRoundedUp := if n = nRoundedDown then n else nRoundedDown + groups
    nRoundedDown := nRoundedDown
    minGroupSize := minGroupSizeFor shuffleGroups n }

/-- The constructor. `nextInt i` is what the `i`-th call of `rng.nextInt(minGroupSize)`
returns. -/
def new (nextInt : Nat → Int) (shuffleGroups n : Int) : InvertibleShuffler :=
  ofParams ((List.range (groupsFor shuffleGroups n).toNat).map fun i => |nextInt i|) shuffleGroups n

def permuteWith (sh : InvertibleShuffler) (i : Int) (inverse : Bool) : Except Exn Int := do
  if i < 0 ∨ i ≥ sh.n then
    throw (.illegalArgument ("Bad index to permute: " ++ toString i ++ ": out of range [0:" ++
      toString (sh.n - 1) ++ "]"))
  let group := wrap32 (i.tmod sh.shuffleGroups)
  let bigGroup := decide (group < sh.n.tmod sh.shuffleGroups)
  let rotate ← match sh.params[group.toNat]? with
    | some rotate => pure rotate
    | none => throw .arrayIndexOutOfBounds
  let rotate := if inverse then
      (if bigGroup then sh.minGroupSize + 1 - rotate else sh.minGroupSize - rotate)
    else rotate
  if inverse ∧ ¬ rotate ≥ 0 then
    throw .assertionError
  let j := i + sh.shuffleGroups * rotate
  let result :=
    if j < sh.n then j
    else
      let r := if bigGroup then j.tmod sh.nRoundedUp else j.tmod sh.nRoundedDown
      if r ≥ sh.n then group else r
  if ¬ result.tmod sh.shuffleGroups = group then
    throw .assertionError
  return result

def permute (sh : InvertibleShuffler) (i : Int) : Except Exn Int := sh.permuteWith i false

def invertPermute (sh : InvertibleShuffler) (i : Int) : Except Exn Int := sh.permuteWith i true

/-! ## What the constructor establishes -/

/-- A shuffler with a parameter for each class that does not turn it all the way. -/
structure Ok (sh : InvertibleShuffler) : Prop where
  groups_pos : 0 < sh.shuffleGroups
  groups_lt : sh.shuffleGroups < 2 ^ 31
  minGroupSize_eq : sh.minGroupSize = sh.n / sh.shuffleGroups
  nRoundedDown_eq : sh.nRoundedDown = sh.shuffleGroups * sh.minGroupSize
  nRoundedUp_eq : sh.n % sh.shuffleGroups ≠ 0 →
    sh.nRoundedUp = sh.shuffleGroups * (sh.minGroupSize + 1)
  length : (sh.params.length : Int) = sh.shuffleGroups
  params : ∀ rotate ∈ sh.params, 0 ≤ rotate ∧ rotate < sh.minGroupSize

section

variable {params : List Int} {shuffleGroups n : Int}

theorem groupsFor_eq (shuffleGroups : Int) (hn : 1 ≤ n) (hn' : n < 2 ^ 31) :
    groupsFor shuffleGroups n = min shuffleGroups n := by
  have hwrap : wrap32 n = n := wrap_eq_self (by omega) hn'
  unfold groupsFor
  rw [hwrap]
  split <;> omega

theorem minGroupSizeFor_eq (shuffleGroups : Int) (hn : 1 ≤ n) (hn' : n < 2 ^ 31) :
    minGroupSizeFor shuffleGroups n = n / groupsFor shuffleGroups n := by
  have hwrap : wrap32 n = n := wrap_eq_self (by omega) hn'
  unfold minGroupSizeFor
  rw [hwrap, Int.tdiv_eq_ediv_of_nonneg (by omega)]

/-- Every group has an item, so there is something to draw from. -/
theorem minGroupSizeFor_pos (hn : 1 ≤ n) (hn' : n < 2 ^ 31) (hs : 1 ≤ shuffleGroups) :
    0 < minGroupSizeFor shuffleGroups n := by
  rw [minGroupSizeFor_eq shuffleGroups hn hn', groupsFor_eq shuffleGroups hn hn']
  exact Int.le_ediv_of_mul_le (by omega) (by omega)

theorem ofParams_ok (hn : 1 ≤ n) (hn' : n < 2 ^ 31) (hs : 1 ≤ shuffleGroups)
    (hlen : (params.length : Int) = groupsFor shuffleGroups n)
    (hparams : ∀ rotate ∈ params, 0 ≤ rotate ∧ rotate < minGroupSizeFor shuffleGroups n) :
    (ofParams params shuffleGroups n).Ok := by
  have hgroups := groupsFor_eq shuffleGroups hn hn'
  have hsize := minGroupSizeFor_eq shuffleGroups hn hn'
  have hdiv := Int.emod_add_mul_ediv n (groupsFor shuffleGroups n)
  have hdown : n.tdiv (groupsFor shuffleGroups n) * groupsFor shuffleGroups n =
      groupsFor shuffleGroups n * minGroupSizeFor shuffleGroups n := by
    rw [Int.tdiv_eq_ediv_of_nonneg (by omega), hsize, Int.mul_comm]
  refine ⟨?_, ?_, hsize, hdown, fun hr => ?_, hlen, hparams⟩
  · have hpos : 0 < groupsFor shuffleGroups n := by omega
    exact hpos
  · have hlt : groupsFor shuffleGroups n < 2 ^ 31 := by omega
    exact hlt
  · have hr' : n % groupsFor shuffleGroups n ≠ 0 := hr
    have hne : n ≠ n.tdiv (groupsFor shuffleGroups n) * groupsFor shuffleGroups n := by
      rw [hdown, hsize]
      omega
    have hup : (ofParams params shuffleGroups n).nRoundedUp =
        n.tdiv (groupsFor shuffleGroups n) * groupsFor shuffleGroups n +
          groupsFor shuffleGroups n := if_neg hne
    rw [hup, hdown]
    exact (mul_add_one _ _).symm

/-- The constructor's own draws qualify. -/
theorem new_ok {nextInt : Nat → Int} (hn : 1 ≤ n) (hn' : n < 2 ^ 31) (hs : 1 ≤ shuffleGroups)
    (hdraws : ∀ i, 0 ≤ nextInt i ∧ nextInt i < minGroupSizeFor shuffleGroups n) :
    (new nextInt shuffleGroups n).Ok := by
  have hgroups := groupsFor_eq shuffleGroups hn hn'
  refine ofParams_ok hn hn' hs ?_ fun rotate hr => ?_
  · rw [List.length_map, List.length_range]
    omega
  · obtain ⟨i, -, rfl⟩ := List.mem_map.mp hr
    rw [abs_of_nonneg (hdraws i).1]
    exact hdraws i

end

/-! ## What `permute` computes -/

section

variable {sh : InvertibleShuffler} {i rot : Int}

/-- The parameter of a class. -/
def param (sh : InvertibleShuffler) (group : Int) : Int := (sh.params[group.toNat]?).getD 0

/-- How far the method turns a class. -/
def turn (sh : InvertibleShuffler) (inverse : Bool) (group : Int) : Int :=
  if inverse then classSize sh.shuffleGroups sh.n group - sh.param group else sh.param group

theorem Ok.getElem?_params (h : sh.Ok) {group : Int} (h0 : 0 ≤ group)
    (hlt : group < sh.shuffleGroups) :
    sh.params[group.toNat]? = some (sh.param group) ∧ 0 ≤ sh.param group ∧
      sh.param group < sh.minGroupSize := by
  have hlen := h.length
  have hbound : group.toNat < sh.params.length := by omega
  have hget : sh.params[group.toNat]? = some sh.params[group.toNat] :=
    List.getElem?_eq_getElem hbound
  have hparam : sh.param group = sh.params[group.toNat] := by
    unfold param
    rw [hget]
    rfl
  rw [hparam]
  exact ⟨hget, h.params _ (List.getElem_mem hbound)⟩

theorem Ok.turn_bounds (h : sh.Ok) (inverse : Bool) {group : Int} (h0 : 0 ≤ group)
    (hlt : group < sh.shuffleGroups) :
    0 ≤ sh.turn inverse group ∧
      sh.turn inverse group ≤ classSize sh.shuffleGroups sh.n group := by
  obtain ⟨-, hp0, hplt⟩ := h.getElem?_params h0 hlt
  have hsize := h.minGroupSize_eq
  unfold turn classSize
  split <;> split <;> omega

/-- The number the wrap-around branch reduces by: the members of the class, times the step. -/
theorem Ok.modulus_eq (h : sh.Ok) (group : Int) (h0 : 0 ≤ group) :
    (if group < sh.n % sh.shuffleGroups then sh.nRoundedUp else sh.nRoundedDown) =
      sh.shuffleGroups * classSize sh.shuffleGroups sh.n group := by
  unfold classSize
  rw [← h.minGroupSize_eq]
  split
  · exact h.nRoundedUp_eq (by omega)
  · exact h.nRoundedDown_eq

/-- **The last lines of `permute`**: adding the turn, and starting the class over where it
ends. The branch `result = group` is not taken. -/
theorem Ok.wrap_around (h : sh.Ok) (h0 : 0 ≤ i) (hn : i < sh.n) (hrot : 0 ≤ rot)
    (hrot' : rot ≤ classSize sh.shuffleGroups sh.n (i % sh.shuffleGroups)) :
    (if i + sh.shuffleGroups * rot < sh.n then i + sh.shuffleGroups * rot
      else if (i + sh.shuffleGroups * rot).tmod (sh.shuffleGroups *
          classSize sh.shuffleGroups sh.n (i % sh.shuffleGroups)) ≥ sh.n then
        i % sh.shuffleGroups
      else (i + sh.shuffleGroups * rot).tmod (sh.shuffleGroups *
          classSize sh.shuffleGroups sh.n (i % sh.shuffleGroups))) =
      rotated sh.shuffleGroups sh.n rot i := by
  have hs := h.groups_pos
  have hg0 := Int.emod_nonneg i hs.ne'
  have hgs := Int.emod_lt_of_pos i hs
  have hq0 := Int.ediv_nonneg h0 hs.le
  have hq := place_lt hs hn
  have hlt : rotated sh.shuffleGroups sh.n rot i < sh.n := rotated_lt hs h0 hn
  have hj : i + sh.shuffleGroups * rot =
      i % sh.shuffleGroups + sh.shuffleGroups * (i / sh.shuffleGroups + rot) := by
    have hi := Int.emod_add_mul_ediv i sh.shuffleGroups
    rw [mul_add]
    omega
  rw [hj]
  unfold rotated at hlt ⊢
  generalize i % sh.shuffleGroups = g at *
  generalize i / sh.shuffleGroups = q at *
  -- whether the sum leaves `[0, n)` is decided inside the class
  have hcut := add_mul_lt_iff (s := sh.shuffleGroups) (n := sh.n) (k := q + rot) hg0 hgs
  generalize classSize sh.shuffleGroups sh.n g = size at *
  by_cases hk : q + rot < size
  · rw [if_pos (hcut.mpr hk), Int.emod_eq_of_lt (by omega) hk]
  · have hover : (q + rot) % size = q + rot - size := by
      rw [← Int.sub_emod_right, Int.emod_eq_of_lt (by omega) (by omega)]
    rw [hover] at hlt ⊢
    -- less than two full turns, so taking one away is the remainder
    have hsplit : g + sh.shuffleGroups * (q + rot) =
        g + sh.shuffleGroups * (q + rot - size) + sh.shuffleGroups * size := by
      rw [mul_sub]
      omega
    have hmul0 : 0 ≤ sh.shuffleGroups * (q + rot - size) :=
      Int.mul_nonneg hs.le (by omega)
    have hmul : sh.shuffleGroups * (q + rot - size + 1) ≤ sh.shuffleGroups * size :=
      Int.mul_le_mul_of_nonneg_left (by omega) hs.le
    rw [mul_add_one] at hmul
    have hmod : (g + sh.shuffleGroups * (q + rot)).tmod (sh.shuffleGroups * size) =
        g + sh.shuffleGroups * (q + rot - size) := by
      rw [hsplit, Int.tmod_eq_emod_of_nonneg (by omega), Int.add_emod_right,
        Int.emod_eq_of_lt (by omega) (by omega)]
    rw [if_neg (by rw [hcut]; exact hk), hmod, if_neg (by omega)]

/-- **`permute` is a turn of the index's own class**, in both directions. -/
theorem Ok.permuteWith_eq (h : sh.Ok) (inverse : Bool) (h0 : 0 ≤ i) (hn : i < sh.n) :
    sh.permuteWith i inverse =
      .ok (rotated sh.shuffleGroups sh.n (sh.turn inverse (i % sh.shuffleGroups)) i) := by
  have hs := h.groups_pos
  have hs' := h.groups_lt
  have hg0 := Int.emod_nonneg i hs.ne'
  have hgs := Int.emod_lt_of_pos i hs
  have hgroup : wrap32 (i.tmod sh.shuffleGroups) = i % sh.shuffleGroups := by
    rw [Int.tmod_eq_emod_of_nonneg h0]
    exact wrap_eq_self (by omega) (by omega)
  have hbig : sh.n.tmod sh.shuffleGroups = sh.n % sh.shuffleGroups :=
    Int.tmod_eq_emod_of_nonneg (by omega)
  obtain ⟨hget, -, -⟩ := h.getElem?_params hg0 hgs
  obtain ⟨hturn0, hturn⟩ := h.turn_bounds inverse hg0 hgs
  have hrotate : (if inverse = true then
        (if i % sh.shuffleGroups < sh.n % sh.shuffleGroups then
          sh.minGroupSize + 1 - sh.param (i % sh.shuffleGroups)
        else sh.minGroupSize - sh.param (i % sh.shuffleGroups))
      else sh.param (i % sh.shuffleGroups)) = sh.turn inverse (i % sh.shuffleGroups) := by
    have hsize := h.minGroupSize_eq
    unfold turn classSize
    cases inverse with
    | true =>
      rw [if_pos rfl, if_pos rfl, ← hsize]
      split <;> rfl
    | false => rfl
  have hmodulus := h.modulus_eq (i % sh.shuffleGroups) hg0
  have hresult := h.wrap_around h0 hn hturn0 hturn
  have hclass : rotated sh.shuffleGroups sh.n (sh.turn inverse (i % sh.shuffleGroups)) i %
      sh.shuffleGroups = i % sh.shuffleGroups := rotated_emod hs
  have hnonneg : 0 ≤ rotated sh.shuffleGroups sh.n (sh.turn inverse (i % sh.shuffleGroups)) i :=
    rotated_nonneg hs h0 hn
  unfold permuteWith
  rw [if_neg (by omega)]
  simp only [hgroup, hbig, hget, decide_eq_true_eq, pure_bind]
  rw [hrotate]
  have hwrapped : ∀ j : Int, (if i % sh.shuffleGroups < sh.n % sh.shuffleGroups then
        j.tmod sh.nRoundedUp else j.tmod sh.nRoundedDown) =
      j.tmod (sh.shuffleGroups * classSize sh.shuffleGroups sh.n (i % sh.shuffleGroups)) := by
    intro j
    rw [← hmodulus]
    split <;> rfl
  have hassert : (rotated sh.shuffleGroups sh.n (sh.turn inverse (i % sh.shuffleGroups)) i).tmod
      sh.shuffleGroups = i % sh.shuffleGroups := by
    rw [Int.tmod_eq_emod_of_nonneg hnonneg, hclass]
  rw [hwrapped, hresult, if_neg (by rintro ⟨-, hneg⟩; exact hneg hturn0),
    if_neg (fun hneg => hneg hassert)]
  rfl

end

/-! ## The permutation -/

section

variable {sh : InvertibleShuffler} {i : Int}

/-- The index `permute` (or, with `inverse`, `invertPermute`) returns. -/
def image (sh : InvertibleShuffler) (inverse : Bool) (i : Int) : Int :=
  rotated sh.shuffleGroups sh.n (sh.turn inverse (i % sh.shuffleGroups)) i

theorem Ok.image_mem (h : sh.Ok) (inverse : Bool) (hi : i ∈ Set.Ico 0 sh.n) :
    sh.image inverse i ∈ Set.Ico 0 sh.n :=
  ⟨rotated_nonneg h.groups_pos hi.1 hi.2, rotated_lt h.groups_pos hi.1 hi.2⟩

theorem Ok.image_emod (h : sh.Ok) (inverse : Bool) (i : Int) :
    sh.image inverse i % sh.shuffleGroups = i % sh.shuffleGroups :=
  rotated_emod h.groups_pos

theorem turn_add_turn (sh : InvertibleShuffler) (inverse : Bool) (group : Int) :
    sh.turn inverse group + sh.turn (!inverse) group =
      classSize sh.shuffleGroups sh.n group := by
  cases inverse <;> simp [turn]

/-- **Each direction undoes the other.** -/
theorem Ok.image_image (h : sh.Ok) (inverse : Bool) (hi : i ∈ Set.Ico 0 sh.n) :
    sh.image (!inverse) (sh.image inverse i) = i := by
  have hclass := h.image_emod inverse i
  have hback := rotated_rotated h.groups_pos hi.1 hi.2
    (sh.turn_add_turn inverse (i % sh.shuffleGroups))
  unfold image at hclass ⊢
  rw [hclass]
  exact hback

theorem Ok.image_bijOn (h : sh.Ok) (inverse : Bool) :
    Set.BijOn (sh.image inverse) (Set.Ico 0 sh.n) (Set.Ico 0 sh.n) := by
  refine ⟨fun i hi => h.image_mem inverse hi, fun i hi j hj he => ?_, fun j hj => ?_⟩
  · rw [← h.image_image inverse hi, he, h.image_image inverse hj]
  · refine ⟨sh.image (!inverse) j, h.image_mem _ hj, ?_⟩
    have hback := h.image_image (!inverse) hj
    rwa [Bool.not_not] at hback

end

/-- **The shuffler is an invertible permutation that keeps its groups.** For every size that
fits an `int`, every number of groups and every parameter list of the constructor's kind, both
directions return normally on all of `[0, n)`, undo each other, and stay in the residue class
modulo the groups asked for. -/
theorem permute_invertible {n shuffleGroups : Int} {params : List Int} (hn : 1 ≤ n)
    (hn' : n < 2 ^ 31) (hs : 1 ≤ shuffleGroups)
    (hlen : (params.length : Int) = groupsFor shuffleGroups n)
    (hparams : ∀ rotate ∈ params, 0 ≤ rotate ∧ rotate < minGroupSizeFor shuffleGroups n) :
    ∃ p q : Int → Int,
      (∀ i, 0 ≤ i → i < n →
        (ofParams params shuffleGroups n).permute i = .ok (p i) ∧
        (ofParams params shuffleGroups n).invertPermute i = .ok (q i)) ∧
      Set.BijOn p (Set.Ico 0 n) (Set.Ico 0 n) ∧
      (∀ i, 0 ≤ i → i < n → p i ≡ i [ZMOD shuffleGroups]) ∧
      (∀ i, 0 ≤ i → i < n → q (p i) = i) ∧ (∀ j, 0 ≤ j → j < n → p (q j) = j) := by
  have h := ofParams_ok hn hn' hs hlen hparams
  refine ⟨(ofParams params shuffleGroups n).image false,
    (ofParams params shuffleGroups n).image true, fun i h0 hlt =>
      ⟨h.permuteWith_eq false h0 hlt, h.permuteWith_eq true h0 hlt⟩,
    h.image_bijOn false, fun i h0 hlt => ?_, fun i h0 hlt => h.image_image false ⟨h0, hlt⟩,
    fun j h0 hlt => h.image_image true ⟨h0, hlt⟩⟩
  have hclass := h.image_emod false i
  have hgroups : (ofParams params shuffleGroups n).shuffleGroups = min shuffleGroups n :=
    groupsFor_eq shuffleGroups hn hn'
  rw [hgroups] at hclass
  rcases le_total shuffleGroups n with hle | hle
  · rwa [min_eq_left hle] at hclass
  · -- with a group for every index, indices equal modulo `n` are equal
    have hmem := h.image_mem false (i := i) ⟨h0, hlt⟩
    have hlt' : (ofParams params shuffleGroups n).image false i < n := hmem.2
    rw [min_eq_right hle, Int.emod_eq_of_lt hmem.1 hlt', Int.emod_eq_of_lt h0 hlt] at hclass
    rw [hclass]

/-- Seven indices in three groups, of sizes three, two and two. -/
theorem permute_invertible_seven :
    ∃ p q : Int → Int,
      (∀ i, 0 ≤ i → i < 7 →
        (ofParams [1, 0, 1] 3 7).permute i = .ok (p i) ∧
        (ofParams [1, 0, 1] 3 7).invertPermute i = .ok (q i)) ∧
      Set.BijOn p (Set.Ico 0 7) (Set.Ico 0 7) ∧
      (∀ i, 0 ≤ i → i < 7 → p i ≡ i [ZMOD 3]) ∧
      (∀ i, 0 ≤ i → i < 7 → q (p i) = i) ∧ (∀ j, 0 ≤ j → j < 7 → p (q j) = j) :=
  permute_invertible (by decide) (by decide) (by decide) (by decide) (by decide)

end InvertibleShuffler

end TokuQa.LinkBench
