import Mathlib.Data.Fintype.Card
import TokuQa.Lib.Rejection
import TokuQa.Tpcc.LoadRows

/-!
# The original items of `load.c`

A tenth of the items are to have the word `original` in their data. `LoadItems` and `Stock` choose
them with the same two loops: one clears the array `orig`, the other draws places until so many
have been drawn that were not marked yet. The first clears a tenth of the array only, so what
was on the stack elsewhere is taken for marks; and the second draws places from 0 on, where the
items are numbered from 1. It ends all the same, and the number of items it has marked is that of
the marks that were there before, and a tenth, less one if the place 0 is among them
(`originals_eq`).
-/

set_option autoImplicit false

namespace TokuQa.Tpcc

open TokuQa.Lib

/-- The array `orig`, for so many items. -/
abbrev Orig (items : Nat) := Fin (items + 1) → Int

section

variable {items : Nat} (rand : Nat → Nat)

/-- `RandomNumber(0L, MAXITEMS)`, at the `k`th number that `rand` returns. -/
def drawPos (items : Nat) (k : Nat) : Fin (items + 1) :=
  ⟨randomNumber (rand k) 0 items, Nat.lt_succ_of_le (randomNumber_le (Nat.zero_le items) _)⟩

/-- The loop that sets `orig[i]` to 0 for each `i` below `MAXITEMS / 10`. -/
def clearTenth (orig : Orig items) : Orig items := fun i => if i < items / 10 then 0 else orig i

/-- The loop that draws a place: the first one that is not marked, and the draws until then. -/
def nextFree (orig : Orig items) : Nat → Nat → Option (Fin (items + 1) × Nat)
  | 0, _ => none
  | fuel + 1, k =>
    let pos := drawPos rand items k
    if orig pos ≠ 0 then nextFree orig fuel (k + 1) else some (pos, k + 1)

/-- The loop that marks places, with so many turns left. -/
def markPlaces (fuel : Nat) : Nat → Orig items → Nat → Option (Orig items)
  | 0, orig, _ => some orig
  | n + 1, orig, k => do
    let (pos, k) ← nextFree rand orig fuel k
    markPlaces fuel n (Function.update orig pos 1) k

/-- Both loops, of `LoadItems` and of `Stock`. -/
def selectOriginals (fuel : Nat) (orig : Orig items) : Option (Orig items) :=
  markPlaces rand fuel (items / 10) (clearTenth orig) 0

end

/-- The number of the items 1 to `MAXITEMS` that are taken for original ones. -/
def originals {items : Nat} (orig : Orig items) : Nat :=
  (Finset.univ.filter fun i => i ≠ 0 ∧ orig i ≠ 0).card

/-- The number of items that are marked before, where the array is not cleared. -/
def strays {items : Nat} (orig : Orig items) : Nat :=
  (Finset.univ.filter fun i : Fin (items + 1) => i ≠ 0 ∧ items / 10 ≤ i ∧ orig i ≠ 0).card

/-- The places that are not marked when the drawing begins. -/
def freePlaces {items : Nat} (orig : Orig items) : Finset (Fin (items + 1)) :=
  Finset.univ.filter fun i => clearTenth orig i = 0

/-- The place 0 is drawn before a tenth of the places, all different and free, have been. -/
def ZeroDrawn {items : Nat} (rand : Nat → Nat) (orig : Orig items) : Prop :=
  ∃ k, drawPos rand items k = 0 ∧
    (fresh (drawPos rand items) (freePlaces orig) k).card < items / 10

/-! ## A place -/

section

variable {items : Nat} {rand : Nat → Nat} {orig orig' : Orig items} {fuel k k' : Nat}
  {pos : Fin (items + 1)}

/-- What is drawn: the first place that is not marked. -/
theorem nextFree_eq_some (h : nextFree rand orig fuel k = some (pos, k')) :
    ∃ m, k ≤ m ∧ k' = m + 1 ∧ pos = drawPos rand items m ∧ orig pos = 0 ∧
      ∀ i, k ≤ i → i < m → orig (drawPos rand items i) ≠ 0 := by
  induction fuel generalizing k with
  | zero => nomatch h
  | succ fuel ih =>
    rw [nextFree] at h
    split at h
    · rename_i hmarked
      obtain ⟨m, hm, hk', hpos, hfree, hbefore⟩ := ih h
      refine ⟨m, by omega, hk', hpos, hfree, fun i hi him => ?_⟩
      rcases Nat.eq_or_lt_of_le hi with rfl | hlt
      · exact hmarked
      · exact hbefore i hlt him
    · rename_i hfree
      cases h
      exact ⟨k, le_rfl, rfl, rfl, not_not.mp hfree, fun i hi him => absurd him (not_lt.mpr hi)⟩

/-- The loop ends when a place that is not marked is drawn. -/
theorem nextFree_ends {m : Nat} (hm : k ≤ m) (hfree : orig (drawPos rand items m) = 0)
    (hfuel : m - k < fuel) : ∃ r, nextFree rand orig fuel k = some r := by
  induction fuel generalizing k with
  | zero => exact absurd hfuel (Nat.not_lt_zero _)
  | succ fuel ih =>
    rw [nextFree]
    split
    · rename_i hmarked
      have hne : k ≠ m := fun heq => hmarked (heq ▸ hfree)
      exact ih (by omega) (by omega)
    · exact ⟨_, rfl⟩

end

/-! ## The places that are marked -/

/-- `n` places have been marked in `k` draws. -/
structure Marked {items : Nat} (rand : Nat → Nat) (orig orig' : Orig items) (k n : Nat) : Prop where
  marks : ∀ i, orig' i ≠ 0 ↔
    i ∉ freePlaces orig ∨ i ∈ fresh (drawPos rand items) (freePlaces orig) k
  card : (fresh (drawPos rand items) (freePlaces orig) k).card = n

section

variable {items : Nat} {rand : Nat → Nat} {orig orig₁ orig' : Orig items} {fuel k k' n j : Nat}
  {pos : Fin (items + 1)}

theorem mem_freePlaces {i : Fin (items + 1)} : i ∈ freePlaces orig ↔ clearTenth orig i = 0 := by
  simp [freePlaces]

theorem Marked.start (rand : Nat → Nat) (orig : Orig items) :
    Marked rand orig (clearTenth orig) 0 0 := by
  refine ⟨fun i => ?_, rfl⟩
  rw [mem_freePlaces]
  exact (or_iff_left (Finset.notMem_empty i)).symm

theorem Marked.next (h : Marked rand orig orig₁ k j)
    (hnext : nextFree rand orig₁ fuel k = some (pos, k')) :
    Marked rand orig (Function.update orig₁ pos 1) k' (j + 1) := by
  obtain ⟨m, hm, rfl, rfl, hzero, hbefore⟩ := nextFree_eq_some hnext
  have hnew := (not_iff_not.mpr (h.marks (drawPos rand items m))).mp (not_not.mpr hzero)
  rw [not_or, not_not] at hnew
  -- what is drawn until then is marked
  have hsame : fresh (drawPos rand items) (freePlaces orig) m =
      fresh (drawPos rand items) (freePlaces orig) k :=
    fresh_of_rejected hm fun i hi him hfree =>
      ((h.marks _).mp (hbefore i hi him)).resolve_left (not_not.mpr hfree)
  have hinsert := fresh_succ_of_accepted hnew.1
  rw [hsame] at hinsert
  refine ⟨fun i => ?_, ?_⟩
  · rw [hinsert, Finset.mem_insert]
    by_cases hi : i = drawPos rand items m
    · subst hi
      simp
    · rw [Function.update_of_ne hi, h.marks i, or_iff_right hi]
  · rw [hinsert, Finset.card_insert_of_notMem hnew.2, h.card]

theorem Marked.turns (h : Marked rand orig orig₁ k j)
    (hturns : markPlaces rand fuel n orig₁ k = some orig') :
    ∃ k', Marked rand orig orig' k' (j + n) := by
  induction n generalizing orig₁ k j with
  | zero =>
    cases hturns
    exact ⟨k, h⟩
  | succ n ih =>
    obtain ⟨⟨pos, k₁⟩, hnext, hrest⟩ := Option.bind_eq_some_iff.mp hturns
    obtain ⟨k', h'⟩ := ih (h.next hnext) hrest
    exact ⟨k', by rwa [Nat.add_assoc, Nat.add_comm 1] at h'⟩

/-- **The loops end** if all places are drawn and there are enough free ones. -/
theorem Marked.ends (h : Marked rand orig orig₁ k j)
    (hall : ∀ v ∈ freePlaces orig, ∃ i < fuel, drawPos rand items i = v)
    (hfree : j + n ≤ (freePlaces orig).card) :
    ∃ orig', markPlaces rand fuel n orig₁ k = some orig' := by
  induction n generalizing orig₁ k j with
  | zero => exact ⟨orig₁, rfl⟩
  | succ n ih =>
    obtain ⟨m, hm, hlt, hplace, hnew⟩ := exists_fresh_draw hall (by rw [h.card]; omega)
    have hzero : orig₁ (drawPos rand items m) = 0 := by
      by_contra hmarked
      rcases (h.marks _).mp hmarked with hnot | hmem
      · exact hnot hplace
      · exact hnew hmem
    obtain ⟨⟨pos, k₁⟩, hnext⟩ := nextFree_ends hm hzero (by omega : m - k < fuel)
    obtain ⟨orig', hrest⟩ := ih (h.next hnext) (by omega)
    exact ⟨orig', Option.bind_eq_some_iff.mpr ⟨_, hnext, hrest⟩⟩

end

/-! ## How many there are -/

section

variable {items : Nat} {rand : Nat → Nat} {orig orig' : Orig items} {fuel k n : Nat}

theorem notMem_freePlaces {i : Fin (items + 1)} :
    i ∉ freePlaces orig ↔ items / 10 ≤ i ∧ orig i ≠ 0 := by
  rw [mem_freePlaces, clearTenth]
  split
  · rename_i hlt
    exact iff_of_false (not_not.mpr rfl) fun h => absurd h.1 (not_le.mpr hlt)
  · rename_i hge
    exact (and_iff_right (not_lt.mp hge)).symm

/-- The loop that clears leaves enough places free. -/
theorem tenth_le_card (orig : Orig items) : items / 10 ≤ (freePlaces orig).card := by
  have hplaces : ∀ i ∈ Finset.range (items / 10), Fin.ofNat (items + 1) i ∈ freePlaces orig := by
    intro i hi
    have hlt := Finset.mem_range.mp hi
    rw [mem_freePlaces, clearTenth, if_pos]
    rw [Fin.val_ofNat, Nat.mod_eq_of_lt (by omega)]
    exact hlt
  have hinj : Set.InjOn (Fin.ofNat (items + 1)) (Finset.range (items / 10)) := by
    intro i hi j hj hij
    have hi' := Finset.mem_range.mp (Finset.mem_coe.mp hi)
    have hj' := Finset.mem_range.mp (Finset.mem_coe.mp hj)
    have hval := congrArg Fin.val hij
    rwa [Fin.val_ofNat, Fin.val_ofNat, Nat.mod_eq_of_lt (by omega), Nat.mod_eq_of_lt (by omega)]
      at hval
  have hcard := Finset.card_le_card_of_injOn _ hplaces hinj
  rwa [Finset.card_range] at hcard

/-- What was marked before and what has been drawn, without the place 0. -/
theorem Marked.originals_add (h : Marked rand orig orig' k n) :
    originals orig' + (if 0 ∈ fresh (drawPos rand items) (freePlaces orig) k then 1 else 0) =
      strays orig + n := by
  have hsplit : (Finset.univ.filter fun i => i ≠ 0 ∧ orig' i ≠ 0) =
      (Finset.univ.filter fun i : Fin (items + 1) => i ≠ 0 ∧ items / 10 ≤ i ∧ orig i ≠ 0) ∪
        (fresh (drawPos rand items) (freePlaces orig) k).erase 0 := by
    ext i
    simp only [Finset.mem_filter, Finset.mem_univ, true_and, Finset.mem_union, Finset.mem_erase,
      h.marks i, notMem_freePlaces]
    tauto
  have hdisjoint : Disjoint
      (Finset.univ.filter fun i : Fin (items + 1) => i ≠ 0 ∧ items / 10 ≤ i ∧ orig i ≠ 0)
      ((fresh (drawPos rand items) (freePlaces orig) k).erase 0) := by
    refine Finset.disjoint_left.mpr fun i hi hfresh => ?_
    have hfree := fresh_subset _ _ _ (Finset.mem_of_mem_erase hfresh)
    exact notMem_freePlaces.mpr (Finset.mem_filter.mp hi).2.2 hfree
  rw [originals, hsplit, Finset.card_union_of_disjoint hdisjoint, ← strays, Nat.add_assoc]
  congr 1
  split
  · rename_i hzero
    rw [Finset.card_erase_add_one hzero, h.card]
  · rename_i hzero
    rw [Finset.erase_eq_of_notMem hzero, h.card, Nat.add_zero]

/-- Whether the place 0 has been drawn. -/
theorem Marked.zero_mem_iff (h : Marked rand orig orig' k (items / 10)) :
    0 ∈ fresh (drawPos rand items) (freePlaces orig) k ↔ ZeroDrawn rand orig := by
  rcases Nat.eq_zero_or_pos (items / 10) with hzero | hpos
  · have hempty := Finset.card_eq_zero.mp (h.card.trans hzero)
    rw [hempty]
    refine iff_of_false (Finset.notMem_empty _) ?_
    rintro ⟨i, -, hlt⟩
    omega
  · refine mem_fresh_iff h.card ?_
    rw [mem_freePlaces, clearTenth, if_pos]
    exact hpos

/-- All places are drawn within a number of draws. -/
theorem exists_bound (hall : ∀ v ≤ items, ∃ k, randomNumber (rand k) 0 items = v) :
    ∃ fuel, ∀ v : Fin (items + 1), ∃ i < fuel, drawPos rand items i = v := by
  choose f hf using fun v : Fin (items + 1) => hall v (Nat.le_of_lt_succ v.isLt)
  refine ⟨Finset.univ.sup f + 1, fun v => ⟨f v, ?_, Fin.ext (hf v)⟩⟩
  exact Nat.lt_succ_of_le (Finset.le_sup (Finset.mem_univ v))

theorem selectOriginals_ends (hall : ∀ v ≤ items, ∃ k, randomNumber (rand k) 0 items = v)
    (orig : Orig items) : ∃ fuel orig', selectOriginals rand fuel orig = some orig' := by
  obtain ⟨fuel, hfuel⟩ := exists_bound hall
  have hfree : 0 + items / 10 ≤ (freePlaces orig).card := by
    rw [Nat.zero_add]
    exact tenth_le_card orig
  exact ⟨fuel, (Marked.start rand orig).ends (fun v _ => hfuel v) hfree⟩

/-- **What the loops mark**: a tenth of the places, besides those that are not cleared. Whether the
place 0 is among them does not depend on the loops. -/
theorem originals_eq (h : selectOriginals rand fuel orig = some orig') :
    (ZeroDrawn rand orig → originals orig' + 1 = strays orig + items / 10) ∧
      (¬ ZeroDrawn rand orig → originals orig' = strays orig + items / 10) := by
  obtain ⟨k, hmarked⟩ := (Marked.start rand orig).turns h
  rw [Nat.zero_add] at hmarked
  have hadd := hmarked.originals_add
  constructor
  · intro hzero
    rwa [if_pos (hmarked.zero_mem_iff.mpr hzero)] at hadd
  · intro hzero
    rwa [if_neg (hzero ∘ hmarked.zero_mem_iff.mp)] at hadd

/-- **When a tenth of the items are original ones**, if all places are drawn at some time: when no
item was marked before and the place 0 is not among those that are drawn, or one was and it is. -/
theorem selectOriginals_iff (hall : ∀ v ≤ items, ∃ k, randomNumber (rand k) 0 items = v)
    (orig : Orig items) :
    (∃ fuel orig', selectOriginals rand fuel orig = some orig' ∧ originals orig' = items / 10) ↔
      strays orig = 0 ∧ ¬ ZeroDrawn rand orig ∨ strays orig = 1 ∧ ZeroDrawn rand orig := by
  constructor
  · rintro ⟨fuel, orig', h, htenth⟩
    obtain ⟨hdrawn, hnot⟩ := originals_eq h
    by_cases hzero : ZeroDrawn rand orig
    · have hcount := hdrawn hzero
      exact .inr ⟨by omega, hzero⟩
    · have hcount := hnot hzero
      exact .inl ⟨by omega, hzero⟩
  · intro hcond
    obtain ⟨fuel, orig', h⟩ := selectOriginals_ends hall orig
    obtain ⟨hdrawn, hnot⟩ := originals_eq h
    refine ⟨fuel, orig', h, ?_⟩
    rcases hcond with ⟨hnone, hzero⟩ | ⟨hone, hzero⟩
    · rw [hnot hzero, hnone, Nat.zero_add]
    · have hcount := hdrawn hzero
      omega

end

/-- An array of zeros, for `MAXITEMS` items. -/
def zeros : Orig 100000 := fun _ => 0

/-- The numbers one after another hit each place. -/
theorem counting_hits : ∀ v ≤ 100000, ∃ k, randomNumber k 0 100000 = v := by
  intro v hv
  refine ⟨v, ?_⟩
  rw [randomNumber]
  omega

theorem selectOriginals_counting :
    (∃ fuel orig', selectOriginals id fuel zeros = some orig' ∧ originals orig' = 100000 / 10) ↔
      strays zeros = 0 ∧ ¬ ZeroDrawn id zeros ∨ strays zeros = 1 ∧ ZeroDrawn id zeros :=
  selectOriginals_iff counting_hits zeros

/-- The place 0 is drawn first, and counts for nothing. -/
theorem zero_drawn_first : (∀ v ≤ 100000, ∃ k, randomNumber k 0 100000 = v) ∧
    ¬ ∃ fuel orig', selectOriginals id fuel zeros = some orig' ∧ originals orig' = 100000 / 10 := by
  refine ⟨counting_hits, ?_⟩
  rintro ⟨fuel, orig', h, htenth⟩
  have hzero : ZeroDrawn id zeros := by
    refine ⟨0, Fin.ext ?_, ?_⟩
    · simp [drawPos, randomNumber]
    · have hempty : fresh (drawPos id 100000) (freePlaces zeros) 0 = ∅ := by simp [fresh]
      rw [hempty, Finset.card_empty]
      omega
  have hstrays : strays zeros = 0 := by
    rw [strays, Finset.card_eq_zero]
    exact Finset.filter_false_of_mem fun i _ hi => hi.2.2 rfl
  have hcount := (originals_eq h).1 hzero
  omega

end TokuQa.Tpcc
