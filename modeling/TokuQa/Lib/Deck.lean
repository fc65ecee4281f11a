import Mathlib.Data.List.Basic
import Mathlib.Tactic.Ring

/-!
# Decks that are dealt to their end

An array is filled, its elements are exchanged in pairs, and it is dealt out from its first
element to its last; then it is shuffled and dealt again. A store outside the array is `none`.

* `fillFrom_append` and `exchange_perm`: what a fill writes, and that an exchange only permutes;
* `Dealt`: what has been dealt is a number of whole decks and the beginning of the present one;
* `Dealt.block`: hence every block of a deck's length, from the start, is a deck.
-/

set_option autoImplicit false

namespace TokuQa.Lib

variable {α : Type}

/-- `seq[i] = v`. -/
def setAt (seq : List α) (i : Nat) (v : α) : Option (List α) :=
  if i < seq.length then some (seq.set i v) else none

theorem setAt_of_lt {seq : List α} {i : Nat} (h : i < seq.length) (v : α) :
    setAt seq i v = some (seq.set i v) := if_pos h

/-- `v` is stored at `count` places from the `j`th on; the place behind them is returned. -/
def fillFrom (v : α) : Nat → Nat → List α → Option (Nat × List α)
  | 0, j, seq => some (j, seq)
  | count + 1, j, seq => do fillFrom v count (j + 1) (← setAt seq j v)

theorem fillFrom_append (v : α) {front middle : List α} (back : List α) :
    fillFrom v middle.length front.length (front ++ middle ++ back) =
      some (front.length + middle.length,
        front ++ List.replicate middle.length v ++ back) := by
  induction middle generalizing front with
  | nil => rfl
  | cons x middle ih =>
    have hlt : front.length < (front ++ x :: middle ++ back).length := by simp
    have hset : (front ++ x :: middle ++ back).set front.length v =
        front ++ [v] ++ middle ++ back := by
      simp [List.set_append_right]
    have hrest := @ih (front ++ [v])
    rw [List.length_append, List.length_singleton] at hrest
    simp only [List.length_cons, fillFrom, setAt_of_lt hlt, Option.bind_eq_bind,
      Option.bind_some, hset, hrest, List.replicate_succ]
    simp only [List.append_assoc, List.cons_append, List.nil_append, Nat.add_assoc,
      Nat.add_comm 1]

/-- The elements at `i` and `j` change places. -/
def exchange (seq : List α) (i j : Nat) : Option (List α) := do
  let tmp ← seq[j]?
  let x ← seq[i]?
  let seq ← setAt seq j x
  setAt seq i tmp

theorem exchange_of_lt {seq : List α} {i j : Nat} (hi : i < seq.length) (hj : j < seq.length) :
    exchange seq i j = some ((seq.set j seq[i]).set i seq[j]) := by
  have hi' : i < (seq.set j seq[i]).length := by rwa [List.length_set]
  simp only [exchange, List.getElem?_eq_getElem hi, List.getElem?_eq_getElem hj,
    Option.bind_eq_bind, Option.bind_some, setAt_of_lt hj, setAt_of_lt hi']

theorem exchange_eq_none {seq : List α} {i j : Nat} (h : ¬ (i < seq.length ∧ j < seq.length)) :
    exchange seq i j = none := by
  rcases Nat.lt_or_ge j seq.length with hj | hj
  · have hi : seq.length ≤ i := not_lt.mp fun hi => h ⟨hi, hj⟩
    simp [exchange, List.getElem?_eq_getElem hj, List.getElem?_eq_none hi]
  · simp [exchange, List.getElem?_eq_none hj]

theorem exchange_perm {seq : List α} {i j : Nat} (hi : i < seq.length) (hj : j < seq.length) :
    ∃ seq', exchange seq i j = some seq' ∧ seq'.Perm seq :=
  ⟨_, exchange_of_lt hi hj, List.set_set_perm hj hi⟩

theorem exchange_comm (seq : List α) (i j : Nat) : exchange seq i j = exchange seq j i := by
  by_cases h : i < seq.length ∧ j < seq.length
  · rw [exchange_of_lt h.1 h.2, exchange_of_lt h.2 h.1]
    rcases eq_or_ne i j with rfl | hij
    · rfl
    · rw [List.set_comm _ _ hij]
  · rw [exchange_eq_none h, exchange_eq_none fun h' => h h'.symm]

/-- What stands behind the elements stays. -/
theorem exchange_append {seq seq' : List α} {i j : Nat} (back : List α)
    (h : exchange seq i j = some seq') : exchange (seq ++ back) i j = some (seq' ++ back) := by
  by_cases hlt : i < seq.length ∧ j < seq.length
  · obtain ⟨hi, hj⟩ := hlt
    have hlong : seq.length ≤ (seq ++ back).length := by simp
    rw [exchange_of_lt hi hj] at h
    rw [exchange_of_lt (hi.trans_le hlong) (hj.trans_le hlong), ← Option.some.inj h,
      List.getElem_append_left hi, List.getElem_append_left hj, List.set_append_left _ _ hj,
      List.set_append_left _ _ (by rwa [List.length_set])]
  · rw [exchange_eq_none hlt] at h
    exact absurd h (by simp)

/-! ## Dealing -/

/-- `out` has been dealt from decks, all of them to their end but for the present one, of which
`next` elements are dealt. -/
structure Dealt (IsDeck : List α → Prop) (deck : List α) (next : Nat) (out : List α) : Prop where
  isDeck : IsDeck deck
  le_length : next ≤ deck.length
  from_decks : ∃ before : List (List α), (∀ d ∈ before, IsDeck d) ∧
    out = before.flatten ++ deck.take next

section

variable {IsDeck : List α → Prop} {deck deck' out : List α} {next T : Nat}

theorem Dealt.start (h : IsDeck deck) : Dealt IsDeck deck 0 [] :=
  ⟨h, Nat.zero_le _, [], by simp, rfl⟩

theorem Dealt.deal (h : Dealt IsDeck deck next out) (hlt : next < deck.length) :
    Dealt IsDeck deck (next + 1) (out ++ [deck[next]]) := by
  obtain ⟨before, hbefore, rfl⟩ := h.from_decks
  refine ⟨h.isDeck, hlt, before, hbefore, ?_⟩
  rw [List.append_assoc, List.take_append_getElem hlt]

theorem Dealt.again (h : Dealt IsDeck deck next out) (hend : deck.length ≤ next)
    (h' : IsDeck deck') : Dealt IsDeck deck' 0 out := by
  obtain ⟨before, hbefore, rfl⟩ := h.from_decks
  refine ⟨h', Nat.zero_le _, before ++ [deck], ?_, ?_⟩
  · intro d hd
    rcases List.mem_append.mp hd with hd | hd
    · exact hbefore d hd
    · rw [List.mem_singleton.mp hd]
      exact h.isDeck
  · rw [List.take_of_length_le hend]
    simp

/-- A block of a deck's length in decks of that length is one of them. -/
theorem block_of_flatten {before : List (List α)} (hT : ∀ d ∈ before, d.length = T)
    (hdeck : ∀ d ∈ before, IsDeck d) (rest : List α) {k : Nat} (hk : k < before.length) :
    IsDeck (((before.flatten ++ rest).drop (k * T)).take T) := by
  induction before generalizing k with
  | nil => exact absurd hk (Nat.not_lt_zero k)
  | cons d before ih =>
    have hd : d.length = T := hT d List.mem_cons_self
    cases k with
    | zero =>
      rw [Nat.zero_mul, List.drop_zero, List.flatten_cons, List.append_assoc, ← hd,
        List.take_left]
      exact hdeck d List.mem_cons_self
    | succ k =>
      have hsplit : (k + 1) * T = d.length + k * T := by rw [hd]; ring
      rw [hsplit, ← List.drop_drop, List.flatten_cons, List.append_assoc, List.drop_left]
      exact ih (fun d hd => hT d (List.mem_cons_of_mem _ hd))
        (fun d hd => hdeck d (List.mem_cons_of_mem _ hd)) (Nat.lt_of_succ_lt_succ hk)

/-- **Every whole block of what is dealt is a deck.** -/
theorem Dealt.block (h : Dealt IsDeck deck next out) (hT : ∀ d, IsDeck d → d.length = T)
    {k : Nat} (hk : (k + 1) * T ≤ out.length) :
    IsDeck ((out.drop (k * T)).take T) := by
  obtain ⟨before, hbefore, hout⟩ := h.from_decks
  have hlen : ∀ d ∈ before, d.length = T := fun d hd => hT d (hbefore d hd)
  have hflat : before.flatten.length = before.length * T := by
    rw [List.length_flatten, List.map_congr_left hlen, List.map_const', List.sum_replicate_nat]
  rcases Nat.lt_or_ge k before.length with hlt | hge
  · rw [hout]
    exact block_of_flatten hlen hbefore _ hlt
  · -- the block can only be the present deck, dealt to its end
    have hle : next ≤ T := hT deck h.isDeck ▸ h.le_length
    have hlen_out : out.length = before.length * T + next := by
      rw [hout, List.length_append, hflat, List.length_take_of_le h.le_length]
    have hk' : k * T + T ≤ before.length * T + next := by
      rw [← hlen_out, ← Nat.succ_mul]
      exact hk
    have hle' : before.length * T ≤ k * T := Nat.mul_le_mul_right T hge
    have hnext : next = deck.length := by
      rw [hT deck h.isDeck]
      omega
    have hkb : k * T = before.flatten.length := by omega
    rw [hout, hkb, List.drop_left, hnext, List.take_length, ← hT deck h.isDeck, List.take_length]
    exact h.isDeck

end

end TokuQa.Lib
