import Mathlib.Algebra.Order.Ring.Int
import Mathlib.Data.List.DropRight

/-!
# Numbers as text, and `String.split`

Strings are lists of characters. `longToString` is `Long.toString` (and `Integer.toString`,
`Byte.toString`), `parseInteger` the `parse` methods of the three classes: a sign, decimal
digits, and a range of its own for each. `split` is `String.split(regex)` for a regex that
matches one character: the pieces between the matches, without the empty ones at the end; a
text with no match is its own only piece.

`dot` is the regex `"."`. It matches any character but a line terminator.
-/

set_option autoImplicit false

namespace TokuQa.Lib

/-! ## Numbers -/

def longToString (x : Int) : List Char := (toString x).toList

/-- The value of decimal digits, at least one. -/
def digitsValue (s : List Char) : Option Int :=
  if s = [] then none
  else s.foldl (fun value c => value.bind fun v =>
    if c.isDigit then some (10 * v + (c.toNat - '0'.toNat : Nat)) else none) (some 0)

/-- The value of decimal digits with a sign or without. -/
def signedValue (s : List Char) : Option Int :=
  match s with
  | '-' :: digits => (digitsValue digits).map fun v => -v
  | '+' :: digits => digitsValue digits
  | digits => digitsValue digits

/-- `parseLong`, `parseInt`, `parseByte` for `w` = 63, 31, 7; `none` is a
`NumberFormatException`. -/
def parseInteger (w : Nat) (s : List Char) : Option Int := do
  let x ← match s with
    | '-' :: digits => (digitsValue digits).map fun v => -v
    | '+' :: digits => digitsValue digits
    | digits => digitsValue digits
  if -2 ^ w ≤ x ∧ x < 2 ^ w then some x else none

@[simp] theorem parseInteger_nil (w : Nat) : parseInteger w [] = none := rfl

/-- The value of digits is what Lean makes of them. -/
theorem digitsValue_of_isDigit {s : List Char} (hs : s ≠ []) (hall : ∀ c ∈ s, c.isDigit = true) :
    digitsValue s = some ((Nat.ofDigitChars 10 s 0 : Nat) : Int) := by
  have hfold : ∀ (s : List Char) (v : Nat), (∀ c ∈ s, c.isDigit = true) →
      s.foldl (fun value c => value.bind fun v => if c.isDigit then
        some (10 * v + (c.toNat - '0'.toNat : Nat)) else none) (some (v : Int)) =
      some ((Nat.ofDigitChars 10 s v : Nat) : Int) := by
    intro s
    induction s with
    | nil => intro v _; simp
    | cons c s ih =>
      intro v hall
      have hc := hall c (by simp)
      have hrest := ih (10 * v + (c.toNat - '0'.toNat)) fun d hd => hall d (by simp [hd])
      rw [List.foldl_cons, Option.bind_some, if_pos hc, Nat.ofDigitChars_cons, ← hrest]
      push_cast
      rfl
  rw [digitsValue, if_neg hs]
  exact hfold s 0 hall

theorem digitsValue_toDigits (n : Nat) : digitsValue (Nat.toDigits 10 n) = some (n : Int) := by
  rw [digitsValue_of_isDigit Nat.toDigits_ne_nil fun c hc =>
    Nat.isDigit_of_mem_toDigits (by decide) (by decide) hc, Nat.ofDigitChars_ten_toDigits]

theorem foldl_none (s : List Char) :
    s.foldl (fun value c => value.bind fun v => if c.isDigit then
      some (10 * v + (c.toNat - '0'.toNat : Nat)) else none) (none : Option Int) = none := by
  induction s with
  | nil => rfl
  | cons c s ih => exact ih

/-- Only digits have a value. -/
theorem isDigit_of_digitsValue {s : List Char} {x : Int} (h : digitsValue s = some x) :
    s ≠ [] ∧ ∀ c ∈ s, c.isDigit = true := by
  have hne : s ≠ [] := by
    rintro rfl
    cases h
  refine ⟨hne, ?_⟩
  rw [digitsValue, if_neg hne] at h
  have hfold : ∀ (s : List Char) (v : Int), s.foldl (fun value c => value.bind fun v =>
      if c.isDigit then some (10 * v + (c.toNat - '0'.toNat : Nat)) else none) (some v) = some x →
      ∀ c ∈ s, c.isDigit = true := by
    intro s
    induction s with
    | nil => simp
    | cons c s ih =>
      intro v h
      rw [List.foldl_cons, Option.bind_some] at h
      by_cases hc : c.isDigit = true
      · rw [if_pos hc] at h
        rintro d (_ | ⟨_, hd⟩)
        · exact hc
        · exact ih _ h d hd
      · rw [if_neg hc, foldl_none] at h
        cases h
  exact hfold s 0 h

theorem ofDigitChars_lt {s : List Char} (hall : ∀ c ∈ s, c.isDigit = true) (v : Nat) :
    Nat.ofDigitChars 10 s v < 10 ^ s.length * (v + 1) := by
  induction s generalizing v with
  | nil => simp
  | cons c s ih =>
    have hc : c.toNat - '0'.toNat < 10 := by
      have hdigit := hall c (by simp)
      rw [Char.isDigit, Bool.and_eq_true, decide_eq_true_eq, decide_eq_true_eq] at hdigit
      have hhigh : c.toNat ≤ 57 := hdigit.2
      have hzero : '0'.toNat = 48 := rfl
      omega
    rw [Nat.ofDigitChars_cons, List.length_cons, Nat.pow_succ, Nat.mul_assoc]
    refine lt_of_lt_of_le (ih (fun d hd => hall d (by simp [hd])) _) (Nat.mul_le_mul_left _ ?_)
    omega

/-- **A number has no shorter digits** than the ones it is written with. -/
theorem length_toDigits_le {s : List Char} {x : Int} (h : digitsValue s = some x) :
    ∃ n : Nat, x = n ∧ (Nat.toDigits 10 n).length ≤ s.length := by
  obtain ⟨hne, hall⟩ := isDigit_of_digitsValue h
  rw [digitsValue_of_isDigit hne hall] at h
  cases h
  refine ⟨_, rfl, (Nat.length_toDigits_le_iff (by decide) (List.length_pos_iff.mpr hne)).mpr ?_⟩
  simpa using ofDigitChars_lt hall 0

theorem longToString_natCast (n : Nat) : longToString n = Nat.toDigits 10 n := by
  have hrepr : (Int.repr (Int.ofNat n)).toList = Nat.toDigits 10 n := Nat.toList_repr
  unfold longToString
  rw [Int.toString_eq_repr]
  exact hrepr

theorem longToString_negSucc (n : Nat) :
    longToString (Int.negSucc n) = '-' :: Nat.toDigits 10 (n + 1) := by
  have hrepr : (n.succ.repr).toList = Nat.toDigits 10 (n + 1) := Nat.toList_repr
  unfold longToString
  rw [Int.toString_eq_repr, ← hrepr]
  simp [Int.repr]

/-- A number is digits, with a minus sign in front of them or not. -/
theorem longToString_ascii (x : Int) : ∀ c ∈ longToString x, c = '-' ∨ c.isDigit = true := by
  intro c hc
  cases x with
  | ofNat n =>
    rw [Int.ofNat_eq_natCast, longToString_natCast] at hc
    exact .inr (Nat.isDigit_of_mem_toDigits (by decide) (by decide) hc)
  | negSucc n =>
    rw [longToString_negSucc, List.mem_cons] at hc
    exact hc.imp_right fun hc => Nat.isDigit_of_mem_toDigits (by decide) (by decide) hc

theorem longToString_ne_nil (x : Int) : longToString x ≠ [] := by
  cases x with
  | ofNat n =>
    rw [Int.ofNat_eq_natCast, longToString_natCast]
    exact Nat.toDigits_ne_nil
  | negSucc n =>
    rw [longToString_negSucc]
    exact List.cons_ne_nil _ _

theorem signedValue_toDigits (n : Nat) : signedValue (Nat.toDigits 10 n) = some (n : Int) := by
  have hdigit : ∀ c ∈ Nat.toDigits 10 n, c.isDigit = true :=
    fun c hc => Nat.isDigit_of_mem_toDigits (by decide) (by decide) hc
  unfold signedValue
  split
  · next h => exact absurd (hdigit '-' (by rw [h]; simp)) (by decide)
  · next h => exact absurd (hdigit '+' (by rw [h]; simp)) (by decide)
  · exact digitsValue_toDigits n

/-- A number is read back. -/
theorem signedValue_longToString (x : Int) : signedValue (longToString x) = some x := by
  cases x with
  | ofNat n =>
    rw [Int.ofNat_eq_natCast, longToString_natCast]
    exact signedValue_toDigits n
  | negSucc n =>
    rw [longToString_negSucc, signedValue, digitsValue_toDigits]
    rfl

/-- **There is no shorter text** for a number than `toString` of it. -/
theorem length_longToString_le {s : List Char} {x : Int} (h : signedValue s = some x) :
    (longToString x).length ≤ s.length := by
  have hpositive : ∀ {s : List Char} {x : Int}, digitsValue s = some x →
      (longToString x).length ≤ s.length := by
    intro s x h
    obtain ⟨n, rfl, hlength⟩ := length_toDigits_le h
    rwa [longToString_natCast]
  unfold signedValue at h
  split at h
  · next digits =>
    obtain ⟨v, hv, rfl⟩ := Option.map_eq_some_iff.mp h
    obtain ⟨n, rfl, hlength⟩ := length_toDigits_le hv
    cases n with
    | zero => exact le_trans (hpositive hv) (Nat.le_succ _)
    | succ n =>
      rw [show (-((n + 1 : Nat) : Int)) = Int.negSucc n from rfl, longToString_negSucc]
      exact Nat.succ_le_succ hlength
  · exact le_trans (hpositive h) (Nat.le_succ _)
  · exact hpositive h

/-! ## Splitting -/

section

variable {α : Type} (isSep : α → Bool)

/-- `split(regex)`. -/
def split (s : List α) : List (List α) :=
  if s.any isSep then (s.splitOnP isSep).rdropWhile List.isEmpty else [s]

variable {isSep}

/-- **A match in front** leaves an empty piece in front, unless nothing is left at all. -/
theorem head?_split {c : α} (s : List α) (h : isSep c = true) :
    (split isSep (c :: s)).head? = none ∨ (split isSep (c :: s)).head? = some [] := by
  have hpieces : (c :: s).splitOnP isSep = [] :: s.splitOnP isSep :=
    List.splitOnP_append_cons_of_forall_mem (fun x hx => absurd hx (List.not_mem_nil (a := x))) c h s
  have hprefix := List.rdropWhile_prefix (p := List.isEmpty) (l := (c :: s).splitOnP isSep)
  unfold split
  rw [if_pos (by simp [h])]
  rw [hpieces] at hprefix ⊢
  cases hrest : ([] :: s.splitOnP isSep).rdropWhile List.isEmpty with
  | nil => exact Or.inl rfl
  | cons piece pieces =>
    rw [hrest, List.cons_prefix_cons] at hprefix
    exact Or.inr (congrArg some hprefix.1)

end

/-- The regex `"."`. -/
def dot (c : Char) : Bool :=
  c ≠ '\n' && c ≠ '\r' && c.toNat ≠ 0x85 && c.toNat ≠ 0x2028 && c.toNat ≠ 0x2029

theorem dot_of_ascii {c : Char} (h : c = '-' ∨ c.isDigit = true) :
    dot c = true ∧ c.toNat < 128 := by
  have hrange : 45 ≤ c.toNat ∧ c.toNat ≤ 57 := by
    rcases h with rfl | h
    · decide
    · unfold Char.isDigit at h
      rw [Bool.and_eq_true, decide_eq_true_eq, decide_eq_true_eq] at h
      have hlow : 48 ≤ c.toNat := h.1
      have hhigh : c.toNat ≤ 57 := h.2
      omega
  have hnl : c ≠ '\n' := by
    rintro rfl
    exact absurd hrange (by decide)
  have hcr : c ≠ '\r' := by
    rintro rfl
    exact absurd hrange (by decide)
  refine ⟨?_, by omega⟩
  unfold dot
  simp only [Bool.and_eq_true, decide_eq_true_eq]
  exact ⟨⟨⟨⟨hnl, hcr⟩, by omega⟩, by omega⟩, by omega⟩

end TokuQa.Lib
