import TokuQa.Lib.JavaString

/-!
# MySQL's string and hexadecimal literals

How the server reads a literal at the front of a statement text, with backslash escapes
enabled: `lexLiteral` answers the bytes the literal stands for and the text behind it, or
`none` if there is no complete literal. A quote closes a string unless a second one follows
it, so what a string literal is depends on the character behind it.

Characters are those of latin-1 (`decodeLatin1`, `encodeLatin1`); a string stands for the
codes of its characters.
-/

set_option autoImplicit false

namespace TokuQa.Lib

/-! ## latin-1 -/

def decodeLatin1 (b : UInt8) : Char := Char.ofNat b.toNat

def encodeLatin1 (c : Char) : UInt8 := UInt8.ofNat c.toNat

theorem toNat_decodeLatin1 (b : UInt8) : (decodeLatin1 b).toNat = b.toNat := by
  have hlt := b.toNat_lt
  have hvalid : b.toNat.isValidChar := Or.inl (by omega)
  unfold decodeLatin1 Char.ofNat
  rw [dif_pos hvalid]
  rfl

theorem decodeLatin1_encodeLatin1 {c : Char} (h : c.toNat < 256) :
    decodeLatin1 (encodeLatin1 c) = c := by
  have hsame : (UInt8.ofNat c.toNat).toNat = c.toNat := by
    rw [UInt8.toNat_ofNat']
    exact Nat.mod_eq_of_lt h
  rw [decodeLatin1, encodeLatin1, hsame]
  exact Char.ofNat_toNat c

@[simp] theorem encodeLatin1_decodeLatin1 (b : UInt8) : encodeLatin1 (decodeLatin1 b) = b := by
  unfold encodeLatin1
  rw [toNat_decodeLatin1]
  exact UInt8.ofNat_toNat

/-! ## String literals -/

/-- What a backslash followed by the character stands for. Only `\%` and `\_` keep the
backslash. -/
def unescape (c : Char) : List Char :=
  if c = '0' then [Char.ofNat 0]
  else if c = 'b' then [Char.ofNat 8]
  else if c = 'n' then ['\n']
  else if c = 'r' then ['\r']
  else if c = 't' then ['\t']
  else if c = 'Z' then [Char.ofNat 26]
  else if c = '%' ∨ c = '_' then ['\\', c]
  else [c]

/-- The rest of a string literal, behind the opening quote. -/
def lexString : List Char → Option (List Char × List Char)
  | [] => none
  | '\\' :: [] => none
  | '\\' :: c :: rest => (lexString rest).map fun r => (unescape c ++ r.1, r.2)
  | '\'' :: '\'' :: rest => (lexString rest).map fun r => ('\'' :: r.1, r.2)
  | '\'' :: rest => some ([], rest)
  | c :: rest => (lexString rest).map fun r => (c :: r.1, r.2)

/-! ## Hexadecimal literals -/

def hexDigit (c : Char) : Option Nat :=
  if '0' ≤ c ∧ c ≤ '9' then some (c.toNat - '0'.toNat)
  else if 'a' ≤ c ∧ c ≤ 'f' then some (c.toNat - 'a'.toNat + 10)
  else if 'A' ≤ c ∧ c ≤ 'F' then some (c.toNat - 'A'.toNat + 10)
  else none

/-- The rest of a hexadecimal literal, behind the opening quote: pairs of digits. -/
def lexHex : List Char → Option (List UInt8 × List Char)
  | [] => none
  | '\'' :: rest => some ([], rest)
  | _ :: [] => none
  | hi :: lo :: rest =>
    match hexDigit hi, hexDigit lo with
    | some h, some l => (lexHex rest).map fun r => (UInt8.ofNat (16 * h + l) :: r.1, r.2)
    | _, _ => none

/-- A literal at the front of a text. -/
def lexLiteral : List Char → Option (List UInt8 × List Char)
  | '\'' :: rest => (lexString rest).map fun r => (r.1.map encodeLatin1, r.2)
  | x :: '\'' :: rest => if x = 'x' ∨ x = 'X' then lexHex rest else none
  | _ => none

/-! ## What the lexer reads -/

/-- Two characters that stand for one. -/
theorem lexString_escape (c : Char) (rest : List Char) :
    lexString ('\\' :: c :: rest) = (lexString rest).map fun r => (unescape c ++ r.1, r.2) := by
  rw [lexString]

/-- A character that stands for itself. -/
theorem lexString_plain {c : Char} (hback : c ≠ '\\') (hquote : c ≠ '\'') (rest : List Char) :
    lexString (c :: rest) = (lexString rest).map fun r => (c :: r.1, r.2) := by
  rw [lexString] <;> simp_all

/-- The quote that ends the literal. -/
theorem lexString_close {rest : List Char} (h : rest.head? ≠ some '\'') :
    lexString ('\'' :: rest) = some ([], rest) := by
  cases rest with
  | nil => rfl
  | cons c rest =>
    have hquote : c ≠ '\'' := fun hc => h (by simp [hc])
    rw [lexString]
    simp_all

theorem lexHex_close (rest : List Char) : lexHex ('\'' :: rest) = some ([], rest) := by
  rw [lexHex]

/-- A pair of digits. -/
theorem lexHex_pair {hi lo : Char} {h l : Nat} (hhi : hexDigit hi = some h)
    (hlo : hexDigit lo = some l) (rest : List Char) :
    lexHex (hi :: lo :: rest) =
      (lexHex rest).map fun r => (UInt8.ofNat (16 * h + l) :: r.1, r.2) := by
  have hquote : hi ≠ '\'' := by
    rintro rfl
    cases hhi
  rw [lexHex]
  · rw [hhi, hlo]
  · exact fun he => hquote he

/-! ## What literals are as long as -/

/-- In the last case of `lexString` the character is no backslash. -/
theorem ne_backslash {c : Char} {s : List Char} (hnil : c = '\\' → s = [] → False)
    (hcons : ∀ c' s', c = '\\' → s = c' :: s' → False) : c ≠ '\\' := by
  intro hc
  cases s with
  | nil => exact hnil hc rfl
  | cons c' s => exact hcons c' s hc rfl

theorem length_unescape (c : Char) : (unescape c).length ≤ 2 := by
  unfold unescape
  repeat' split
  all_goals simp

/-- What a string stands for is not longer than the string, without its closing quote. -/
theorem lexString_length {s value rest : List Char} (h : lexString s = some (value, rest)) :
    value.length + rest.length < s.length := by
  induction s using lexString.induct generalizing value rest with
  | case1 => cases h
  | case2 => cases h
  | case3 c s ih =>
    rw [lexString_escape] at h
    obtain ⟨⟨value', rest'⟩, hrest, heq⟩ := Option.map_eq_some_iff.mp h
    cases heq
    have hlength := ih hrest
    have hunescape := length_unescape c
    simp only [List.length_append, List.length_cons]
    omega
  | case4 s ih =>
    rw [lexString] at h
    obtain ⟨⟨value', rest'⟩, hrest, heq⟩ := Option.map_eq_some_iff.mp h
    cases heq
    have hlength := ih hrest
    simp only [List.length_cons]
    omega
  | case5 s hquote =>
    have hhead : s.head? ≠ some '\'' := by
      intro hhead
      obtain ⟨s', rfl⟩ := List.head?_eq_some_iff.mp hhead
      exact hquote s' rfl
    rw [lexString_close hhead] at h
    cases h
    simp
  | case6 c s hnil hcons _ hclose ih =>
    have hback := ne_backslash hnil hcons
    rw [lexString_plain hback hclose] at h
    obtain ⟨⟨value', rest'⟩, hrest, heq⟩ := Option.map_eq_some_iff.mp h
    cases heq
    have hlength := ih hrest
    simp only [List.length_cons]
    omega

theorem lexHex_length {s : List Char} {value : List UInt8} {rest : List Char}
    (h : lexHex s = some (value, rest)) : value.length + rest.length < s.length := by
  induction s using lexHex.induct generalizing value rest with
  | case1 => cases h
  | case2 s =>
    rw [lexHex_close] at h
    cases h
    simp
  | case3 c hquote =>
    rw [lexHex] at h
    · cases h
    · exact hquote
  | case4 hi lo s hquote h₁ l₁ hlo hhi ih =>
    rw [lexHex_pair hhi hlo] at h
    obtain ⟨⟨value', rest'⟩, hrest, heq⟩ := Option.map_eq_some_iff.mp h
    cases heq
    have hlength := ih hrest
    simp only [List.length_cons]
    omega
  | case5 hi lo s hquote hnone =>
    rw [lexHex] at h
    · split at h
      · next h₁ l₁ hhi hlo => exact absurd hlo (hnone h₁ l₁ hhi)
      · cases h
    · exact hquote

/-- **A literal is longer than its value** by two quotes at least. -/
theorem lexLiteral_length {s : List Char} {value : List UInt8} {rest : List Char}
    (h : lexLiteral s = some (value, rest)) : value.length + rest.length + 2 ≤ s.length := by
  unfold lexLiteral at h
  split at h
  · obtain ⟨⟨value', rest'⟩, hrest, heq⟩ := Option.map_eq_some_iff.mp h
    cases heq
    have hlength := lexString_length hrest
    simp only [List.length_map, List.length_cons]
    omega
  · split at h
    · have hlength := lexHex_length h
      simp only [List.length_cons]
      omega
    · cases h
  · cases h

/-! ## Strings that need no escapes -/

/-- No quote, and no backslash but in front of a `%` or `_`. -/
def plain : List Char → Bool
  | [] => true
  | '\\' :: [] => false
  | '\\' :: c :: s => (c = '%' || c = '_') && plain s
  | c :: s => c ≠ '\'' && plain s

theorem unescape_of_wildcard {c : Char} (h : c = '%' ∨ c = '_') : unescape c = ['\\', c] := by
  rcases h with rfl | rfl <;> rfl

theorem length_unescape_of_ne {c : Char} (h : ¬ (c = '%' ∨ c = '_')) :
    (unescape c).length = 1 := by
  unfold unescape
  rw [if_neg h]
  repeat' split
  all_goals rfl

theorem plain_cons {c : Char} (hback : c ≠ '\\') (s : List Char) :
    plain (c :: s) = (decide (c ≠ '\'') && plain s) := by
  rw [plain]
  · rintro rfl
    exact absurd rfl hback
  · rintro _ _ rfl
    exact absurd rfl hback

/-- **A string that needs no escapes** stands for itself between quotes. -/
theorem lexString_of_plain {s : List Char} (h : plain s = true) :
    lexString (s ++ ['\'']) = some (s, []) := by
  induction s using plain.induct with
  | case1 => rfl
  | case2 => cases h
  | case3 c s ih =>
    rw [plain, Bool.and_eq_true] at h
    have hc : c = '%' ∨ c = '_' := by simpa using h.1
    rw [List.cons_append, List.cons_append, lexString_escape, ih h.2, unescape_of_wildcard hc]
    rfl
  | case4 c s hnil hcons ih =>
    have hback := ne_backslash hnil hcons
    rw [plain_cons hback, Bool.and_eq_true, decide_eq_true_eq] at h
    rw [List.cons_append, lexString_plain hback h.1, ih h.2]
    rfl

/-- No other string stands for one of its length: an escape is longer than what it stands for. -/
theorem plain_of_lexString {s value rest : List Char}
    (h : lexString (s ++ ['\'']) = some (value, rest)) (hsame : value.length = s.length) :
    plain s = true := by
  induction s using plain.induct generalizing value with
  | case1 => rfl
  | case2 => cases h
  | case3 c s ih =>
    rw [List.cons_append, List.cons_append, lexString_escape] at h
    obtain ⟨⟨value', rest'⟩, hrest, heq⟩ := Option.map_eq_some_iff.mp h
    cases heq
    have hlength := lexString_length hrest
    simp only [List.length_append, List.length_cons, List.length_nil] at hlength hsame
    by_cases hc : c = '%' ∨ c = '_'
    · rw [unescape_of_wildcard hc, List.length_cons, List.length_singleton] at hsame
      rw [plain, ih hrest (by omega)]
      simpa using hc
    · have hone := length_unescape_of_ne hc
      omega
  | case4 c s hnil hcons ih =>
    have hback := ne_backslash hnil hcons
    rw [plain_cons hback]
    by_cases hquote : c = '\''
    · subst hquote
      -- the quote closes the string, or is half of one
      cases s with
      | nil => cases h
      | cons c' s =>
        by_cases hc' : c' = '\''
        · subst hc'
          rw [List.cons_append, List.cons_append, lexString] at h
          obtain ⟨⟨value', rest'⟩, hrest, heq⟩ := Option.map_eq_some_iff.mp h
          cases heq
          have hlength := lexString_length hrest
          simp only [List.length_append, List.length_cons, List.length_nil] at hlength hsame
          omega
        · rw [List.cons_append, List.cons_append, lexString_close (by simpa using hc')] at h
          cases h
          cases hsame
    · rw [List.cons_append, lexString_plain hback hquote] at h
      obtain ⟨⟨value', rest'⟩, hrest, heq⟩ := Option.map_eq_some_iff.mp h
      cases heq
      rw [decide_eq_true hquote, Bool.true_and]
      exact ih hrest (Nat.succ_injective hsame)

end TokuQa.Lib
