import TokuQa.Lib.MysqlLexer

/-!
# Data as literals in `LinkStoreMysql.java`

`stringLiteral` puts the bytes between quotes, read as latin-1 and with the characters that
need it escaped, and falls back on `hexStringLiteral` at the first character that is neither
escaped nor a letter or a digit. Both are read back by the server's lexer as the bytes they
were made from, whatever the statement goes on with, as long as it is not a quote
(`literals_lexed`).
-/

set_option autoImplicit false

namespace TokuQa.LinkBench.Mysql

open TokuQa.Lib

/-! ## The methods -/

/-- `Character.getNumericValue`, on latin-1: digits, letters as digits above nine, the
superscripts, and -2 for the fractions. -/
def getNumericValue (c : Char) : Int :=
  if '0' ≤ c ∧ c ≤ '9' then c.toNat - '0'.toNat
  else if 'a' ≤ c ∧ c ≤ 'z' then c.toNat - 'a'.toNat + 10
  else if 'A' ≤ c ∧ c ≤ 'Z' then c.toNat - 'A'.toNat + 10
  else if c.toNat = 0xb2 then 2
  else if c.toNat = 0xb3 then 3
  else if c.toNat = 0xb9 then 1
  else if 0xbc ≤ c.toNat ∧ c.toNat ≤ 0xbe then -2
  else -1

/-- The `switch` of `stringLiteral`: what is appended for a character, or nothing where the
method falls back on a hex string. -/
def appendChar (c : Char) : Option (List Char) :=
  if c = '\'' then some ['\\', '\'']
  else if c = '\\' then some ['\\', '\\']
  else if c = Char.ofNat 0 then some ['\\', '0']
  else if c = Char.ofNat 8 then some ['\\', 'b']
  else if c = '\n' then some ['\\', 'n']
  else if c = '\r' then some ['\\', 'r']
  else if c = '\t' then some ['\\', 't']
  else if getNumericValue c < 0 then none
  else some [c]

/-- The loop of `stringLiteral`. -/
def appendChars : List Char → Option (List Char)
  | [] => some []
  | c :: cb =>
    match appendChar c with
    | none => none
    | some text => (appendChars cb).map fun sb => text ++ sb

/-- `Character.forDigit(digit, 16)`. -/
def forDigit (digit : Nat) : Char :=
  if digit < 10 then Char.ofNat ('0'.toNat + digit) else Char.ofNat ('a'.toNat + (digit - 10))

def hexStringLiteral (arr : List UInt8) : List Char :=
  ['x', '\''] ++ (arr.flatMap fun b : UInt8 =>
    let lo := b &&& 0xf
    let hi := (b >>> 4) &&& 0xf
    [forDigit hi.toNat, forDigit lo.toNat]) ++ ['\'']

def stringLiteral (arr : List UInt8) : List Char :=
  match appendChars (arr.map decodeLatin1) with
  | some sb => ['\''] ++ sb ++ ['\'']
  | none => hexStringLiteral arr

/-! ## String literals -/

/-- What the `switch` appends: a backslash and a character that stands for `c` behind it, or
`c` itself if it means nothing to the lexer. -/
theorem appendChar_cases {c : Char} {text : List Char} (h : appendChar c = some text) :
    (∃ e, text = ['\\', e] ∧ unescape e = [c]) ∨ (text = [c] ∧ c ≠ '\\' ∧ c ≠ '\'') := by
  unfold appendChar at h
  by_cases hquote : c = '\''
  · subst hquote
    exact Or.inl ⟨'\'', by simpa using h.symm, rfl⟩
  by_cases hback : c = '\\'
  · subst hback
    exact Or.inl ⟨'\\', by simpa using h.symm, rfl⟩
  rw [if_neg hquote, if_neg hback] at h
  by_cases hnul : c = Char.ofNat 0
  · rw [if_pos hnul, Option.some.injEq] at h
    exact Or.inl ⟨'0', h.symm, by rw [hnul]; rfl⟩
  rw [if_neg hnul] at h
  by_cases hbs : c = Char.ofNat 8
  · rw [if_pos hbs, Option.some.injEq] at h
    exact Or.inl ⟨'b', h.symm, by rw [hbs]; rfl⟩
  rw [if_neg hbs] at h
  by_cases hnl : c = '\n'
  · rw [if_pos hnl, Option.some.injEq] at h
    exact Or.inl ⟨'n', h.symm, by rw [hnl]; rfl⟩
  rw [if_neg hnl] at h
  by_cases hcr : c = '\r'
  · rw [if_pos hcr, Option.some.injEq] at h
    exact Or.inl ⟨'r', h.symm, by rw [hcr]; rfl⟩
  rw [if_neg hcr] at h
  by_cases htab : c = '\t'
  · rw [if_pos htab, Option.some.injEq] at h
    exact Or.inl ⟨'t', h.symm, by rw [htab]; rfl⟩
  rw [if_neg htab] at h
  -- the `default` branch
  split at h
  · cases h
  · cases h
    exact Or.inr ⟨rfl, hback, hquote⟩

/-- **One character** is read back by itself, whatever follows. -/
theorem lexString_appendChar {c : Char} {text : List Char} (h : appendChar c = some text)
    (rest : List Char) :
    lexString (text ++ rest) = (lexString rest).map fun r => (c :: r.1, r.2) := by
  rcases appendChar_cases h with ⟨e, rfl, he⟩ | ⟨rfl, hback, hquote⟩
  · have hlex := lexString_escape e rest
    rw [he] at hlex
    exact hlex
  · exact lexString_plain hback hquote rest

/-- The whole body, up to the quote that closes it. -/
theorem lexString_appendChars {cb sb rest : List Char} (h : appendChars cb = some sb)
    (hrest : rest.head? ≠ some '\'') : lexString (sb ++ '\'' :: rest) = some (cb, rest) := by
  induction cb generalizing sb with
  | nil =>
    cases h
    exact lexString_close hrest
  | cons c cb ih =>
    rw [appendChars] at h
    cases htext : appendChar c with
    | none =>
      rw [htext] at h
      cases h
    | some text =>
      rw [htext] at h
      obtain ⟨sb', hsb', rfl⟩ := Option.map_eq_some_iff.mp h
      rw [List.append_assoc, lexString_appendChar htext, ih hsb']
      rfl

/-! ## Hexadecimal literals -/

theorem hexDigit_forDigit : ∀ digit < 16, hexDigit (forDigit digit) = some digit := by
  decide

/-- A byte is its two halves. -/
theorem halves (b : UInt8) :
    ((b >>> 4) &&& 0xf).toNat < 16 ∧ (b &&& 0xf).toNat < 16 ∧
      UInt8.ofNat (16 * ((b >>> 4) &&& 0xf).toNat + (b &&& 0xf).toNat) = b := by
  have hlt := b.toNat_lt
  have hlo : (b &&& 0xf).toNat = b.toNat % 16 := by
    rw [UInt8.toNat_and]
    exact Nat.and_two_pow_sub_one_eq_mod b.toNat 4
  have hhi : ((b >>> 4) &&& 0xf).toNat = b.toNat / 16 := by
    have hshift : (b >>> 4).toNat = b.toNat / 16 := by
      rw [UInt8.toNat_shiftRight]
      exact Nat.shiftRight_eq_div_pow b.toNat 4
    rw [UInt8.toNat_and, hshift]
    have hmask := Nat.and_two_pow_sub_one_eq_mod (b.toNat / 16) 4
    have hmod : b.toNat / 16 % 2 ^ 4 = b.toNat / 16 := Nat.mod_eq_of_lt (by omega)
    exact hmask.trans hmod
  rw [hlo, hhi]
  refine ⟨by omega, by omega, ?_⟩
  rw [Nat.div_add_mod]
  exact UInt8.ofNat_toNat

/-- The digits of a byte array, up to the quote that closes them. -/
theorem lexHex_digits (arr : List UInt8) (rest : List Char) :
    lexHex ((arr.flatMap fun b : UInt8 =>
      [forDigit ((b >>> 4) &&& 0xf).toNat, forDigit (b &&& 0xf).toNat]) ++ '\'' :: rest) =
      some (arr, rest) := by
  induction arr with
  | nil => exact lexHex_close rest
  | cons b arr ih =>
    obtain ⟨hhi, hlo, hbyte⟩ := halves b
    rw [List.flatMap_cons, List.append_assoc, List.cons_append, List.cons_append, List.nil_append,
      lexHex_pair (hexDigit_forDigit _ hhi) (hexDigit_forDigit _ hlo), ih, hbyte]
    rfl

theorem hexStringLiteral_lexed (arr : List UInt8) (rest : List Char) :
    lexLiteral (hexStringLiteral arr ++ rest) = some (arr, rest) := by
  have hdigits := lexHex_digits arr rest
  unfold hexStringLiteral
  rw [List.append_assoc, List.append_assoc, List.cons_append, List.cons_append, List.nil_append,
    lexLiteral]
  · rw [if_pos (Or.inl rfl)]
    exact hdigits
  · exact fun h => absurd h (by decide)

theorem stringLiteral_lexed (arr : List UInt8) {rest : List Char} (h : rest.head? ≠ some '\'') :
    lexLiteral (stringLiteral arr ++ rest) = some (arr, rest) := by
  unfold stringLiteral
  cases hsb : appendChars (arr.map decodeLatin1) with
  | none => exact hexStringLiteral_lexed arr rest
  | some sb =>
    have hbody := lexString_appendChars hsb h
    have hdecode : (arr.map decodeLatin1).map encodeLatin1 = arr := by
      simp [List.map_map, Function.comp_def]
    dsimp only
    rw [List.append_assoc, List.append_assoc, List.cons_append, List.nil_append, lexLiteral,
      List.cons_append, List.nil_append, hbody, Option.map_some, hdecode]

/-- **Both kinds of literal are lossless and closed.** For every byte array, and whatever the
statement goes on with that is not a quote, the lexer reads exactly the text that was produced,
as one literal, and its value is the array. -/
theorem literals_lexed (arr : List UInt8) {rest : List Char} (h : rest.head? ≠ some '\'') :
    lexLiteral (stringLiteral arr ++ rest) = some (arr, rest) ∧
      lexLiteral (hexStringLiteral arr ++ rest) = some (arr, rest) :=
  ⟨stringLiteral_lexed arr h, hexStringLiteral_lexed arr rest⟩

/-- A quote, a backslash, a letter and a line break; the text ends there. -/
theorem literals_lexed_quote :
    lexLiteral (stringLiteral [0x27, 0x5c, 0x61, 0x0a] ++ []) = some ([0x27, 0x5c, 0x61, 0x0a], []) ∧
      lexLiteral (hexStringLiteral [0x27, 0x5c, 0x61, 0x0a] ++ []) =
        some ([0x27, 0x5c, 0x61, 0x0a], []) :=
  literals_lexed [0x27, 0x5c, 0x61, 0x0a] (by decide)

end TokuQa.LinkBench.Mysql
