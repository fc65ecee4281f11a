import TokuQa.Lib.JavaString
import TokuQa.LinkBench.LinkStore

/-!
# Links as text in `LinkStoreHBaseGeneralAtomicityTesting.java`

`linkToBytes` writes a link as seven fields, each followed by a dot. `bytesToLink` splits the
text at the *regex* `"."`, which matches every character of it, line breaks apart, and then
asks for nine pieces. What is left of a text that begins with a number is no piece at all, or
an empty first one, so the reader exits or fails on the first number whatever was written
(`bytesToLink_fails`).

The conversions between strings and bytes belong to the platform (`Bytes` of HBase, the
default charset) and are given.
-/

set_option autoImplicit false

namespace TokuQa.LinkBench.HBase

open TokuQa.Lib

/-- The conversions between strings and bytes. -/
structure Charset where
  /-- `Bytes.toString`. -/
  bytesToString : List UInt8 → List Char
  /-- `Bytes.toBytes`. -/
  toBytes : List Char → List UInt8
  /-- `new String(bytes)`. -/
  newString : List UInt8 → List Char
  /-- `String.getBytes()`. -/
  getBytes : List Char → List UInt8
  /-- An ASCII character in front of a text is read back as it was written. -/
  newString_toBytes : ∀ (c : Char) (s : List Char), c.toNat < 128 →
    (newString (toBytes (c :: s))).head? = some c

/-- How `bytesToLink` ends without a link. -/
inductive Failure where
  /-- `System.exit(1)`, after "wrong link format". -/
  | exit
  | numberFormat
deriving DecidableEq

def linkToBytes (cs : Charset) (a : Link) : List UInt8 :=
  let temp := longToString a.id1 ++ ['.'] ++
    longToString a.linkType ++ ['.'] ++
    longToString a.id2 ++ ['.'] ++
    longToString a.visibility ++ ['.'] ++
    cs.bytesToString a.data ++ ['.'] ++
    longToString a.version ++ ['.'] ++
    longToString a.time ++ ['.']
  cs.toBytes temp

/-- The `parse` method of a number with `w + 1` bits. -/
def parse (w : Nat) (s : List Char) : Except Failure Int :=
  match parseInteger w s with
  | some x => .ok x
  | none => .error .numberFormat

def bytesToLink (cs : Charset) (blink : List UInt8) : Except Failure Link :=
  let slink := cs.newString blink
  match split dot slink with
  | [id1, linkType, id2, visibility, data, version, time, _, _] => do
    let id1 ← parse 63 id1
    let linkType ← parse 63 linkType
    let id2 ← parse 63 id2
    let visibility ← parse 7 visibility
    let version ← parse 31 version
    let time ← parse 63 time
    return ⟨id1, linkType, id2, visibility, cs.getBytes data, version, time⟩
  -- "number of identities in a link must be 9"
  | _ => .error .exit

/-! ## What comes back -/

/-- The text of a link begins with a character that the regex takes for a separator. -/
theorem linkToBytes_first (cs : Charset) (a : Link) :
    ∃ c, dot c = true ∧ (cs.newString (linkToBytes cs a)).head? = some c := by
  obtain ⟨c, s, hid1⟩ := List.exists_cons_of_ne_nil (longToString_ne_nil a.id1)
  have hc : c ∈ longToString a.id1 := by
    rw [hid1]
    exact List.mem_cons_self
  obtain ⟨hdot, hascii⟩ := dot_of_ascii (longToString_ascii a.id1 c hc)
  refine ⟨c, hdot, ?_⟩
  unfold linkToBytes
  rw [hid1]
  exact cs.newString_toBytes c _ hascii

/-- A text that begins with a separator is not read: the first piece is empty. -/
theorem bytesToLink_error {cs : Charset} {blink : List UInt8} {c : Char} (hc : dot c = true)
    (hfirst : (cs.newString blink).head? = some c) :
    bytesToLink cs blink = .error .exit ∨ bytesToLink cs blink = .error .numberFormat := by
  obtain ⟨s, hs⟩ := List.head?_eq_some_iff.mp hfirst
  have hpieces := head?_split s hc
  unfold bytesToLink
  rw [hs]
  dsimp only
  split
  next id1 linkType id2 visibility data version time x y htokens =>
    rw [htokens] at hpieces
    have hempty : id1 = [] := by simpa using hpieces
    subst hempty
    exact Or.inr rfl
  next => exact Or.inl rfl

/-- **No link is read back.** `bytesToLink` fails on everything `linkToBytes` writes. -/
theorem bytesToLink_fails (cs : Charset) (a : Link) :
    ¬ ∃ b, bytesToLink cs (linkToBytes cs a) = .ok b ∧ b = a := by
  obtain ⟨c, hdot, hfirst⟩ := linkToBytes_first cs a
  rintro ⟨b, hb, -⟩
  rcases bytesToLink_error hdot hfirst with h | h
  · rw [h] at hb
    cases hb
  · rw [h] at hb
    cases hb

/-- A charset of one byte a character, which is what all of them are on ASCII text. -/
def latin1 : Charset where
  bytesToString := fun bytes => bytes.map fun b => Char.ofNat b.toNat
  toBytes := fun s => s.map fun c => UInt8.ofNat c.toNat
  newString := fun bytes => bytes.map fun b => Char.ofNat b.toNat
  getBytes := fun s => s.map fun c => UInt8.ofNat c.toNat
  newString_toBytes := by
    intro c s hc
    have hbyte : (UInt8.ofNat c.toNat).toNat = c.toNat :=
      UInt8.toNat_ofNat_of_lt' (by simp only [UInt8.size]; omega)
    rw [List.map_cons, List.map_cons, List.head?_cons, hbyte, Char.ofNat_toNat]

/-- The seven pieces the writer meant are not found: the process exits. -/
theorem plain_link_not_read_back :
    ¬ ∀ a : Link, bytesToLink latin1 (linkToBytes latin1 a) = .ok a := by
  intro h
  have hlink := h ⟨1, 2, 3, 1, [97], 0, 7⟩
  have hexit : bytesToLink latin1 (linkToBytes latin1 ⟨1, 2, 3, 1, [97], 0, 7⟩) =
      .error .exit := by decide
  rw [hexit] at hlink
  cases hlink

end TokuQa.LinkBench.HBase
