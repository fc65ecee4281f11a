import Mathlib.Data.Int.ModEq
import Mathlib.Data.List.Induction
import Mathlib.Tactic.Ring
import TokuQa.Lib.JavaInt

/-!
# Big-endian integers in byte arrays

`bigEndian w x` is the low `w` bytes of an integer in two's complement, most significant first;
`unsigned` reads bytes back as a natural number. One law relates them
(`unsigned_bigEndian`), and a second one says how a wide integer is cut into two narrow ones
(`bigEndian_add`).

`ByteBuffer` is the part of `java.nio.ByteBuffer` that packs and unpacks numbers with them: a
position and a limit over a backing array. `wrap` gives a window onto an array; `array` is the
backing array, whatever the window.
-/

set_option autoImplicit false

namespace TokuQa.Lib

/-! ## Integers as bytes -/

/-- The low `w` bytes of an integer, most significant first. -/
def bigEndian : Nat → Int → List UInt8
  | 0, _ => []
  | w + 1, x => bigEndian w (x / 256) ++ [UInt8.ofNat (x % 256).toNat]

/-- The number with the given digits in base 256. -/
def unsigned (bytes : List UInt8) : Int := bytes.foldl (fun x b => 256 * x + b.toNat) 0

@[simp] theorem length_bigEndian (w : Nat) (x : Int) : (bigEndian w x).length = w := by
  induction w generalizing x with
  | zero => rfl
  | succ w ih => rw [bigEndian, List.length_append, ih, List.length_singleton]

@[simp] theorem unsigned_nil : unsigned [] = 0 := rfl

theorem unsigned_append_singleton (bytes : List UInt8) (b : UInt8) :
    unsigned (bytes ++ [b]) = 256 * unsigned bytes + b.toNat := by
  unfold unsigned
  rw [List.foldl_append]
  rfl

/-- A remainder modulo 256 is a byte. -/
theorem toNat_lowByte (x : Int) : ((UInt8.ofNat (x % 256).toNat).toNat : Int) = x % 256 := by
  have hlow := Int.emod_nonneg x (b := 256) (by decide)
  have hhigh := Int.emod_lt_of_pos x (b := 256) (by decide)
  rw [UInt8.toNat_ofNat_of_lt' (by simp only [UInt8.size]; omega), Int.toNat_of_nonneg hlow]

/-- **The round trip**, for what fits into the bytes. -/
theorem unsigned_bigEndian (w : Nat) (x : Int) : unsigned (bigEndian w x) = x % 256 ^ w := by
  induction w generalizing x with
  | zero => simp [bigEndian]
  | succ w ih =>
    have hdiv : x / (256 * 256 ^ w) = x / 256 / 256 ^ w :=
      (Int.ediv_ediv_of_nonneg (by decide)).symm
    rw [bigEndian, unsigned_append_singleton, ih, toNat_lowByte, pow_succ', Int.emod_def,
      Int.emod_def x 256, Int.emod_def x (256 * 256 ^ w), hdiv]
    ring

/-- A wide integer is its high bytes in front of its low ones. -/
theorem bigEndian_add (v w : Nat) (x : Int) :
    bigEndian (v + w) x = bigEndian v (x / 256 ^ w) ++ bigEndian w x := by
  induction w generalizing x with
  | zero => simp [bigEndian]
  | succ w ih =>
    have hdiv : x / 256 ^ (w + 1) = x / 256 / 256 ^ w := by
      rw [pow_succ', Int.ediv_ediv_of_nonneg (by decide)]
    rw [← Nat.add_assoc, bigEndian, ih, hdiv, bigEndian, List.append_assoc]

/-- The low `w` bytes of an integer, least significant first. -/
def littleEndian (w : Nat) (x : Int) : List UInt8 := (bigEndian w x).reverse

@[simp] theorem length_littleEndian (w : Nat) (x : Int) : (littleEndian w x).length = w := by
  rw [littleEndian, List.length_reverse, length_bigEndian]

theorem unsigned_reverse_littleEndian (w : Nat) (x : Int) :
    unsigned (littleEndian w x).reverse = x % 256 ^ w := by
  rw [littleEndian, List.reverse_reverse, unsigned_bigEndian]

/-- Bytes are the digits of their number. -/
theorem bigEndian_unsigned (bytes : List UInt8) :
    bigEndian bytes.length (unsigned bytes) = bytes := by
  induction bytes using List.reverseRecOn with
  | nil => rfl
  | append_singleton bytes b ih =>
    have hlt : (b.toNat : Int) < 256 := by exact_mod_cast b.toNat_lt
    have hdiv : (256 * unsigned bytes + b.toNat) / 256 = unsigned bytes := by omega
    have hmod : ((256 * unsigned bytes + b.toNat) % 256).toNat = b.toNat := by omega
    rw [List.length_append, List.length_singleton, bigEndian, unsigned_append_singleton, hdiv, hmod,
      ih, UInt8.ofNat_toNat]

theorem littleEndian_unsigned_reverse (bytes : List UInt8) :
    littleEndian bytes.length (unsigned bytes.reverse) = bytes := by
  rw [littleEndian, ← List.length_reverse, bigEndian_unsigned, List.reverse_reverse]

/-! ## `java.nio.ByteBuffer` -/

structure ByteBuffer where
  array : List UInt8
  position : Nat
  limit : Nat

namespace ByteBuffer

def allocate (capacity : Nat) : ByteBuffer := ⟨List.replicate capacity 0, 0, capacity⟩

/-- The window `[offset, offset + length)` of an array, which has to lie inside it. -/
def wrap (array : List UInt8) (offset length : Nat) : Option ByteBuffer :=
  if offset + length ≤ array.length then some ⟨array, offset, offset + length⟩ else none

/-- A relative put of `w` bytes; `none` is a `BufferOverflowException`. -/
def put (w : Nat) (x : Int) (b : ByteBuffer) : Option ByteBuffer :=
  if b.position + w ≤ b.limit then
    some { b with
      array := b.array.take b.position ++ bigEndian w x ++ b.array.drop (b.position + w)
      position := b.position + w }
  else none

def putInt : Int → ByteBuffer → Option ByteBuffer := put 4

def putLong : Int → ByteBuffer → Option ByteBuffer := put 8

/-- A relative `getInt`; `none` is a `BufferUnderflowException`. -/
def getInt (b : ByteBuffer) : Option Int :=
  if b.position + 4 ≤ b.limit then
    some (wrap32 (unsigned ((b.array.drop b.position).take 4)))
  else none

/-- What a put leaves in a fresh buffer: the bytes, then what was not written. -/
theorem put_allocate {capacity w : Nat} (h : w ≤ capacity) (x : Int) :
    ((allocate capacity).put w x).map array =
      some (bigEndian w x ++ List.replicate (capacity - w) 0) := by
  have hfits : 0 + w ≤ capacity := by omega
  unfold put allocate
  rw [if_pos hfits]
  simp

/-- `getInt` at an offset reads the four bytes there. -/
theorem getInt_wrap {array : List UInt8} (before bytes after : List UInt8) {offset length : Nat}
    (harray : array = before ++ bytes ++ after) (hbefore : before.length = offset)
    (hbytes : bytes.length = 4) (hlength : 4 ≤ length)
    (hfits : offset + length ≤ array.length) :
    (wrap array offset length).bind getInt = some (wrap32 (unsigned bytes)) := by
  have hread : (array.drop offset).take 4 = bytes := by
    rw [harray, List.append_assoc, ← hbefore, List.drop_left, ← hbytes, List.take_left]
  unfold wrap
  rw [if_pos hfits, Option.bind_some]
  unfold getInt
  rw [if_pos (by dsimp only; omega)]
  dsimp only
  rw [hread]

end ByteBuffer

end TokuQa.Lib
