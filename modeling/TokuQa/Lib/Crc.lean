import Mathlib.Data.Nat.Bitwise
import Mathlib.Data.List.Basic
import Mathlib.Logic.Function.Iterate
import TokuQa.Lib.ByteBuffer

/-!
# The shift register of a CRC

A register of `w` bits, the lowest bit for the highest power, is shifted to the right, and the
polynomial comes in when a one is shifted out (`step`). Everything fast about a CRC is that a turn
is linear over exclusive or (`steps_xor`): a byte from a table (`steps_eq_table`), a word from a
table for each of its bytes (`steps_add_eq_table`), and bits that are put in before the turns
instead of between them (`feedBits_eq`).

A turn loses nothing when the constant term of the polynomial is one (`step_injective`). So two
messages that differ in a burst that fits into the register leave different registers
(`feedBits_ne_of_burst`).
-/

set_option autoImplicit false

namespace TokuQa.Lib.Crc

variable {w : Nat}

section

variable (poly : BitVec w)

/-- One turn of the register. -/
def step (c : BitVec w) : BitVec w :=
  if c.getLsbD 0 then poly ^^^ (c >>> 1) else c >>> 1

def steps (n : Nat) (c : BitVec w) : BitVec w := (step poly)^[n] c

/-- A bit, where it comes into the register. -/
def bit (b : Bool) : BitVec w := BitVec.setWidth w (BitVec.ofBool b)

def feed (c : BitVec w) (b : Bool) : BitVec w := step poly (c ^^^ bit b)

def feedBits (c : BitVec w) (bits : List Bool) : BitVec w := bits.foldl (feed poly) c

end

/-- Bits side by side, the first one lowest. -/
def word : List Bool → BitVec w
  | [] => 0#w
  | b :: bits => bit b ^^^ (word bits <<< 1)

/-- The `k` low bits. -/
def low (k : Nat) (c : BitVec w) : BitVec w := BitVec.ofNat w (c.toNat % 2 ^ k)

/-! ## Bits -/

theorem getLsbD_bit (b : Bool) (i : Nat) :
    (bit b : BitVec w).getLsbD i = (decide (i = 0 ∧ 0 < w) && b) := by
  rw [bit, BitVec.getLsbD_setWidth, BitVec.getLsbD_ofBool]
  cases i <;> simp

theorem getLsbD_word (bits : List Bool) (i : Nat) :
    (word bits : BitVec w).getLsbD i = (decide (i < w) && bits[i]?.getD false) := by
  induction bits generalizing i with
  | nil => simp [word]
  | cons b bits ih =>
    rw [word, BitVec.getLsbD_xor, getLsbD_bit, BitVec.getLsbD_shiftLeft, ih]
    cases i with
    | zero => simp
    | succ i =>
      simp only [List.getElem?_cons_succ, Nat.add_sub_cancel]
      by_cases h : i + 1 < w
      · simp [h, show i < w by omega]
      · simp [h]

theorem word_injective {bits bits' : List Bool} (hlength : bits.length = bits'.length)
    (hle : bits.length ≤ w) (h : (word bits : BitVec w) = word bits') : bits = bits' := by
  apply List.ext_getElem hlength
  intro i hi hi'
  have hbit := congrArg (fun c : BitVec w => c.getLsbD i) h
  simp only [getLsbD_word, show i < w by omega, decide_true, Bool.true_and,
    List.getElem?_eq_getElem hi, List.getElem?_eq_getElem hi', Option.getD_some] at hbit
  exact hbit

/-- The highest bit stays free for one more. -/
theorem msb_word {bits : List Bool} (h : bits.length < w) :
    (word bits : BitVec w).msb = false := by
  rw [BitVec.msb_eq_getLsbD_last, getLsbD_word, List.getElem?_eq_none (by omega)]
  simp

theorem getLsbD_low (k : Nat) (c : BitVec w) (i : Nat) :
    (low k c).getLsbD i = (decide (i < k) && c.getLsbD i) := by
  rw [low, BitVec.getLsbD_ofNat, Nat.testBit_mod_two_pow]
  by_cases h : i < w
  · simp [h, BitVec.getLsbD]
  · simp [h, BitVec.getLsbD_of_ge c i (by omega)]

/-- The low bits and the others. -/
theorem low_xor_shift (k : Nat) (c : BitVec w) : low k c ^^^ (c >>> k <<< k) = c := by
  apply BitVec.eq_of_getLsbD_eq
  intro i hi
  rw [BitVec.getLsbD_xor, getLsbD_low, BitVec.getLsbD_shiftLeft, BitVec.getLsbD_ushiftRight]
  by_cases h : i < k
  · simp [h]
  · simp [h, hi, show k + (i - k) = i by omega]

/-! ## A turn is linear -/

section

variable (poly : BitVec w)

theorem step_xor (c d : BitVec w) : step poly (c ^^^ d) = step poly c ^^^ step poly d := by
  simp only [step, BitVec.getLsbD_xor, BitVec.ushiftRight_xor_distrib]
  cases c.getLsbD 0 <;> cases d.getLsbD 0
  · rfl
  · simp only [Bool.false_xor, if_true, Bool.false_eq_true, if_false]
    ac_rfl
  · simp only [Bool.xor_false, if_true, Bool.false_eq_true, if_false]
    ac_rfl
  · have hcancel : poly ^^^ c >>> 1 ^^^ (poly ^^^ d >>> 1) =
        poly ^^^ poly ^^^ (c >>> 1 ^^^ d >>> 1) := by
      ac_rfl
    simp only [Bool.xor_true, Bool.not_true, Bool.false_eq_true, if_false, if_true, hcancel,
      BitVec.xor_self, BitVec.zero_xor]

@[simp] theorem steps_zero (c : BitVec w) : steps poly 0 c = c := rfl

theorem steps_succ (n : Nat) (c : BitVec w) : steps poly (n + 1) c = steps poly n (step poly c) :=
  rfl

theorem steps_add (m n : Nat) (c : BitVec w) :
    steps poly (m + n) c = steps poly n (steps poly m c) := by
  rw [steps, Nat.add_comm, Function.iterate_add_apply]
  rfl

theorem steps_xor (n : Nat) (c d : BitVec w) :
    steps poly n (c ^^^ d) = steps poly n c ^^^ steps poly n d := by
  induction n generalizing c d with
  | zero => rfl
  | succ n ih => rw [steps_succ, step_xor, ih, ← steps_succ, ← steps_succ]

/-- What comes out of the register at once went in as it is. -/
theorem step_shiftLeft {c : BitVec w} (h : c.msb = false) : step poly (c <<< 1) = c := by
  have hlow : (c <<< 1).getLsbD 0 = false := by simp
  rw [step, hlow, if_neg (by simp)]
  apply BitVec.eq_of_getLsbD_eq
  intro i hi
  rw [BitVec.getLsbD_ushiftRight, BitVec.getLsbD_shiftLeft]
  by_cases hlast : 1 + i < w
  · simp [hlast]
  · obtain rfl : i = w - 1 := by omega
    rw [← BitVec.msb_eq_getLsbD_last, h]
    simp [hlast]

theorem steps_shiftLeft (k : Nat) {c : BitVec w} (h : ∀ i, w ≤ i + k → c.getLsbD i = false) :
    steps poly k (c <<< k) = c := by
  induction k generalizing c with
  | zero => rw [steps_zero, BitVec.shiftLeft_zero]
  | succ k ih =>
    have hmsb : (c <<< k).msb = false := by
      rw [BitVec.msb_eq_getLsbD_last, BitVec.getLsbD_shiftLeft]
      by_cases hk : w - 1 < k
      · simp [hk]
      · rw [h (w - 1 - k) (by omega), Bool.and_false]
    rw [BitVec.shiftLeft_add, steps_succ, step_shiftLeft poly hmsb]
    exact ih fun i hi => h i (by omega)

/-- **Several turns from a table**: the entry of the low bits, and the others moved down. -/
theorem steps_eq_table (k : Nat) (c : BitVec w) :
    steps poly k c = steps poly k (low k c) ^^^ (c >>> k) := by
  have hhigh : steps poly k (c >>> k <<< k) = c >>> k := by
    apply steps_shiftLeft
    intro i hi
    rw [BitVec.getLsbD_ushiftRight, BitVec.getLsbD_of_ge c _ (by omega)]
  calc steps poly k c = steps poly k (low k c ^^^ (c >>> k <<< k)) := by rw [low_xor_shift]
    _ = steps poly k (low k c) ^^^ (c >>> k) := by rw [steps_xor, hhigh]

/-- **More turns from more tables**: the entry of the low bits in the table for all turns, and
the other turns of the other bits. -/
theorem steps_add_eq_table (k n : Nat) (c : BitVec w) :
    steps poly (k + n) c = steps poly (k + n) (low k c) ^^^ steps poly n (c >>> k) := by
  rw [steps_add, steps_eq_table poly k, steps_xor, ← steps_add]

/-! ## Bits that come in -/

@[simp] theorem feedBits_nil (c : BitVec w) : feedBits poly c [] = c := rfl

@[simp] theorem feedBits_cons (c : BitVec w) (b : Bool) (bits : List Bool) :
    feedBits poly c (b :: bits) = feedBits poly (feed poly c b) bits := rfl

theorem feedBits_append (c : BitVec w) (bits bits' : List Bool) :
    feedBits poly c (bits ++ bits') = feedBits poly (feedBits poly c bits) bits' :=
  List.foldl_append

/-- **Bits that fit into the register can be put in before its turns.** -/
theorem feedBits_eq (c : BitVec w) {bits : List Bool} (h : bits.length ≤ w) :
    feedBits poly c bits = steps poly bits.length (c ^^^ word bits) := by
  induction bits generalizing c with
  | nil => simp [word]
  | cons b bits ih =>
    rw [List.length_cons] at h
    rw [feedBits_cons, ih _ (by omega), feed, List.length_cons, steps_succ, word,
      ← BitVec.xor_assoc, step_xor poly (c ^^^ bit b), step_shiftLeft poly (msb_word h)]

/-! ## Nothing is lost -/

variable {poly}

theorem step_injective (hpoly : poly.msb = true) : Function.Injective (step poly) := by
  intro c d h
  have hmsb (c : BitVec w) : (step poly c).msb = c.getLsbD 0 := by
    have hw : 0 < w := by
      by_contra hw
      obtain rfl : w = 0 := by omega
      rw [BitVec.msb_eq_getLsbD_last, BitVec.getLsbD_of_ge poly _ (by omega)] at hpoly
      cases hpoly
    have hshift : (c >>> 1).msb = false := by
      rw [BitVec.msb_eq_getLsbD_last, BitVec.getLsbD_ushiftRight,
        BitVec.getLsbD_of_ge c _ (by omega)]
    rw [step]
    split
    · next hlow => rw [BitVec.msb_xor, hpoly, hshift, hlow, Bool.xor_false]
    · next hlow => rw [hshift, Bool.eq_false_iff.mpr hlow]
  have hlow : c.getLsbD 0 = d.getLsbD 0 := by rw [← hmsb, ← hmsb, h]
  have hshift : c >>> 1 = d >>> 1 := by
    rw [step, step, hlow] at h
    split at h
    · exact BitVec.xor_right_inj poly |>.mp h
    · exact h
  apply BitVec.eq_of_getLsbD_eq
  rintro (_ | i) hi
  · exact hlow
  · have hbit := congrArg (fun c : BitVec w => c.getLsbD i) hshift
    simpa [BitVec.getLsbD_ushiftRight, Nat.add_comm] using hbit

theorem steps_injective (hpoly : poly.msb = true) (n : Nat) :
    Function.Injective (steps poly n) :=
  (step_injective hpoly).iterate n

theorem feedBits_injective (hpoly : poly.msb = true) (bits : List Bool) :
    Function.Injective fun c => feedBits poly c bits := by
  induction bits with
  | nil => exact fun c d h => h
  | cons b bits ih =>
    intro c d h
    have hfeed := ih h
    exact BitVec.xor_left_inj _ |>.mp (step_injective hpoly hfeed)

/-- **A burst that fits into the register leaves another one.** -/
theorem feedBits_ne_of_burst (hpoly : poly.msb = true) (c : BitVec w)
    {before burst burst' after : List Bool} (hlength : burst.length = burst'.length)
    (hle : burst.length ≤ w) (hne : burst ≠ burst') :
    feedBits poly c (before ++ burst ++ after) ≠ feedBits poly c (before ++ burst' ++ after) := by
  intro h
  simp only [feedBits_append] at h
  have hmiddle := feedBits_injective hpoly after h
  have hle' : burst'.length ≤ w := hlength ▸ hle
  rw [feedBits_eq poly (feedBits poly c before) hle,
    feedBits_eq poly (feedBits poly c before) hle', ← hlength] at hmiddle
  have hword := BitVec.xor_right_inj _ |>.mp (steps_injective hpoly _ hmiddle)
  exact hne (word_injective hlength hle hword)

end

/-! ## Bytes -/

/-- The bits of a byte, the lowest first. -/
def byteBits (b : UInt8) : List Bool := (List.range 8).map b.toBitVec.getLsbD

def bytesBits (bytes : List UInt8) : List Bool := bytes.flatMap byteBits

/-- A byte that comes in, all its bits at once. -/
def byte (poly c : BitVec w) (b : UInt8) : BitVec w := steps poly 8 (c ^^^ b.toBitVec.setWidth w)

@[simp] theorem length_byteBits (b : UInt8) : (byteBits b).length = 8 := by
  rw [byteBits, List.length_map, List.length_range]

@[simp] theorem bytesBits_nil : bytesBits [] = [] := rfl

@[simp] theorem bytesBits_cons (b : UInt8) (bytes : List UInt8) :
    bytesBits (b :: bytes) = byteBits b ++ bytesBits bytes := List.flatMap_cons

theorem bytesBits_append (bytes bytes' : List UInt8) :
    bytesBits (bytes ++ bytes') = bytesBits bytes ++ bytesBits bytes' := List.flatMap_append

theorem length_bytesBits (bytes : List UInt8) : (bytesBits bytes).length = 8 * bytes.length := by
  induction bytes with
  | nil => rfl
  | cons b bytes ih =>
    rw [bytesBits_cons, List.length_append, length_byteBits, ih, List.length_cons]
    omega

theorem getElem?_byteBits (b : UInt8) (i : Nat) :
    (byteBits b)[i]?.getD false = b.toBitVec.getLsbD i := by
  by_cases h : i < 8
  · simp [byteBits, h]
  · rw [List.getElem?_eq_none (by rw [length_byteBits]; omega),
      BitVec.getLsbD_of_ge _ _ (by omega), Option.getD_none]

theorem word_byteBits (b : UInt8) : (word (byteBits b) : BitVec w) = b.toBitVec.setWidth w := by
  apply BitVec.eq_of_getLsbD_eq
  intro i hi
  rw [getLsbD_word, getElem?_byteBits, BitVec.getLsbD_setWidth]

theorem byteBits_injective : Function.Injective byteBits := by
  intro b b' h
  have hword := congrArg (word (w := 8)) h
  rw [word_byteBits, word_byteBits, BitVec.setWidth_eq, BitVec.setWidth_eq] at hword
  exact UInt8.toBitVec_inj.mp hword

theorem feedBits_byteBits (poly c : BitVec w) (hw : 8 ≤ w) (b : UInt8) :
    feedBits poly c (byteBits b) = byte poly c b := by
  rw [feedBits_eq poly c (by rw [length_byteBits]; exact hw), length_byteBits, word_byteBits, byte]

/-- **The bytes one after the other** are their bits one after the other. -/
theorem feedBits_bytesBits (poly c : BitVec w) (hw : 8 ≤ w) (bytes : List UInt8) :
    feedBits poly c (bytesBits bytes) = bytes.foldl (byte poly) c := by
  induction bytes generalizing c with
  | nil => rfl
  | cons b bytes ih =>
    rw [bytesBits_cons, feedBits_append, feedBits_byteBits poly c hw, ih, List.foldl_cons]

/-- A word of bytes, the first one lowest. -/
theorem word_bytesBits (bytes : List UInt8) :
    (word (bytesBits bytes) : BitVec w) = BitVec.ofInt w (unsigned bytes.reverse) := by
  suffices h : ∃ n : Nat, unsigned bytes.reverse = n ∧
      ∀ i, (bytesBits bytes)[i]?.getD false = n.testBit i by
    obtain ⟨n, hn, hbits⟩ := h
    apply BitVec.eq_of_getLsbD_eq
    intro i hi
    rw [getLsbD_word, hbits, hn, BitVec.ofInt_natCast, BitVec.getLsbD_ofNat]
  induction bytes with
  | nil => exact ⟨0, rfl, fun i => by simp⟩
  | cons b bytes ih =>
    obtain ⟨n, hn, hbits⟩ := ih
    refine ⟨2 ^ 8 * n + b.toNat, ?_, ?_⟩
    · rw [List.reverse_cons, unsigned_append_singleton, hn]
      push_cast
      rfl
    · intro i
      rw [bytesBits_cons, Nat.testBit_two_pow_mul_add _ b.toNat_lt]
      split
      · next hi =>
        rw [List.getElem?_append_left (by rw [length_byteBits]; exact hi), getElem?_byteBits]
        rfl
      · next hi =>
        rw [List.getElem?_append_right (by rw [length_byteBits]; omega), length_byteBits, hbits]

end TokuQa.Lib.Crc
