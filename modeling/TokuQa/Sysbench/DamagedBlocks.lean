import TokuQa.Lib.CrcPolynomial
import TokuQa.Sysbench.Crc32
import TokuQa.Sysbench.Validate

/-!
# What the validation of the fileio test finds

`crc32` is a cyclic redundancy check in the sense of the comment above `make_crc_table`
(`crc32_eq_remainder`): the remainder of the buffer as a polynomial. The register goes on through
the checksum that is stored behind the data and has to end with the same word each time. So a
block in which one burst of at most 32 bits changed is not valid, wherever the burst is
(`fileValidateBuffer_damaged`); in the offset, it is the other comparison that finds it.
-/

set_option autoImplicit false

namespace TokuQa.Sysbench.Crc32

open Polynomial TokuQa.Lib

/-! ## The remainder -/

/-- The polynomial in the comment. -/
theorem generator_poly : Crc.generator poly =
    X ^ 32 + X ^ 26 + X ^ 23 + X ^ 22 + X ^ 16 + X ^ 12 + X ^ 11 + X ^ 10 + X ^ 8 + X ^ 7 + X ^ 5 +
      X ^ 4 + X ^ 2 + X + 1 := by
  have hpoly : poly = 0xedb88320#32 := by decide
  rw [Crc.generator, Crc.toPoly, hpoly]
  simp [Finset.sum_range_succ]
  ring

/-- **The checksum is a remainder** by the polynomial: of the buffer behind what the register
began with. -/
theorem crc32_eq_remainder (machine : Machine) (crc : BitVec 32) (addr : Nat) (buf : List UInt8)
    (haddr : addr ≠ 0) :
    ∃ c : BitVec 32, crc32 machine (crc.setWidth 64) addr buf = some (c.setWidth 64) ∧
      Crc.toPoly (~~~c) =
        (X ^ (8 * buf.length) * Crc.toPoly (~~~crc) + X ^ 32 * Crc.message (Crc.bytesBits buf)) %ₘ
          (X ^ 32 + X ^ 26 + X ^ 23 + X ^ 22 + X ^ 16 + X ^ 12 + X ^ 11 + X ^ 10 + X ^ 8 + X ^ 7 +
            X ^ 5 + X ^ 4 + X ^ 2 + X + 1) := by
  refine ⟨register crc buf, crc32_eq_register machine crc addr buf haddr, ?_⟩
  rw [register, BitVec.not_not, Crc.toPoly_feedBits (by decide), Crc.length_bytesBits,
    generator_poly]

theorem crc32_eq_remainder_byte : ∃ c : BitVec 32,
    crc32 .littleEndian 0 1 [0x61] = some (c.setWidth 64) ∧
      Crc.toPoly (~~~c) =
        (X ^ 8 * Crc.toPoly (~~~0#32) + X ^ 32 * Crc.message (Crc.bytesBits [0x61])) %ₘ
          (X ^ 32 + X ^ 26 + X ^ 23 + X ^ 22 + X ^ 16 + X ^ 12 + X ^ 11 + X ^ 10 + X ^ 8 + X ^ 7 +
            X ^ 5 + X ^ 4 + X ^ 2 + X + 1) :=
  crc32_eq_remainder .littleEndian 0#32 1 [0x61] (by decide)

/-! ## Words that are stored -/

theorem word_stored {bytes : List UInt8} {c : BitVec 32}
    (h : (c.toNat : Int) = unsigned bytes.reverse) : Crc.word (Crc.bytesBits bytes) = c := by
  rw [Crc.word_bytesBits, ← h, BitVec.ofInt_natCast, BitVec.ofNat_toNat, BitVec.setWidth_eq]

/-- **Behind its own checksum every message leaves the same word.** -/
theorem feedBits_checksum (crc : BitVec 32) {data checksum : List UInt8}
    (hlength : checksum.length = 4)
    (h : ((register crc data).toNat : Int) = unsigned checksum.reverse) :
    Crc.feedBits poly (~~~crc) (Crc.bytesBits (data ++ checksum)) =
      Crc.steps poly 32 (BitVec.allOnes 32) := by
  have hbits : (Crc.bytesBits checksum).length = 32 := by rw [Crc.length_bytesBits, hlength]
  rw [Crc.bytesBits_append, Crc.feedBits_append, Crc.feedBits_eq poly _ hbits.le, hbits,
    word_stored h, register]
  congr 1
  apply BitVec.eq_of_getLsbD_eq
  intro i hi
  rw [BitVec.getLsbD_xor, BitVec.getLsbD_not, BitVec.getLsbD_allOnes]
  simp [hi]

end TokuQa.Sysbench.Crc32

namespace TokuQa.Sysbench.FileIo

open TokuQa.Lib

/-! ## The block -/

/-- What `file_fill_buffer` stores and `file_validate_buffer` calculates. -/
def checksum (machine : Crc32.Machine) (addr : Nat) (data : List UInt8) : UInt32 :=
  ⟨((Crc32.crc32 machine 0#64 addr data).getD 0#64).setWidth 32⟩

theorem toNat_checksum (machine : Crc32.Machine) {addr : Nat} (haddr : addr ≠ 0)
    (data : List UInt8) :
    (checksum machine addr data).toNat = (Crc32.register 0#32 data).toNat := by
  have hcrc := Crc32.crc32_eq_register machine 0#32 addr data haddr
  have hzero : (0#32).setWidth 64 = 0#64 := rfl
  rw [hzero] at hcrc
  rw [checksum, hcrc, Option.getD_some, BitVec.setWidth_setWidth_of_le _ (by decide),
    BitVec.setWidth_eq]
  rfl

/-- What the validation compares, for any bytes in the place of the trailer. -/
theorem fileValidateBuffer_append (crc32 : List UInt8 → UInt32) (data rest : List UInt8)
    {stored position : List UInt8} (hstored : stored.length = 4) (hposition : position.length = 8)
    {len : Int} (hlen : len = data.length + trailerLength) (pos : Int) :
    fileValidateBuffer crc32 len pos (data ++ stored ++ position ++ rest) =
      some (decide ((crc32 data).toNat = unsigned stored.reverse ∧
        pos = unsigned position.reverse)) := by
  have hcs : len.toNat - trailerLength = data.length := by omega
  have hroom : (trailerLength : Int) ≤ len ∧
      len ≤ (data ++ stored ++ position ++ rest).length := by
    simp only [List.length_append, hstored, hposition, trailerLength] at hlen ⊢
    omega
  have hchecksum := window_middle data stored (position ++ rest)
  have hoffset := window_middle (data ++ stored) position rest
  rw [hstored, ← List.append_assoc] at hchecksum
  rw [hposition, List.length_append, hstored] at hoffset
  rw [fileValidateBuffer, if_pos hroom, hcs]
  dsimp only
  rw [hchecksum, hoffset, List.append_assoc, List.append_assoc, List.take_left]

/-- A burst in a list is one in its front, when it does not end behind it. -/
theorem burst_take {before burst burst' after front front' tail : List Bool}
    (hlength : burst.length = burst'.length) (hfront : front.length = front'.length)
    (h : front ++ tail = before ++ burst ++ after)
    (h' : front' ++ tail = before ++ burst' ++ after) (hne : burst ≠ burst') :
    ∃ before u u' after, front = before ++ u ++ after ∧ front' = before ++ u' ++ after ∧
      u.length = u'.length ∧ u.length ≤ burst.length ∧ u ≠ u' := by
  have htake (burst : List Bool) (n : Nat) : (before ++ burst ++ after).take n =
      before.take n ++ burst.take (n - before.length) ++
        after.take (n - (before.length + burst.length)) := by
    rw [List.take_append, List.take_append, List.length_append]
  have hleft := htake burst front.length
  have hright := htake burst' front.length
  rw [← h, List.take_left] at hleft
  rw [← h', hfront, List.take_left, ← hfront, ← hlength] at hright
  refine ⟨_, _, _, _, hleft, hright, ?_, ?_, ?_⟩
  · rw [List.length_take, List.length_take, hlength]
  · rw [List.length_take]
    exact Nat.min_le_right _ _
  · intro heq
    rw [heq] at hleft
    rw [hleft, ← hright] at h
    have hall := h.symm.trans h'
    rw [List.append_assoc, List.append_assoc] at hall
    exact hne (List.append_inj_left (List.append_cancel_left hall) hlength)

/-- **A block in which one burst of at most 32 bits changed is not valid**, wherever it is. -/
theorem fileValidateBuffer_damaged (machine : Crc32.Machine) (addr : Nat)
    (random : Nat → UInt8) (len : Nat) (offset : Int) (buffer filled damaged rest : List UInt8)
    (before burst burst' after : List Bool) (haddr : addr ≠ 0)
    (hfill : fileFillBuffer (checksum machine addr) random len offset buffer = some filled)
    (hdamaged : damaged.length = len)
    (hbits : Crc.bytesBits (filled.take len) = before ++ burst ++ after)
    (hbits' : Crc.bytesBits damaged = before ++ burst' ++ after)
    (hburst : burst.length = burst'.length ∧ burst.length ≤ 32) (hne : burst ≠ burst') :
    fileValidateBuffer (checksum machine addr) len offset (damaged ++ rest) = some false := by
  obtain ⟨hlen, rfl⟩ : (trailerLength : Int) ≤ len ∧
      stamp (checksum machine addr) random len offset ++ buffer.drop len = filled := by
    unfold fileFillBuffer at hfill
    split at hfill
    · next hroom => exact ⟨hroom.1, Option.some.inj hfill⟩
    · cases hfill
  have hlen' : trailerLength ≤ len := by exact_mod_cast hlen
  rw [List.take_left' (length_stamp _ random hlen' offset), stamp] at hbits
  generalize hdata : (List.range (len - trailerLength)).map random = data at hbits
  have hsize : data.length = len - trailerLength := by
    rw [← hdata, List.length_map, List.length_range]
  -- What the validation takes for the data and the two fields.
  obtain ⟨data', stored, position, rfl, hdata', hstored, hposition⟩ :
      ∃ data' stored position : List UInt8, damaged = data' ++ stored ++ position ∧
        data'.length = data.length ∧ stored.length = 4 ∧ position.length = 8 := by
    simp only [trailerLength] at hlen' hsize
    refine ⟨damaged.take data.length, (damaged.drop data.length).take 4,
      (damaged.drop data.length).drop 4, ?_, ?_, ?_, ?_⟩
    · rw [List.append_assoc, List.take_append_drop, List.take_append_drop]
    · rw [List.length_take]
      omega
    · rw [List.length_take, List.length_drop]
      omega
    · rw [List.length_drop, List.length_drop]
      omega
  rw [fileValidateBuffer_append _ data' rest hstored hposition (by omega),
    Option.some.injEq, decide_eq_false_iff_not]
  rintro ⟨hcrc, hpos⟩
  have hposition' : position = littleEndian 8 offset := by
    rw [hpos, ← hposition, littleEndian_unsigned_reverse]
  rw [hposition', Crc.bytesBits_append] at hbits'
  rw [Crc.bytesBits_append] at hbits
  have hsame : (Crc.bytesBits (data ++ littleEndian 4 (checksum machine addr data).toNat)).length =
      (Crc.bytesBits (data' ++ stored)).length := by
    rw [Crc.length_bytesBits, Crc.length_bytesBits, List.length_append, List.length_append, hdata',
      hstored, length_littleEndian]
  obtain ⟨before, u, u', after, hfront, hfront', hu, hle, hdiffer⟩ :=
    burst_take hburst.1 hsame hbits hbits' hne
  have hpoly : Crc32.poly.msb = true := by decide
  apply Crc.feedBits_ne_of_burst hpoly (~~~0#32) hu
    (hle.trans hburst.2) hdiffer
  rw [← hfront, ← hfront',
    Crc32.feedBits_checksum 0#32 (length_littleEndian _ _) (by
      rw [unsigned_reverse_littleEndian, toNat_checksum machine haddr]
      have hlt := (Crc32.register 0#32 data).isLt
      omega),
    Crc32.feedBits_checksum 0#32 hstored (by rw [← toNat_checksum machine haddr, hcrc])]

/-- One bit of the data. -/
theorem fileValidateBuffer_damaged_bit :
    fileValidateBuffer (checksum .littleEndian 8) 13 0
      ([0x01, 0x8d, 0xef, 0x02, 0xd2, 0, 0, 0, 0, 0, 0, 0, 0] ++ []) = some false :=
  fileValidateBuffer_damaged .littleEndian 8 (fun _ => 0) 13 0 (List.replicate 13 0)
    [0x00, 0x8d, 0xef, 0x02, 0xd2, 0, 0, 0, 0, 0, 0, 0, 0] _ [] [] [false] [true]
    (Crc.bytesBits [0x00, 0x8d, 0xef, 0x02, 0xd2, 0, 0, 0, 0, 0, 0, 0, 0]).tail (by decide)
    (by decide +kernel) (by decide) (by decide) (by decide) (by decide) (by decide)

end TokuQa.Sysbench.FileIo
