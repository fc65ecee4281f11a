import Mathlib.Data.List.Infix

/-!
# Strings in a buffer

A C string has no byte zero in it, and one behind it in memory. What a buffer begins with is a
prefix of it as a list, and a store behind a prefix makes a longer one (`store_spec`). A store
that goes past the end is no store: it returns `none`.
-/

set_option autoImplicit false

namespace TokuQa.Lib

/-- A string as C has them, without the zero at its end. -/
structure CString where
  bytes : List UInt8
  nonzero : 0 ∉ bytes
deriving DecidableEq

namespace CString

/-- `strlen`. -/
def length (s : CString) : Nat := s.bytes.length

end CString

/-- Writes bytes to a buffer, if there is room for them. -/
def store (pos : Nat) (bytes buffer : List UInt8) : Option (List UInt8) :=
  if pos + bytes.length ≤ buffer.length then
    some (buffer.take pos ++ bytes ++ buffer.drop (pos + bytes.length))
  else none

/-- `strcpy(buffer + pos, s)`. -/
def strcpy (pos : Nat) (s : CString) (buffer : List UInt8) : Option (List UInt8) :=
  store pos (s.bytes ++ [0]) buffer

/-- The string a buffer begins with. -/
def stringAt (buffer : List UInt8) : List UInt8 := buffer.takeWhile (· ≠ 0)

section

variable {pos : Nat} {s bytes buffer : List UInt8} {t : CString}

theorem store_eq_none (h : buffer.length < pos + bytes.length) : store pos bytes buffer = none :=
  if_neg (Nat.not_le_of_lt h)

/-- A store leaves the size of the buffer. -/
theorem length_of_store {buffer' : List UInt8} (h : store pos bytes buffer = some buffer') :
    buffer'.length = buffer.length := by
  unfold store at h
  split at h
  · cases h
    simp only [List.length_append, List.length_take, List.length_drop]
    omega
  · cases h

/-- A store behind what the buffer begins with. -/
theorem store_spec (bytes : List UInt8) (hs : s <+: buffer)
    (hroom : s.length + bytes.length ≤ buffer.length) :
    ∃ buffer', store s.length bytes buffer = some buffer' ∧ buffer'.length = buffer.length ∧
      s ++ bytes <+: buffer' := by
  obtain ⟨rest, rfl⟩ := hs
  refine ⟨_, if_pos hroom, ?_, ?_⟩
  · rw [List.length_append] at hroom
    simp only [List.length_append, List.length_take, List.length_drop]
    omega
  · rw [List.take_left]
    exact List.prefix_append _ _

theorem strcpy_eq_none (h : buffer.length ≤ pos + t.length) : strcpy pos t buffer = none := by
  refine store_eq_none ?_
  rw [List.length_append, List.length_singleton]
  exact Nat.lt_succ_of_le h

theorem strcpy_spec (hs : s <+: buffer) (hroom : s.length + t.length < buffer.length) :
    ∃ buffer', strcpy s.length t buffer = some buffer' ∧ buffer'.length = buffer.length ∧
      s ++ t.bytes ++ [0] <+: buffer' := by
  have hroom' : s.length + (t.bytes ++ [0]).length ≤ buffer.length := by
    rw [List.length_append, List.length_singleton]
    exact hroom
  rw [List.append_assoc]
  exact store_spec _ hs hroom'

/-- A string that is in the buffer is read back. -/
theorem stringAt_eq (h : s ++ [0] <+: buffer) (hs : 0 ∉ s) : stringAt buffer = s := by
  obtain ⟨rest, rfl⟩ := h
  have hall : ∀ b ∈ s, (decide (b ≠ 0)) = true := by
    intro b hb
    exact decide_eq_true fun hzero => hs (hzero ▸ hb)
  rw [stringAt, List.append_assoc, List.takeWhile_append_of_pos hall]
  simp

end

end TokuQa.Lib
