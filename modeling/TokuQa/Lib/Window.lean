import Mathlib.Data.List.Basic

/-!
# Windows onto a file

`window pos len file` is what a read at a position returns, and `overwrite pos bytes file` what
a write leaves behind, with zeros up to a position behind the end. A write is seen by the window
it fills and by none that it does not touch (`window_overwrite_self`, `window_overwrite_of_disjoint`).
-/

set_option autoImplicit false

namespace TokuQa.Lib

/-- `pread`. -/
def window (pos len : Nat) (file : List UInt8) : List UInt8 := (file.drop pos).take len

/-- `pwrite`. -/
def overwrite (pos : Nat) (bytes file : List UInt8) : List UInt8 :=
  (file ++ List.replicate (pos - file.length) 0).take pos ++ bytes ++
    file.drop (pos + bytes.length)

variable {pos len at_ : Nat} {bytes file rest : List UInt8}

theorem length_window (h : pos + len ≤ file.length) : (window pos len file).length = len := by
  rw [window, List.length_take, List.length_drop]
  omega

theorem overwrite_of_le (h : pos ≤ file.length) :
    overwrite pos bytes file = file.take pos ++ bytes ++ file.drop (pos + bytes.length) := by
  have hzero : pos - file.length = 0 := by omega
  rw [overwrite, hzero, List.replicate_zero, List.append_nil]

theorem length_overwrite (h : pos + bytes.length ≤ file.length) :
    (overwrite pos bytes file).length = file.length := by
  rw [overwrite_of_le (by omega)]
  simp only [List.length_append, List.length_take, List.length_drop]
  omega

theorem window_overwrite_self (bytes : List UInt8) (h : pos ≤ file.length) :
    window pos bytes.length (overwrite pos bytes file) = bytes := by
  have hlength : (file.take pos).length = pos := by
    rw [List.length_take]
    omega
  rw [overwrite_of_le h, window, List.append_assoc, List.drop_left' hlength, List.take_left]

theorem window_overwrite_of_disjoint (h : pos + bytes.length ≤ file.length)
    (hdisjoint : at_ + len ≤ pos ∨ pos + bytes.length ≤ at_) :
    window at_ len (overwrite pos bytes file) = window at_ len file := by
  have hlength : (file.take pos).length = pos := by
    rw [List.length_take]
    omega
  rw [overwrite_of_le (by omega), window, window]
  obtain hbefore | hafter := hdisjoint
  · rw [List.append_assoc, List.drop_append_of_le_length (by omega),
      List.take_append_of_le_length (by rw [List.length_drop]; omega), List.drop_take,
      List.take_take, Nat.min_eq_left (by omega)]
  · have hfront : (file.take pos ++ bytes).length = pos + bytes.length := by
      rw [List.length_append, hlength]
    rw [List.drop_append, List.drop_eq_nil_of_le (by omega), List.nil_append, hfront,
      List.drop_drop]
    congr 2
    omega

/-! ## Files put together from blocks -/

theorem window_append_left (h : pos + len ≤ bytes.length) :
    window pos len (bytes ++ rest) = window pos len bytes := by
  rw [window, window, List.drop_append_of_le_length (by omega),
    List.take_append_of_le_length (by rw [List.length_drop]; omega)]

theorem window_append_right (h : bytes.length ≤ pos) :
    window pos len (bytes ++ rest) = window (pos - bytes.length) len rest := by
  rw [window, window, List.drop_append, List.drop_eq_nil_of_le h, List.nil_append]

theorem window_self (bytes : List UInt8) : window 0 bytes.length bytes = bytes := by
  rw [window, List.drop_zero, List.take_length]

/-- The bytes in the middle. -/
theorem window_middle (before bytes rest : List UInt8) :
    window before.length bytes.length (before ++ bytes ++ rest) = bytes := by
  rw [List.append_assoc, window_append_right (Nat.le_refl _), Nat.sub_self, window, List.drop_zero,
    List.take_left]

theorem window_add (pos len more : Nat) (file : List UInt8) :
    window pos (len + more) file = window pos len file ++ window (pos + len) more file := by
  rw [window, window, window, List.take_add, List.drop_drop]

end TokuQa.Lib
