import Mathlib.Algebra.Order.Floor.Div
import Mathlib.Tactic.Ring

/-!
# Blocks and samples

Positions are cut into blocks of one size; `blockStart` and `blockEnd` are the nearest cuts below
and above a position, and `nextCut` is the first one behind it. A file of another size is crossed by
a block where a multiple of its size lies inside the block (`crosses_iff`).

Numbers below `steps`, scaled to positions below `total`, hit some positions only. `firstSample`
is the least number that is scaled to a position or beyond it, and a range of positions is
missed by all of them exactly if its two ends have the same one, or none (`missed_iff`).
-/

set_option autoImplicit false

namespace TokuQa.Lib

/-! ## Blocks -/

def blockStart (b p : Nat) : Nat := p / b * b

def blockEnd (b p : Nat) : Nat := (p ⌈/⌉ b) * b

section

variable {b f m p q x : Nat}

theorem le_blockStart_iff (hb : 0 < b) (hm : b ∣ m) : m ≤ blockStart b p ↔ m ≤ p := by
  obtain ⟨k, rfl⟩ := hm
  rw [blockStart, Nat.mul_comm _ b, Nat.mul_le_mul_left_iff hb, Nat.le_div_iff_mul_le hb,
    Nat.mul_comm]

theorem blockEnd_le_iff (hb : 0 < b) (hm : b ∣ m) : blockEnd b p ≤ m ↔ p ≤ m := by
  obtain ⟨k, rfl⟩ := hm
  rw [blockEnd, Nat.mul_comm _ b, Nat.mul_le_mul_left_iff hb, ceilDiv_le_iff_le_mul hb]

theorem dvd_blockStart (b p : Nat) : b ∣ blockStart b p := Nat.dvd_mul_left _ _

theorem dvd_blockEnd (b p : Nat) : b ∣ blockEnd b p := Nat.dvd_mul_left _ _

theorem blockStart_le (b p : Nat) : blockStart b p ≤ p := Nat.div_mul_le_self p b

theorem le_blockEnd (hb : 0 < b) : p ≤ blockEnd b p :=
  (blockEnd_le_iff hb (dvd_blockEnd b p)).mp le_rfl

theorem blockStart_of_dvd (h : b ∣ p) : blockStart b p = p := Nat.div_mul_cancel h

theorem blockEnd_of_dvd (hb : 0 < b) (h : b ∣ p) : blockEnd b p = p :=
  le_antisymm ((blockEnd_le_iff hb h).mpr le_rfl) (le_blockEnd hb)

theorem lt_blockStart_add (hb : 0 < b) : p < blockStart b p + b := Nat.lt_div_mul_add hb

/-- The first cut behind a position. -/
def nextCut (b p : Nat) : Nat := blockStart b p + b

theorem dvd_nextCut (b p : Nat) : b ∣ nextCut b p :=
  Nat.dvd_add (dvd_blockStart b p) (Nat.dvd_refl b)

theorem nextCut_le_iff (hb : 0 < b) (hm : b ∣ m) : nextCut b p ≤ m ↔ p < m := by
  refine ⟨(lt_blockStart_add hb).trans_le, fun h => ?_⟩
  obtain ⟨k, rfl⟩ := hm
  have hdiv : p / b < k := (Nat.div_lt_iff_lt_mul hb).mpr (Nat.mul_comm b k ▸ h)
  rw [nextCut, blockStart, ← Nat.succ_mul, Nat.mul_comm b k]
  exact Nat.mul_le_mul_right b hdiv

/-- Inside a block the cuts are its ends. -/
theorem blockStart_eq (hm : b ∣ m) (hp : m ≤ p) (hlt : p < m + b) : blockStart b p = m := by
  obtain ⟨k, rfl⟩ := hm
  have hdiv : p / b = k := by
    rw [Nat.div_eq_iff (by omega)]
    rw [Nat.mul_comm]
    omega
  rw [blockStart, hdiv, Nat.mul_comm]

theorem blockEnd_eq (hm : b ∣ m) (hp : m < p) (hle : p ≤ m + b) : blockEnd b p = m + b := by
  have hb : 0 < b := by omega
  refine le_antisymm ((blockEnd_le_iff hb (Nat.dvd_add hm (Nat.dvd_refl b))).mpr hle) ?_
  have hlt : m < blockEnd b p := lt_of_lt_of_le hp (le_blockEnd hb)
  obtain ⟨i, rfl⟩ := hm
  obtain ⟨j, hj⟩ := dvd_blockEnd b p
  rw [hj] at hlt ⊢
  exact Nat.mul_le_mul_left b (Nat.lt_of_mul_lt_mul_left hlt)

/-- **A block crosses the end of a file** if a multiple of the file's size is inside it. -/
theorem crosses_iff (hf : 0 < f) : f < q % f + b ↔ ∃ k, q < k * f ∧ k * f < q + b := by
  have hdiv := Nat.div_add_mod q f
  have hmod := Nat.mod_lt q hf
  constructor
  · intro h
    refine ⟨q / f + 1, ?_⟩
    rw [Nat.succ_mul, Nat.mul_comm]
    omega
  · rintro ⟨k, hq, hk⟩
    have hle : q / f + 1 ≤ k := Nat.div_lt_of_lt_mul (by rwa [Nat.mul_comm])
    have hmul : (q / f + 1) * f ≤ k * f := Nat.mul_le_mul_right f hle
    rw [Nat.succ_mul, Nat.mul_comm] at hmul
    omega

end

/-! ## Samples -/

def firstSample (steps total lo : Nat) : Nat := (lo * steps) ⌈/⌉ total

/-- No number below `steps` is scaled into `[lo, hi)`. -/
def Missed (steps total lo hi : Nat) : Prop :=
  min steps (firstSample steps total hi) ≤ firstSample steps total lo

instance (steps total lo hi : Nat) : Decidable (Missed steps total lo hi) :=
  inferInstanceAs (Decidable (_ ≤ _))

section

variable {steps total lo hi k : Nat}

theorem firstSample_le_iff (hsteps : 0 < steps) (htotal : 0 < total) :
    firstSample steps total lo ≤ k ↔ lo ≤ k * total / steps := by
  rw [firstSample, ceilDiv_le_iff_le_mul htotal, Nat.le_div_iff_mul_le hsteps, Nat.mul_comm total]

/-- **What it means to be missed.** -/
theorem missed_iff (hsteps : 0 < steps) (htotal : 0 < total) :
    Missed steps total lo hi ↔
      ∀ k < steps, lo ≤ k * total / steps → hi ≤ k * total / steps := by
  constructor
  · intro h k hk hlo
    rw [← firstSample_le_iff hsteps htotal] at hlo ⊢
    unfold Missed at h
    omega
  · intro h
    by_contra hmin
    unfold Missed at hmin
    have hlo : lo ≤ firstSample steps total lo * total / steps :=
      (firstSample_le_iff hsteps htotal).mp le_rfl
    have hhi := (firstSample_le_iff hsteps htotal).mpr (h _ (by omega) hlo)
    omega

theorem missed_of_le (hsteps : 0 < steps) (htotal : 0 < total) (h : hi ≤ lo) :
    Missed steps total lo hi :=
  (missed_iff hsteps htotal).mpr fun _ _ hlo => le_trans h hlo

theorem scaled_lt (htotal : 0 < total) (hk : k < steps) : k * total / steps < total := by
  rw [Nat.div_lt_iff_lt_mul (by omega), Nat.mul_comm total]
  exact Nat.mul_lt_mul_of_pos_right hk htotal

theorem missed_of_total_le (hsteps : 0 < steps) (htotal : 0 < total) (h : total ≤ lo) :
    Missed steps total lo hi :=
  (missed_iff hsteps htotal).mpr fun _ hk hlo => by
    have hlt := scaled_lt htotal hk
    omega

/-- Where there are as many numbers as positions, every position is hit. -/
theorem total_le_of_missed (hfine : total ≤ steps) (htotal : 0 < total) (hlt : lo < hi)
    (h : Missed steps total lo hi) : total ≤ lo := by
  have hsteps : 0 < steps := by omega
  by_contra hlo
  -- the number that is rounded up from `lo` is scaled to `lo` itself
  have hbelow : firstSample steps total lo * total < lo * steps + total := by
    rcases Nat.eq_zero_or_pos (firstSample steps total lo) with hzero | hpos
    · rw [hzero]
      omega
    · have hless : ¬ firstSample steps total lo ≤ firstSample steps total lo - 1 := by omega
      rw [firstSample_le_iff hsteps htotal, Nat.le_div_iff_mul_le hsteps, Nat.sub_one_mul] at hless
      omega
  have hstart : lo * steps + steps ≤ total * steps := by
    rw [← Nat.succ_mul]
    exact Nat.mul_le_mul_right steps (by omega)
  have hexists : firstSample steps total lo < steps := by
    refine Nat.lt_of_mul_lt_mul_right (a := total) ?_
    rw [Nat.mul_comm steps]
    omega
  have hhi := (missed_iff hsteps htotal).mp h _ hexists
    ((firstSample_le_iff hsteps htotal).mp le_rfl)
  rw [Nat.le_div_iff_mul_le hsteps] at hhi
  have hnext : lo * steps + steps ≤ hi * steps := by
    rw [← Nat.succ_mul]
    exact Nat.mul_le_mul_right steps hlt
  omega

end

end TokuQa.Lib
