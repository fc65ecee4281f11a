import Mathlib.Algebra.Order.Ring.Int
import Mathlib.Data.List.Basic

/-!
# Extents and the gaps between them

Extents in order are given by the points they begin at and a function that says where the one
at a point stops. The gaps go from each stop to the next point. Where no extent reaches the one
behind it, extents and gaps share out what is between the first point and the last: whatever is
in no extent is in one gap, and whatever is in an extent is in none (`countP_gaps`).
-/

set_option autoImplicit false

namespace TokuQa.Lib

structure Extent where
  offset : Int
  size : Int
deriving DecidableEq

namespace Extent

def stop (x : Extent) : Int := x.offset + x.size

def Has (x : Extent) (b : Int) : Prop := x.offset ≤ b ∧ b < x.stop

instance (x : Extent) (b : Int) : Decidable (x.Has b) := inferInstanceAs (Decidable (_ ∧ _))

/-- **Extents with nothing in common** are one behind the other. -/
theorem stop_le {x y : Extent} (hy : 0 < y.size)
    (hdisjoint : ∀ b, ¬ (x.Has b ∧ y.Has b)) (h : x.offset ≤ y.offset) : x.stop ≤ y.offset := by
  by_contra hlt
  refine hdisjoint y.offset ⟨⟨h, not_le.mp hlt⟩, le_rfl, ?_⟩
  unfold stop
  omega

end Extent

/-- The gaps between extents that begin at the points. -/
def gaps (stop : Int → Int) : List Int → List Extent
  | p :: q :: points => ⟨stop p, q - stop p⟩ :: gaps stop (q :: points)
  | _ => []

/-- The points are in order, and no extent reaches the next one. -/
structure Apart (stop : Int → Int) (points : List Int) : Prop where
  lt_stop : ∀ p ∈ points, p < stop p
  stop_le : points.Pairwise fun p q => stop p ≤ q

/-- What is between the first point and the last, and in no extent. -/
def Missing (stop : Int → Int) (points : List Int) (b : Int) : Prop :=
  (∃ p ∈ points, p ≤ b) ∧ (∃ q ∈ points, b < q) ∧ ∀ p ∈ points, ¬ (p ≤ b ∧ b < stop p)

instance (stop : Int → Int) (points : List Int) (b : Int) : Decidable (Missing stop points b) :=
  inferInstanceAs (Decidable (_ ∧ _ ∧ _))

section

variable {stop : Int → Int} {p q b : Int} {points : List Int}

theorem Apart.tail (h : Apart stop (p :: points)) : Apart stop points :=
  ⟨fun x hx => h.lt_stop x (List.mem_cons_of_mem p hx), (List.pairwise_cons.mp h.stop_le).2⟩

theorem Apart.stop_head_le (h : Apart stop (p :: points)) : ∀ x ∈ points, stop p ≤ x :=
  (List.pairwise_cons.mp h.stop_le).1

theorem Apart.head_le (h : Apart stop (q :: points)) : ∀ x ∈ q :: points, q ≤ x := by
  rintro x (_ | ⟨_, hx⟩)
  · exact le_rfl
  · exact le_trans (h.lt_stop q (by simp)).le (h.stop_head_le x hx)

/-- Behind the second point, the first one does not matter. -/
theorem missing_cons_of_le (h : Apart stop (p :: q :: points)) (hqb : q ≤ b) :
    Missing stop (p :: q :: points) b ↔ Missing stop (q :: points) b := by
  have hpq := h.stop_head_le q (by simp)
  have hp := h.lt_stop p (by simp)
  constructor
  · rintro ⟨-, ⟨y, hy, hlt⟩, hnone⟩
    refine ⟨⟨q, by simp, hqb⟩, ⟨y, ?_, hlt⟩, fun x hx => hnone x (List.mem_cons_of_mem p hx)⟩
    rcases List.mem_cons.mp hy with rfl | hy
    · omega
    · exact hy
  · rintro ⟨-, ⟨y, hy, hlt⟩, hnone⟩
    refine ⟨⟨q, by simp, hqb⟩, ⟨y, List.mem_cons_of_mem p hy, hlt⟩, ?_⟩
    rintro x (_ | ⟨_, hx⟩)
    · omega
    · exact hnone x hx

/-- In front of it, only the first extent does. -/
theorem missing_cons_of_lt (h : Apart stop (p :: q :: points)) (hbq : b < q) :
    Missing stop (p :: q :: points) b ↔ stop p ≤ b := by
  have hrest := h.tail.head_le
  have hp := h.lt_stop p (by simp)
  constructor
  · rintro ⟨⟨x, hx, hle⟩, -, hnone⟩
    have hpb := hnone p (by simp)
    rcases List.mem_cons.mp hx with rfl | hx
    · omega
    · have := hrest x hx
      omega
  · intro hstop
    refine ⟨⟨p, by simp, by omega⟩, ⟨q, by simp, hbq⟩, ?_⟩
    rintro x (_ | ⟨_, hx⟩)
    · omega
    · have := hrest x hx
      omega

theorem not_missing_of_lt (h : Apart stop (q :: points)) (hbq : b < q) :
    ¬ Missing stop (q :: points) b := by
  rintro ⟨⟨x, hx, hle⟩, -⟩
  have := h.head_le x hx
  omega

theorem has_gap : (⟨stop p, q - stop p⟩ : Extent).Has b ↔ stop p ≤ b ∧ b < q := by
  simp only [Extent.Has, Extent.stop]
  omega

/-- **Gaps and extents are a partition** of what is between the first point and the last. -/
theorem countP_gaps (h : Apart stop points) (b : Int) :
    (gaps stop points).countP (fun g => g.Has b) = if Missing stop points b then 1 else 0 := by
  induction points with
  | nil => rw [if_neg fun hmissing => by simpa using hmissing.1]; rfl
  | cons p points ih =>
    cases points with
    | nil =>
      rw [if_neg]
      · rfl
      · rintro ⟨⟨x, hx, hle⟩, ⟨y, hy, hlt⟩, -⟩
        rw [List.mem_singleton.mp hx] at hle
        rw [List.mem_singleton.mp hy] at hlt
        omega
    | cons q points =>
      have hpq := h.stop_head_le q (by simp)
      simp only [gaps, List.countP_cons, ih h.tail, decide_eq_true_iff, has_gap]
      by_cases hqb : q ≤ b
      · simp only [missing_cons_of_le h hqb, not_lt.mpr hqb, and_false, if_false, Nat.add_zero]
      · have hbq : b < q := not_le.mp hqb
        simp only [missing_cons_of_lt h hbq, not_missing_of_lt h.tail hbq, hbq, and_true, if_false,
          Nat.zero_add]

/-- A gap begins where an extent stops, and is not negative. -/
theorem size_nonneg_of_mem_gaps (h : Apart stop points) : ∀ g ∈ gaps stop points, 0 ≤ g.size := by
  induction points with
  | nil => simp [gaps]
  | cons p points ih =>
    cases points with
    | nil => simp [gaps]
    | cons q points =>
      rintro g (_ | ⟨_, hg⟩)
      · have := h.stop_head_le q (by simp)
        dsimp only
        omega
      · exact ih h.tail g hg

/-- What is in a gap is missing. -/
theorem missing_of_mem_gaps (h : Apart stop points) {g : Extent} (hg : g ∈ gaps stop points)
    (hb : g.Has b) : Missing stop points b := by
  by_contra hnot
  have hcount := countP_gaps h b
  rw [if_neg hnot, List.countP_eq_zero] at hcount
  exact hcount g hg (decide_eq_true hb)

end

end TokuQa.Lib
