import Mathlib.Data.List.GetD
import Mathlib.Order.Defs.LinearOrder
import Mathlib.Tactic.Linarith
import Mathlib.Tactic.Ring
import TokuQa.Lib.JavaInt

/-!
# The status lines of the reporter

With `secondsPerFeedback` the reporter shows the number of inserts it has read. Without, it shows
the number of the interval times `insertsPerFeedback`; in the loop the interval is complete by then,
but the final numbers are those of an interval that has just begun: they are right only if the
run ends at the very moment it is complete (`truthful_iff`).

`globalInserts` counts up, and what is read of it is an input, a reading for each turn of the loop
and one for the final numbers. The rates and what is said of queries and deletes are left out.
-/

set_option autoImplicit false

namespace TokuQa.MongoIibench.FinalReport

open TokuQa.Lib

structure Config where
  secondsPerFeedback : Int
  insertsPerFeedback : Int

structure Reading where
  now : Int
  thisInserts : Int

/-- The inserts that a status line shows, and those that were done. -/
structure Line where
  total : Int
  done : Int
deriving DecidableEq

/-- The reporter's variables. -/
structure State where
  intervalNumber : Int
  nextFeedbackMillis : Int
  nextFeedbackInserts : Int

variable (c : Config) (t0 : Int)

def start : State where
  intervalNumber := 0
  nextFeedbackMillis := wrap64 (t0 + 1000 * c.secondsPerFeedback)
  nextFeedbackInserts := c.insertsPerFeedback

/-- The condition for a status line. -/
def Due (r : Reading) (s : State) : Prop :=
  s.nextFeedbackMillis < r.now ∧ 0 < c.secondsPerFeedback ∨
    s.nextFeedbackInserts ≤ r.thisInserts ∧ 0 < c.insertsPerFeedback

instance (r : Reading) (s : State) : Decidable (Due c r s) := inferInstanceAs (Decidable (_ ∨ _))

/-- The next interval. -/
def State.next (s : State) : State where
  intervalNumber := s.intervalNumber + 1
  nextFeedbackMillis := wrap64 (t0 + 1000 * c.secondsPerFeedback * (s.intervalNumber + 2))
  nextFeedbackInserts := wrap64 ((s.intervalNumber + 2) * c.insertsPerFeedback)

/-- The status line of an interval. -/
def line (r : Reading) (s : State) : Line :=
  ⟨if 0 < c.secondsPerFeedback then r.thisInserts else
    wrap64 (s.intervalNumber * c.insertsPerFeedback), r.thisInserts⟩

/-- `MyReporter.run`, with what is read in the loop, and for the final numbers. -/
def report (final : Reading) : List Reading → State → List Line
  | [], s => [line c final (s.next c t0)]
  | r :: rs, s =>
    if Due c r s then line c r (s.next c t0) :: report final rs (s.next c t0)
    else report final rs s

/-- The totals increase, are never more than what was done, and are right in the end. -/
structure Truthful (lines : List Line) : Prop where
  increase : lines.Pairwise fun l l' => l.total < l'.total
  le_done : ∀ l ∈ lines, l.total ≤ l.done
  final : ∀ l ∈ lines.getLast?, l.total = l.done

/-- The last `m` readings have reached the next target, the one after it and so on. -/
def Reached (f t : Int) (rs : List Int) (m : Nat) : Prop :=
  m ≤ rs.length ∧ ∀ i < m, t + i * f ≤ rs.getD (rs.length - m + i) 0

/-- The run ends with a whole number of intervals, of which all but the last were noticed: as
many of the last readings have reached them one after another, and no more. -/
def EndsWithInterval (f : Int) (rs : List Int) (final : Int) : Prop :=
  ∃ m : Nat, final = (m + 1) * f ∧ Reached f f rs m ∧ ¬ Reached f f rs (m + 1)

/-! ## The last target -/

/-- The target of the interval that has begun at the end. -/
def lastTarget (f : Int) : Int → List Int → Int
  | t, [] => t
  | t, r :: rs => if t ≤ r then lastTarget f (t + f) rs else lastTarget f t rs

variable {f t r : Int} {rs : List Int} {m : Nat}

theorem lastTarget_eq (f t : Int) (rs : List Int) : ∃ j : Nat, lastTarget f t rs = t + j * f := by
  induction rs generalizing t with
  | nil => exact ⟨0, by simp [lastTarget]⟩
  | cons r rs ih =>
    rw [lastTarget]
    split
    · obtain ⟨j, hj⟩ := ih (t + f)
      exact ⟨j + 1, by rw [hj]; push_cast; ring⟩
    · exact ih t

theorem le_lastTarget (hf : 0 < f) (t : Int) (rs : List Int) : t ≤ lastTarget f t rs := by
  obtain ⟨j, hj⟩ := lastTarget_eq f t rs
  have hpos : 0 ≤ (j : Int) * f := mul_nonneg (Int.natCast_nonneg j) hf.le
  omega

/-- Where a reading has reached the target, so have all behind it. -/
theorem reached_succ_iff (hsorted : (r :: rs).Pairwise (· ≤ ·)) (h : t ≤ r) :
    Reached f t (r :: rs) (m + 1) ↔ Reached f (t + f) rs m := by
  have hall : ∀ k ≤ rs.length, t ≤ (r :: rs).getD k 0 := by
    intro k hk
    have hlt : k < (r :: rs).length := Nat.lt_succ_of_le hk
    rw [List.getD_eq_getElem _ _ hlt]
    rcases List.mem_cons.mp (List.getElem_mem hlt) with heq | hmem
    · rw [heq]
      exact h
    · exact h.trans (List.rel_of_pairwise_cons hsorted hmem)
  have hindex : ∀ i, m ≤ rs.length →
      (r :: rs).getD (rs.length + 1 - (m + 1) + (i + 1)) 0 = rs.getD (rs.length - m + i) 0 := by
    intro i hm
    rw [(by omega : rs.length + 1 - (m + 1) + (i + 1) = rs.length - m + i + 1), List.getD_cons_succ]
  unfold Reached
  rw [List.length_cons]
  constructor
  · rintro ⟨hm, hreached⟩
    refine ⟨by omega, fun i hi => ?_⟩
    have hi' := hreached (i + 1) (by omega)
    rw [hindex i (by omega)] at hi'
    push_cast at hi'
    linarith
  · rintro ⟨hm, hreached⟩
    refine ⟨by omega, fun i hi => ?_⟩
    cases i with
    | zero =>
      simp only [Nat.cast_zero, zero_mul, add_zero]
      exact hall _ (by omega)
    | succ i =>
      rw [hindex i hm]
      have hi' := hreached i (by omega)
      push_cast
      linarith

/-- A reading that has not reached the target does not count. -/
theorem reached_cons_iff (h : r < t) : Reached f t (r :: rs) m ↔ Reached f t rs m := by
  have hindex : ∀ i, m ≤ rs.length →
      (r :: rs).getD (rs.length + 1 - m + i) 0 = rs.getD (rs.length - m + i) 0 := by
    intro i hm
    rw [(by omega : rs.length + 1 - m + i = rs.length - m + i + 1), List.getD_cons_succ]
  unfold Reached
  rw [List.length_cons]
  constructor
  · rintro ⟨hm, hreached⟩
    have hm' : m ≤ rs.length := by
      by_contra hgt
      have hfirst := hreached 0 (by omega)
      rw [(by omega : rs.length + 1 - m + 0 = 0), List.getD_cons_zero] at hfirst
      simp only [Nat.cast_zero, zero_mul, add_zero] at hfirst
      omega
    refine ⟨hm', fun i hi => ?_⟩
    rw [← hindex i hm']
    exact hreached i hi
  · rintro ⟨hm, hreached⟩
    refine ⟨by omega, fun i hi => ?_⟩
    rw [hindex i hm]
    exact hreached i hi

/-- **As many targets are noticed as were reached** by the last readings. -/
theorem reached_iff (hf : 0 < f) (hsorted : rs.Pairwise (· ≤ ·)) :
    Reached f t rs m ↔ t + m * f ≤ lastTarget f t rs := by
  induction rs generalizing t m with
  | nil =>
    rw [lastTarget]
    cases m with
    | zero => simp [Reached]
    | succ m =>
      refine iff_of_false (fun h => absurd h.1 (by simp)) ?_
      have hpos : 0 ≤ (m : Int) * f := mul_nonneg (Int.natCast_nonneg m) hf.le
      push_cast
      linarith
  | cons r rs ih =>
    have hrest := hsorted.of_cons
    rw [lastTarget]
    split
    · next hle =>
      cases m with
      | zero =>
        have hlast := le_lastTarget hf (t + f) rs
        exact iff_of_true ⟨Nat.zero_le _, by simp⟩ (by push_cast; linarith)
      | succ m =>
        rw [reached_succ_iff hsorted hle, ih hrest]
        push_cast
        rw [add_mul, one_mul, add_assoc t, add_comm f]
    · next hlt => rw [reached_cons_iff (not_le.mp hlt), ih hrest]

theorem endsWithInterval_iff (hf : 0 < f) (hsorted : rs.Pairwise (· ≤ ·)) (final : Int) :
    EndsWithInterval f rs final ↔ final = lastTarget f f rs := by
  obtain ⟨j, hj⟩ := lastTarget_eq f f rs
  have hle : ∀ m : Nat, Reached f f rs m ↔ m ≤ j := by
    intro m
    rw [reached_iff hf hsorted, hj, add_le_add_iff_left, mul_le_mul_iff_left₀ hf, Int.ofNat_le]
  have htarget : lastTarget f f rs = (j + 1) * f := by rw [hj, add_mul, one_mul, add_comm]
  constructor
  · rintro ⟨m, rfl, hm, hm'⟩
    rw [hle] at hm hm'
    rw [htarget, (by omega : m = j)]
  · rintro rfl
    exact ⟨j, htarget, (hle j).mpr le_rfl, fun h => absurd ((hle _).mp h) (by omega)⟩

/-! ## The lines -/

/-- The target `t` is set. -/
structure Targets (c : Config) (t : Int) (s : State) : Prop where
  next_eq : s.nextFeedbackInserts = wrap64 t
  target_eq : (s.intervalNumber + 1) * c.insertsPerFeedback = t

variable {c} {t0} {s : State} {final : Reading} {readings : List Reading}

theorem targets_start (hf : 0 < c.insertsPerFeedback) (hf' : c.insertsPerFeedback < 2 ^ 63) :
    Targets c c.insertsPerFeedback (start c t0) where
  next_eq := (wrap_eq_self (by omega) hf').symm
  target_eq := by rw [start, zero_add, one_mul]

theorem Targets.next (h : Targets c t s) :
    Targets c (t + c.insertsPerFeedback) (s.next c t0) := by
  have hsum : (s.intervalNumber + 2) * c.insertsPerFeedback = t + c.insertsPerFeedback := by
    rw [← h.target_eq]
    ring
  refine ⟨congrArg wrap64 hsum, ?_⟩
  rw [← hsum, State.next, add_assoc]
  rfl

/-- Without `secondsPerFeedback`. -/
theorem due_iff (hseconds : c.secondsPerFeedback = 0) (hf : 0 < c.insertsPerFeedback)
    (h : Targets c t s) (r : Reading) : Due c r s ↔ wrap64 t ≤ r.thisInserts := by
  rw [Due, hseconds, h.next_eq]
  simp [hf]

theorem line_eq (hseconds : c.secondsPerFeedback = 0) (h : Targets c t s) (r : Reading) :
    line c r (s.next c t0) = ⟨wrap64 t, r.thisInserts⟩ := by
  rw [line, if_neg (by omega), State.next, ← h.target_eq]

/-- What the lines are as long as the targets fit: those of the loop, and the final one. -/
theorem report_eq (hseconds : c.secondsPerFeedback = 0) (hf : 0 < c.insertsPerFeedback)
    (h : Targets c t s) (ht : 0 ≤ t)
    (hfit : lastTarget c.insertsPerFeedback t (readings.map Reading.thisInserts) < 2 ^ 63) :
    ∃ front, report c t0 final readings s = front ++
        [⟨lastTarget c.insertsPerFeedback t (readings.map Reading.thisInserts),
          final.thisInserts⟩] ∧
      (∀ l ∈ front, t ≤ l.total ∧ l.total ≤ l.done ∧
        l.total < lastTarget c.insertsPerFeedback t (readings.map Reading.thisInserts)) ∧
      front.Pairwise fun l l' => l.total < l'.total := by
  induction readings generalizing t s with
  | nil =>
    have hwrap : wrap64 t = t := wrap_eq_self (by omega) hfit
    refine ⟨[], ?_, by simp, List.Pairwise.nil⟩
    rw [report, line_eq hseconds h, hwrap]
    rfl
  | cons r readings ih =>
    have hle := le_lastTarget hf t ((r :: readings).map Reading.thisInserts)
    have hwrap : wrap64 t = t := wrap_eq_self (by omega) (by omega)
    have hdue := due_iff hseconds hf h r
    rw [hwrap] at hdue
    rw [report, List.map_cons, lastTarget]
    rw [List.map_cons, lastTarget] at hfit
    by_cases hr : t ≤ r.thisInserts
    · rw [if_pos hr] at hfit
      rw [if_pos (hdue.mpr hr), if_pos hr]
      obtain ⟨front, hreport, hfront, hpairwise⟩ := ih h.next (by omega) hfit
      have hlast := le_lastTarget hf (t + c.insertsPerFeedback)
        (readings.map Reading.thisInserts)
      refine ⟨line c r (s.next c t0) :: front, by rw [hreport]; rfl, ?_, ?_⟩
      · intro l hl
        rcases List.mem_cons.mp hl with rfl | hl
        · rw [line_eq hseconds h, hwrap]
          exact ⟨le_rfl, hr, by simp only; omega⟩
        · obtain ⟨hge, hdone, hlt⟩ := hfront l hl
          exact ⟨by omega, hdone, hlt⟩
      · refine List.pairwise_cons.mpr ⟨fun l hl => ?_, hpairwise⟩
        rw [line_eq hseconds h, hwrap]
        have hge := (hfront l hl).1
        simp only
        omega
    · rw [if_neg hr] at hfit
      rw [if_neg (mt hdue.mp hr), if_neg hr]
      exact ih h ht hfit

/-- The first line, whichever reading it is for. -/
theorem head_report (hseconds : c.secondsPerFeedback = 0) (h : Targets c t s) :
    ∃ l lines, report c t0 final readings s = l :: lines ∧ l.total = wrap64 t := by
  induction readings with
  | nil => exact ⟨_, [], rfl, by rw [line_eq hseconds h]⟩
  | cons r readings ih =>
    rw [report]
    split
    · exact ⟨_, _, rfl, by rw [line_eq hseconds h]⟩
    · exact ih

/-- A target that does not fit shows: a line with a negative total. -/
theorem fits_of_pos (hseconds : c.secondsPerFeedback = 0) (hf : 0 < c.insertsPerFeedback)
    (hf' : c.insertsPerFeedback < 2 ^ 63) (h : Targets c t s) (ht : 0 < t)
    (hprev : t - c.insertsPerFeedback < 2 ^ 63) (hcount : ∀ r ∈ readings, 0 ≤ r.thisInserts)
    (hpos : ∀ l ∈ report c t0 final readings s, 0 < l.total) :
    lastTarget c.insertsPerFeedback t (readings.map Reading.thisInserts) < 2 ^ 63 := by
  have hwrap : 2 ^ 63 ≤ t → wrap64 t < 0 := by
    intro hge
    rw [wrap64, wrap_of_overflow hge (by omega)]
    omega
  induction readings generalizing t s with
  | nil =>
    by_contra hge
    have hline := hpos _ (List.mem_singleton.mpr rfl)
    rw [line_eq hseconds h] at hline
    have hneg := hwrap (not_lt.mp hge)
    simp only at hline
    omega
  | cons r readings ih =>
    have hr := hcount r List.mem_cons_self
    have hcount' := fun r' hr' => hcount r' (List.mem_cons_of_mem _ hr')
    have hdue := due_iff hseconds hf h r
    rw [report] at hpos
    rcases lt_or_ge t (2 ^ 63) with hlt | hge
    · rw [wrap64, wrap_eq_self (by omega) hlt] at hdue
      rw [List.map_cons, lastTarget]
      by_cases hle : t ≤ r.thisInserts
      · rw [if_pos (hdue.mpr hle)] at hpos
        rw [if_pos hle]
        exact ih h.next (by omega) (by omega) hcount'
          (fun l hl => hpos l (List.mem_cons_of_mem _ hl))
          fun hge => by rw [wrap64, wrap_of_overflow hge (by omega)]; omega
      · rw [if_neg (mt hdue.mp hle)] at hpos
        rw [if_neg hle]
        exact ih h ht hprev hcount' hpos hwrap
    · -- the next reading is not negative, so there is a line
      have hneg := hwrap hge
      rw [if_pos (hdue.mpr (by omega))] at hpos
      have hline := hpos _ List.mem_cons_self
      rw [line_eq hseconds h] at hline
      simp only at hline
      omega

/-- **The totals are truthful** exactly when the run ends with a whole number of intervals, of
which all but the last were noticed. -/
theorem truthful_iff (hseconds : c.secondsPerFeedback = 0) (hf : 1 ≤ c.insertsPerFeedback)
    (hf' : c.insertsPerFeedback < 2 ^ 63)
    (hsorted : (readings ++ [final]).Pairwise fun r r' => r.thisInserts ≤ r'.thisInserts)
    (hcount : ∀ r ∈ readings, 0 ≤ r.thisInserts) (hfinal : final.thisInserts < 2 ^ 63) :
    Truthful (report c t0 final readings (start c t0)) ↔
      EndsWithInterval c.insertsPerFeedback (readings.map Reading.thisInserts)
        final.thisInserts := by
  have hpos : 0 < c.insertsPerFeedback := by omega
  have hstart : Targets c c.insertsPerFeedback (start c t0) := targets_start hpos hf'
  have hsorted' : (readings.map Reading.thisInserts).Pairwise (· ≤ ·) :=
    List.pairwise_map.mpr (List.pairwise_append.mp hsorted).1
  rw [endsWithInterval_iff hpos hsorted']
  -- in both directions the targets fit, and then the final total is the last target
  have hfits : lastTarget c.insertsPerFeedback c.insertsPerFeedback
      (readings.map Reading.thisInserts) < 2 ^ 63 →
      (Truthful (report c t0 final readings (start c t0)) ↔
        final.thisInserts = lastTarget c.insertsPerFeedback c.insertsPerFeedback
          (readings.map Reading.thisInserts)) := by
    intro hfit
    obtain ⟨front, hreport, hfront, hpairwise⟩ :
        ∃ front, report c t0 final readings (start c t0) = front ++ [_] ∧ _ :=
      report_eq hseconds hpos hstart hpos.le hfit
    rw [hreport]
    constructor
    · intro htruth
      exact (htruth.final _ (Option.mem_def.mpr List.getLast?_concat)).symm
    · intro hend
      refine ⟨?_, fun l hl => ?_, fun l hl => ?_⟩
      · refine List.pairwise_append.mpr ⟨hpairwise, List.pairwise_singleton _ _, ?_⟩
        intro l hl l' hl'
        rw [List.mem_singleton.mp hl']
        exact (hfront l hl).2.2
      · rcases List.mem_append.mp hl with hl | hl
        · exact (hfront l hl).2.1
        · rw [List.mem_singleton.mp hl]
          exact hend.ge
      · rw [List.getLast?_concat, Option.mem_some] at hl
        rw [← hl]
        exact hend.symm
  constructor
  · intro htruth
    obtain ⟨l, lines, hlines, hl⟩ :
        ∃ l lines, report c t0 final readings (start c t0) = l :: lines ∧ _ :=
      head_report hseconds hstart
    rw [wrap64, wrap_eq_self (by omega) hf'] at hl
    have hall : ∀ l ∈ report c t0 final readings (start c t0), 0 < l.total := by
      have hincrease := htruth.increase
      rw [hlines] at hincrease ⊢
      intro l' hl'
      rcases List.mem_cons.mp hl' with rfl | hl'
      · omega
      · have hlt := List.rel_of_pairwise_cons hincrease hl'
        omega
    exact (hfits (fits_of_pos hseconds hpos hf' hstart hpos (by omega) hcount hall)).mp htruth
  · intro hend
    exact (hfits (hend ▸ hfinal)).mpr hend

/-- One interval is noticed, and the run ends with the second. -/
theorem truthful_second_interval :
    Truthful (report ⟨0, 1000⟩ 0 ⟨2, 2000⟩ [⟨1, 1000⟩] (start ⟨0, 1000⟩ 0)) := by
  refine (truthful_iff rfl (by decide) (by decide) (by decide) (by decide) (by decide)).mpr ?_
  refine ⟨1, rfl, ?_, fun h => absurd h.1 (by decide)⟩
  unfold Reached
  decide

/-- The run ends when the interval has been noticed. -/
theorem final_report_too_many :
    report ⟨0, 1000⟩ 0 ⟨2, 1000⟩ [⟨1, 1000⟩] (start ⟨0, 1000⟩ 0) = [⟨1000, 1000⟩, ⟨2000, 1000⟩] ∧
      ¬ Truthful (report ⟨0, 1000⟩ 0 ⟨2, 1000⟩ [⟨1, 1000⟩] (start ⟨0, 1000⟩ 0)) := by
  have hreport : report ⟨0, 1000⟩ 0 ⟨2, 1000⟩ [⟨1, 1000⟩] (start ⟨0, 1000⟩ 0) =
      [⟨1000, 1000⟩, ⟨2000, 1000⟩] := by decide
  refine ⟨hreport, fun htruth => ?_⟩
  have hle := htruth.le_done ⟨2000, 1000⟩ (by rw [hreport]; simp)
  exact absurd hle (by decide)

end TokuQa.MongoIibench.FinalReport
