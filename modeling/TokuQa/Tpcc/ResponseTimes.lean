import TokuQa.Lib.Binary64
import TokuQa.Lib.Cumulative
import TokuQa.Lib.JavaInt
import TokuQa.Lib.Run

/-!
# `rthist.c`: response times

Each transaction has a histogram of the times since the last checkpoint, in buckets of a
millisecond, and one of the times before. A checkpoint looks for the bucket up to which 99 % of the
times lie, and moves the counts from the one histogram to the other.

The 99 % are `total*99/100` in `int`s: rounded down, so that they are reached too early with few
times, and wrapped around with more than 21 million (`exactCheckpoint_iff`). Nothing is lost in
moving. A time of 2147484 seconds has no bucket: the conversion to `int` is undefined.

This is the histogram of one transaction. There are fewer than `2 ^ 31` times, as which no counter
overflows, so counters are natural numbers; a time is a `double`.
-/

set_option autoImplicit false

namespace TokuQa.Tpcc.ResponseTimes

open TokuQa.Lib

/-- `REC_PER_SEC`. -/
def recPerSec : Nat := 1000

/-- `MAXREC * REC_PER_SEC`. -/
def buckets : Nat := 20 * recPerSec

/-- What is kept of a transaction. -/
structure RtHist where
  totalHist : List Nat
  curHist : List Nat
  curMaxRt : ℚ
deriving DecidableEq

/-- `hist_init`. -/
def histInit : RtHist := ⟨List.replicate buckets 0, List.replicate buckets 0, 0⟩

/-- The product that is converted to an `int`. -/
def scaled (rtclk : ℚ) : ℚ := roundDouble (rtclk * recPerSec)

/-- It becomes an index of the array. -/
def InRange (rtclk : ℚ) : Prop := -1 < scaled rtclk ∧ scaled rtclk < 2 ^ 31

instance instDecidableInRange (rtclk : ℚ) : Decidable (InRange rtclk) :=
  inferInstanceAs (Decidable (_ ∧ _))

/-- The bucket of a time: the last one has all that are longer. -/
def bucketOf (rtclk : ℚ) : Nat :=
  let i := ⌊scaled rtclk⌋.toNat
  if buckets ≤ i then buckets - 1 else i

def histInc (rtclk : ℚ) (s : RtHist) : Option RtHist :=
  if InRange rtclk then
    some { s with
      curMaxRt := if s.curMaxRt < rtclk then rtclk else s.curMaxRt
      curHist := s.curHist.modify (bucketOf rtclk) (· + 1) }
  else none

/-- `total*99/100`. -/
def threshold (total : Nat) : Int := (wrap32 (total * 99)).tdiv 100

/-- `hist_ckp`: what it returns, and the histograms. -/
def histCkp (s : RtHist) : ℚ × RtHist :=
  let line := firstReaching (fun tmp => threshold s.curHist.sum ≤ tmp) 0 0 s.curHist
  (roundDouble (line / recPerSec),
    { s with
      totalHist := List.zipWith (· + ·) s.totalHist s.curHist
      curHist := List.replicate s.curHist.length 0 })

inductive HistCall where
  | inc (rtclk : ℚ)
  | ckp
deriving DecidableEq

def histCall : HistCall → RtHist → Option RtHist
  | .inc rtclk, s => histInc rtclk s
  | .ckp, s => some (histCkp s).2

/-! ## The samples -/

/-- The buckets of the times before the last checkpoint, and of those since then. -/
structure Samples where
  before : List Nat
  since : List Nat

def Samples.next (x : Samples) : HistCall → Samples
  | .inc rtclk => { x with since := x.since ++ [bucketOf rtclk] }
  | .ckp => ⟨x.before ++ x.since, []⟩

/-- The samples of a run. -/
def samples (calls : List HistCall) : Samples := calls.foldl Samples.next ⟨[], []⟩

/-- The least bucket up to which 99 % of the samples lie. -/
def IsLine (since : List Nat) (line : Nat) : Prop :=
  IsLeast {i | i < buckets ∧ 99 * since.length ≤ 100 * since.countP (· ≤ i)} line

/-- **The checkpoint behind the calls is exact**: it returns the bucket up to which 99 % of the
samples since the last one lie, in seconds, and moves every sample. -/
def ExactCheckpoint (calls : List HistCall) : Prop :=
  ∃ s, run histCall calls histInit = some s ∧
    (∃ line, IsLine (samples calls).since line ∧
      (histCkp s).1 = roundDouble (line / recPerSec)) ∧
    (histCkp s).2.totalHist =
      counts buckets ((samples calls).before ++ (samples calls).since) ∧
    (histCkp s).2.curHist = List.replicate buckets 0

/-- A number of samples up to a bucket that reaches the threshold is 99 % of them. -/
def Reached99 (since : List Nat) : Prop :=
  ∀ i < buckets, threshold since.length ≤ since.countP (· ≤ i) →
    99 * since.length ≤ 100 * since.countP (· ≤ i)

/-! ## The histograms -/

section

variable {x : Samples} {s s' : RtHist} {calls : List HistCall} {c : HistCall}

/-- The histograms are those of the samples. -/
structure Counts (s : RtHist) (x : Samples) : Prop where
  since : s.curHist = counts buckets x.since
  before : s.totalHist = counts buckets x.before
  lt : ∀ i ∈ x.since, i < buckets

theorem bucketOf_lt (rtclk : ℚ) : bucketOf rtclk < buckets := by
  have hpos : 0 < buckets := by decide
  unfold bucketOf
  dsimp only
  split <;> omega

theorem Counts.init : Counts histInit ⟨[], []⟩ :=
  ⟨(counts_nil buckets).symm, (counts_nil buckets).symm, nofun⟩

/-- What a checkpoint leaves. -/
theorem Counts.ckp (h : Counts s x) : Counts (histCkp s).2 (x.next .ckp) := by
  refine ⟨?_, ?_, nofun⟩
  · show List.replicate s.curHist.length 0 = counts buckets []
    rw [h.since, length_counts, counts_nil]
  · show List.zipWith (· + ·) s.totalHist s.curHist = counts buckets (x.before ++ x.since)
    rw [h.since, h.before, counts_append]

theorem Counts.call (h : Counts s x) (hcall : histCall c s = some s') : Counts s' (x.next c) := by
  cases c with
  | inc rtclk =>
    rw [histCall, histInc] at hcall
    split at hcall
    · cases hcall
      refine ⟨?_, h.before, fun i hi => ?_⟩
      · show s.curHist.modify (bucketOf rtclk) (· + 1) =
          counts buckets (x.since ++ [bucketOf rtclk])
        rw [h.since, counts_concat]
      · rcases List.mem_append.mp hi with hi | hi
        · exact h.lt i hi
        · rw [List.mem_singleton.mp hi]
          exact bucketOf_lt rtclk
    · nomatch hcall
  | ckp =>
    cases hcall
    exact h.ckp

theorem counts_run (h : run histCall calls histInit = some s) : Counts s (samples calls) :=
  run_simulates (fun hR hcall => hR.call hcall) Counts.init h

/-- A run goes on as long as each time has a bucket. -/
theorem run_ends_iff (s : RtHist) :
    (∃ s', run histCall calls s = some s') ↔ ∀ rtclk, .inc rtclk ∈ calls → InRange rtclk := by
  induction calls generalizing s with
  | nil => exact iff_of_true ⟨s, rfl⟩ nofun
  | cons c calls ih =>
    cases c with
    | inc rtclk =>
      by_cases hin : InRange rtclk
      · rw [run, histCall, histInc, if_pos hin, Option.bind_some, ih]
        simp [hin]
      · rw [run, histCall, histInc, if_neg hin, Option.bind_none]
        refine iff_of_false ?_ fun h => hin (h rtclk List.mem_cons_self)
        rintro ⟨s', h⟩
        cases h
    | ckp =>
      rw [run, histCall, Option.bind_some, ih]
      simp

/-! ## The line -/

/-- 99 % reach the threshold, also where it has wrapped around. -/
theorem threshold_le {n k : Nat} (h : 99 * n ≤ 100 * k) : threshold n ≤ k := by
  have hwrap : wrap32 (n * 99) ≤ n * 99 := by
    by_cases hfit : (n : Int) * 99 < 2 ^ 31
    · exact (wrap_eq_self (by omega) hfit).le
    · have hlt : wrap32 (n * 99) < 2 ^ 31 := wrap_lt 31 _
      omega
  have hdiv := Int.mul_tdiv_add_tmod (wrap32 (n * 99)) 100
  have hgt := Int.lt_tmod_of_pos (wrap32 (n * 99)) (show (0 : Int) < 100 by decide)
  rw [threshold]
  rcases lt_or_ge (wrap32 (n * 99)) 0 with hneg | hnonneg
  · omega
  · have hmod := Int.tmod_nonneg 100 hnonneg
    omega

/-- Without a wrap-around it is 99 %, rounded down. -/
theorem threshold_eq {n : Nat} (h : n * 99 < 2 ^ 31) : threshold n = (n * 99 / 100 : Nat) := by
  have hwrap : wrap32 (n * 99) = (n * 99 : Nat) := wrap_eq_self (by omega) (by omega)
  rw [threshold, hwrap]
  rfl

/-- The buckets are far enough apart for their times to be told apart. -/
theorem returned_injective {a b : Nat} (ha : a ≤ buckets) (hb : b ≤ buckets)
    (h : roundDouble ((a : ℚ) / recPerSec) = roundDouble ((b : ℚ) / recPerSec)) : a = b := by
  have hnear : ∀ n ≤ buckets, |roundDouble ((n : ℚ) / recPerSec) - (n : ℚ) / recPerSec| ≤
      1 / 10000 := by
    intro n hn
    have hnonneg : (0 : ℚ) ≤ (n : ℚ) / recPerSec := by positivity
    refine (abs_roundBits_sub_le_mul 52 hnonneg).trans ?_
    have hcast : (n : ℚ) ≤ 20000 := by exact_mod_cast hn
    have hsec : ((recPerSec : Nat) : ℚ) = 1000 := rfl
    rw [hsec, div_div, div_le_div_iff₀ (by positivity) (by norm_num)]
    norm_num
    linarith
  have hsec : ((recPerSec : Nat) : ℚ) = 1000 := rfl
  have hna := abs_le.mp (hnear a ha)
  have hnb := abs_le.mp (hnear b hb)
  rw [h, hsec] at hna
  rw [hsec] at hnb
  by_contra hne
  rcases Nat.lt_or_gt_of_ne hne with hlt | hgt
  · have hcast : (a : ℚ) + 1 ≤ b := by exact_mod_cast hlt
    linarith [hna.1, hna.2, hnb.1, hnb.2]
  · have hcast : (b : ℚ) + 1 ≤ a := by exact_mod_cast hgt
    linarith [hna.1, hna.2, hnb.1, hnb.2]

/-- Where the loop of a checkpoint stops. -/
def lineOf (since : List Nat) : Nat :=
  firstReaching (fun tmp => threshold since.length ≤ tmp) 0 0 (counts buckets since)

theorem lineOf_le (since : List Nat) : lineOf since ≤ buckets := by
  have hstop : firstReaching (fun tmp => threshold since.length ≤ tmp) ([] : List Nat).sum
      ([] : List Nat).length (counts buckets since) = lineOf since := rfl
  have hspec := firstReaching_spec [] (counts buckets since) hstop
  rw [List.nil_append, length_counts] at hspec
  exact hspec.2.1

/-- When the loop stops where it should. -/
theorem isLine_lineOf_iff {since : List Nat} (h : ∀ i ∈ since, i < buckets) :
    IsLine since (lineOf since) ↔ Reached99 since := by
  have hreached : ∀ {a b : Nat}, decide (threshold since.length ≤ a) = true → a ≤ b →
      decide (threshold since.length ≤ b) = true := fun ha hle =>
    decide_eq_true ((of_decide_eq_true ha).trans (Int.ofNat_le.mpr hle))
  have hwanted : ∀ {a b : Nat}, 99 * since.length ≤ 100 * a → a ≤ b →
      99 * since.length ≤ 100 * b := by
    intro a b ha hle
    omega
  have hsum : 99 * since.length ≤ 100 * ([] ++ counts buckets since).sum := by
    rw [List.nil_append, sum_counts_of_lt h]
    omega
  have hne : [] ++ counts buckets since ≠ [] := by
    rw [List.nil_append, ← List.length_pos_iff, length_counts]
    decide
  have hiff := isLeast_firstReaching_iff [] (counts buckets since) hreached hwanted hsum hne
  simp only [List.nil_append, List.sum_nil, List.length_nil, length_counts, decide_eq_true_eq]
    at hiff
  have hset : {i | i < buckets ∧ 99 * since.length ≤ 100 * cumulative (counts buckets since) i} =
      {i | i < buckets ∧ 99 * since.length ≤ 100 * since.countP (· ≤ i)} := by
    ext i
    exact and_congr_right fun hi => by rw [cumulative_counts hi]
  rw [hset] at hiff
  rw [IsLine, lineOf, hiff]
  constructor
  · rintro ⟨-, hsame⟩ i hi
    rw [← cumulative_counts hi]
    exact (hsame i (Nat.zero_le i) hi).mpr
  · intro hall
    refine ⟨fun i hi => absurd hi (Nat.not_lt_zero i), fun i _ hi => ?_⟩
    have hcount := hall i hi
    rw [← cumulative_counts hi] at hcount
    exact ⟨threshold_le, hcount⟩

/-- When the line that is returned is right. -/
theorem isLine_iff (h : Counts s x) :
    (∃ line, IsLine x.since line ∧ (histCkp s).1 = roundDouble (line / recPerSec)) ↔
      Reached99 x.since := by
  have hreturned : (histCkp s).1 = roundDouble (lineOf x.since / recPerSec) := by
    rw [histCkp, h.since, sum_counts_of_lt h.lt]
    rfl
  rw [← isLine_lineOf_iff h.lt, hreturned]
  constructor
  · rintro ⟨line, hline, hsame⟩
    rw [returned_injective (lineOf_le x.since) hline.1.1.le hsame]
    exact hline
  · exact fun hline => ⟨_, hline, rfl⟩

theorem reached99_of_exact (h : ExactCheckpoint calls) : Reached99 (samples calls).since := by
  obtain ⟨s, hrun, hline, -⟩ := h
  exact (isLine_iff (counts_run hrun)).mp hline

/-- **When a checkpoint is exact**: when each time before it has a bucket, and none of the numbers
of samples that reach the threshold is less than 99 % of them. -/
theorem exactCheckpoint_iff (calls : List HistCall) :
    ExactCheckpoint calls ↔ (∀ rtclk, .inc rtclk ∈ calls → InRange rtclk) ∧
      Reached99 (samples calls).since := by
  constructor
  · intro h
    have hrun : ∃ s, run histCall calls histInit = some s := h.imp fun _ hs => hs.1
    exact ⟨(run_ends_iff histInit).mp hrun, reached99_of_exact h⟩
  · rintro ⟨hin, hreached⟩
    obtain ⟨s, hrun⟩ := (run_ends_iff histInit).mpr hin
    have hcounts := counts_run hrun
    refine ⟨s, hrun, (isLine_iff hcounts).mpr hreached, hcounts.ckp.before, ?_⟩
    rw [hcounts.ckp.since]
    exact counts_nil buckets

end

/-- One time, of a second: the bucket 0 is returned, below which there is nothing. -/
theorem one_sample_lost : (samples [.inc 1]).since = [1000] ∧ ¬ ExactCheckpoint [.inc 1] := by
  have hscaled : scaled 1 = (1000 : Nat) := by
    rw [scaled, one_mul]
    exact roundBits_natCast (by decide)
  have hsamples : (samples [.inc 1]).since = [1000] := by
    show [] ++ [bucketOf 1] = [1000]
    rw [bucketOf, hscaled, Int.floor_natCast]
    rfl
  refine ⟨hsamples, fun h => ?_⟩
  have hreached := reached99_of_exact h
  rw [hsamples] at hreached
  exact absurd (hreached 0 (by decide) (by decide)) (by decide)

end TokuQa.Tpcc.ResponseTimes
