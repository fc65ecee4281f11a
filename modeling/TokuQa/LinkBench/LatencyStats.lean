import Mathlib.Algebra.BigOperators.Field
import Mathlib.Algebra.Order.Field.Rat
import TokuQa.Lib.Binary64
import TokuQa.Lib.OrderStat
import TokuQa.Lib.Tally
import TokuQa.LinkBench.LatencyBuckets

/-!
# `LatencyStats.java` and `RunningMean.java`

Every thread counts the latencies of its operations in buckets of its own and keeps a running mean
of them for every type of operation. When all threads are done the counts are added up and the
means are weighted, and a percentile is looked up in the sums of the counts.

What is merged does not depend on how the operations were split up among the threads
(`finalMeans_eq`): every call adds to one of the threads' totals, and the merged total is their
sum. A percentile is another matter. The rank it is looked up by is rounded down, so of few samples
it can be 0, and then the first bucket is found whatever was counted in it
(`percentile_iff`).

The means are exact; the rank is not, it is the `double` product that is rounded down. Counts are
natural numbers, fewer than a `long` holds.
-/

set_option autoImplicit false

namespace TokuQa.LinkBench

open TokuQa.Lib

/-- "Various operation types for which we want to gather stats". -/
inductive LinkBenchOp where
  | addNode
  | updateNode
  | deleteNode
  | getNode
  | addLink
  | deleteLink
  | updateLink
  | countLink
  | multigetLink
  | getLinksList
  | loadNodeBulk
  | loadLink
  | loadLinksBulk
  | loadCountsBulk
  | rangeSize
  | loadLinksBulkNlinks
  | loadCountsBulkNlinks
  | unknown
deriving DecidableEq

/-- "Keep track of mean in numerically stable way". -/
structure RunningMean where
  /-- "Number of samples". -/
  n : Nat
  /-- "First sample". -/
  v1 : ℚ
  /-- "sum of difference". -/
  running : ℚ
  n_pos : 0 < n

namespace RunningMean

def new (v1 : ℚ) : RunningMean := ⟨1, v1, 0, Nat.one_pos⟩

def addSample (m : RunningMean) (vi : ℚ) : RunningMean :=
  { m with n := m.n + 1, running := m.running + (vi - m.v1), n_pos := Nat.succ_pos m.n }

def mean (m : RunningMean) : ℚ := m.v1 + m.running / m.n

def samples (m : RunningMean) : Nat := m.n

end RunningMean

structure LatencyStats (maxThreads : Nat) where
  means : Fin maxThreads → LinkBenchOp → Option RunningMean
  bucketCounts : Fin maxThreads → LinkBenchOp → Nat → Nat
  maxLatency : Fin maxThreads → LinkBenchOp → Nat

/-- What a thread hands to `recordLatency`. -/
structure Sample where
  type : LinkBenchOp
  microtimetaken : Nat

namespace LatencyStats

variable {maxThreads : Nat}

def new (maxThreads : Nat) : LatencyStats maxThreads :=
  { means := fun _ _ => none, bucketCounts := fun _ _ _ => 0, maxLatency := fun _ _ => 0 }

/-- A call by a thread, with its number. -/
def recordLatency (s : LatencyStats maxThreads) (call : Fin maxThreads × Sample) :
    LatencyStats maxThreads :=
  let ⟨threadid, type, microtimetaken⟩ := call
  let bucket := latencyToBucket microtimetaken
  let timeMs : ℚ := microtimetaken / 1000
  { bucketCounts := fun thread op b =>
      if threadid = thread ∧ type = op ∧ bucket = b then s.bucketCounts thread op b + 1
      else s.bucketCounts thread op b
    means := fun thread op =>
      if threadid = thread ∧ type = op then
        some (match s.means thread op with
          | none => RunningMean.new timeMs
          | some m => m.addSample timeMs)
      else s.means thread op
    maxLatency := fun thread op =>
      if threadid = thread ∧ type = op ∧ s.maxLatency thread op < microtimetaken then
        microtimetaken
      else s.maxLatency thread op }

/-- After a sequence of calls. -/
def recorded (calls : List (Fin maxThreads × Sample)) : LatencyStats maxThreads :=
  calls.foldl recordLatency (new maxThreads)

/-- `sampleCounts`, as `calcMeans` fills it in. -/
def sampleCounts (s : LatencyStats maxThreads) (type : LinkBenchOp) : Nat :=
  (List.finRange maxThreads).foldl (fun samples thread =>
    match s.means thread type with
    | none => samples
    | some m => samples + m.samples) 0

/-- `finalMeans`, as `calcMeans` fills it in. -/
def finalMeans (s : LatencyStats maxThreads) (type : LinkBenchOp) : ℚ :=
  let samples := s.sampleCounts type
  (List.finRange maxThreads).foldl (fun weightedMean thread =>
    match s.means thread type with
    | none => weightedMean
    | some m => weightedMean + m.samples / samples * m.mean) 0

/-- `bucketCountsCumulative`, as `calcCumulativeBuckets` fills it in: the count that has been
reached after `bucket`. -/
def bucketCountsCumulative (s : LatencyStats maxThreads) (type : LinkBenchOp) (bucket : Nat) :
    Nat :=
  (List.range (bucket + 1)).foldl (fun count b =>
    (List.finRange maxThreads).foldl (fun count thread => count + s.bucketCounts thread type b)
      count) 0

/-- "the rank of the sample at the desired percentile": `(percentile / 100.0) * n`, cast to
`long`. -/
def neededRank (percentile n : Nat) : Nat :=
  min ⌊roundDouble (roundDouble (percentile / 100) * roundDouble n)⌋.toNat (2 ^ 63 - 1)

/-- No bucket is what the assertion is there for: "Should definitely be found". -/
def getBucketBounds (s : LatencyStats maxThreads) (type : LinkBenchOp) (percentile : Nat) :
    Option (Nat × Nat) :=
  let n := s.sampleCounts type
  ((List.range numBuckets).find? fun i =>
    neededRank percentile n ≤ s.bucketCountsCumulative type i).map bucketBound

/-- The latencies of one type, in the order of the calls. -/
def latencies (type : LinkBenchOp) (calls : List (Fin maxThreads × Sample)) : List Nat :=
  (calls.filter fun c => c.2.type = type).map fun c => c.2.microtimetaken

/-! ## What a call adds to -/

/-- The number of samples of a mean, which may not be there yet. -/
def count (m : Option RunningMean) : Nat := m.elim 0 RunningMean.n

/-- Their sum. -/
def total (m : Option RunningMean) : ℚ := m.elim 0 fun m => m.n * m.v1 + m.running

section

variable (type : LinkBenchOp) (calls : List (Fin maxThreads × Sample))

theorem count_recordLatency (s : LatencyStats maxThreads) (c : Fin maxThreads × Sample)
    (thread : Fin maxThreads) :
    count ((s.recordLatency c).means thread type) =
      count (s.means thread type) +
        if c.1 = thread then (if c.2.type = type then 1 else 0) else 0 := by
  simp only [recordLatency]
  by_cases hc : c.1 = thread ∧ c.2.type = type
  · rw [if_pos hc, if_pos hc.1, if_pos hc.2]
    cases s.means thread type <;> rfl
  · rw [if_neg hc]
    grind

theorem total_recordLatency (s : LatencyStats maxThreads) (c : Fin maxThreads × Sample)
    (thread : Fin maxThreads) :
    total ((s.recordLatency c).means thread type) = total (s.means thread type) +
      if c.1 = thread then (if c.2.type = type then (c.2.microtimetaken : ℚ) / 1000 else 0)
      else 0 := by
  simp only [recordLatency]
  by_cases hc : c.1 = thread ∧ c.2.type = type
  · rw [if_pos hc, if_pos hc.1, if_pos hc.2]
    cases s.means thread type with
    | none => simp [total, RunningMean.new]
    | some m =>
      simp only [total, RunningMean.addSample, Option.elim_some]
      push_cast
      ring
  · rw [if_neg hc]
    grind

theorem bucketCounts_recordLatency (s : LatencyStats maxThreads) (c : Fin maxThreads × Sample)
    (thread : Fin maxThreads) (b : Nat) :
    (s.recordLatency c).bucketCounts thread type b = s.bucketCounts thread type b +
      if c.1 = thread then
        (if c.2.type = type then (if latencyToBucket c.2.microtimetaken = b then 1 else 0) else 0)
      else 0 := by
  simp only [recordLatency]
  grind

/-! ## The merged totals -/

theorem countP_le_succ {α : Type} (f : α → Nat) (xs : List α) (k : Nat) :
    (xs.countP fun x => f x ≤ k + 1) =
      (xs.countP fun x => f x ≤ k) + xs.countP fun x => f x = k + 1 := by
  induction xs with
  | nil => rfl
  | cons x xs ih =>
    simp only [List.countP_cons, ih, decide_eq_true_eq]
    split_ifs <;> omega

/-- **The threads' totals add up to that of all calls**, whatever the threads. -/
theorem sum_recorded {M : Type} [AddCommMonoid M] {f : Fin maxThreads → LatencyStats maxThreads → M}
    {g : Nat → M} (zero : ∀ thread, f thread (new maxThreads) = 0)
    (add : ∀ s c thread, f thread (recordLatency s c) = f thread s +
      if c.1 = thread then (if c.2.type = type then g c.2.microtimetaken else 0) else 0) :
    ∑ thread, f thread (recorded calls) = ((latencies type calls).map g).sum := by
  have hsum := foldl_adds_parts (f := f)
    (g := fun x => if x.type = type then g x.microtimetaken else 0) add calls (new maxThreads)
  rw [recorded, hsum, Finset.sum_eq_zero fun thread _ => zero thread, zero_add, sum_map_ite,
    latencies, List.map_map]
  rfl

theorem sampleCounts_recorded :
    (recorded calls).sampleCounts type = (latencies type calls).length := by
  have hloop : (recorded calls).sampleCounts type =
      0 + ∑ thread, count ((recorded calls).means thread type) := by
    refine foldl_finRange (fun samples thread => ?_) 0
    cases (recorded calls).means thread type <;> rfl
  have hsum := sum_recorded (f := fun thread s => count (s.means thread type)) (g := fun _ => 1)
    type calls (fun _ => rfl) (count_recordLatency type)
  rw [hloop, hsum, zero_add, List.map_const', List.sum_replicate, smul_eq_mul, mul_one]

theorem sum_total_recorded :
    ∑ thread, total ((recorded calls).means thread type) =
      ((latencies type calls).map fun t : Nat => (t : ℚ) / 1000).sum :=
  sum_recorded (f := fun thread s => total (s.means thread type)) type calls (fun _ => rfl)
    (total_recordLatency type)

theorem sum_bucketCounts_recorded (b : Nat) :
    ∑ thread, (recorded calls).bucketCounts thread type b =
      (latencies type calls).countP fun t => latencyToBucket t = b := by
  have hsum := sum_recorded (f := fun thread s => s.bucketCounts thread type b)
    (g := fun t => if latencyToBucket t = b then 1 else 0) type calls (fun _ => rfl)
    fun s c thread => bucketCounts_recordLatency type s c thread b
  rw [hsum, sum_map_ite, List.map_const', List.sum_replicate, smul_eq_mul, mul_one,
    List.countP_eq_length_filter]

/-- **After a bucket as many are counted as are in it or one before it.** -/
theorem bucketCountsCumulative_recorded (bucket : Nat) :
    (recorded calls).bucketCountsCumulative type bucket =
      (latencies type calls).countP fun t => latencyToBucket t ≤ bucket := by
  have hloop : (recorded calls).bucketCountsCumulative type bucket =
      0 + ((List.range (bucket + 1)).map fun b =>
        (latencies type calls).countP fun t => latencyToBucket t = b).sum := by
    refine foldl_adds (f := id) (fun count b => ?_) _ 0
    rw [← sum_bucketCounts_recorded]
    exact foldl_finRange (fun _ _ => rfl) count
  rw [hloop, zero_add]
  clear hloop
  induction bucket with
  | zero => simp
  | succ bucket ih =>
    rw [List.range_succ, List.map_append, List.sum_append, ih, List.map_singleton,
      List.sum_singleton, ← countP_le_succ]

/-! ## The means -/

/-- A mean counts for as much as its samples add up to. -/
theorem weighted_mean (m : RunningMean) (samples : ℚ) :
    m.samples / samples * m.mean = total (some m) / samples := by
  have hn : (m.n : ℚ) ≠ 0 := by exact_mod_cast m.n_pos.ne'
  have hmean : m.n * m.mean = total (some m) := by
    rw [RunningMean.mean, mul_add, mul_div_cancel₀ _ hn]
    rfl
  rw [RunningMean.samples, div_mul_eq_mul_div, hmean]

theorem finalMeans_recorded :
    (recorded calls).finalMeans type =
      ((latencies type calls).map fun t : Nat => (t : ℚ) / 1000).sum /
        (latencies type calls).length := by
  have hloop : (recorded calls).finalMeans type =
      0 + ∑ thread, total ((recorded calls).means thread type) /
        (recorded calls).sampleCounts type := by
    refine foldl_finRange (fun weightedMean thread => ?_) 0
    cases (recorded calls).means thread type with
    | none => simp [total]
    | some m => exact congrArg (weightedMean + ·) (weighted_mean m _)
  rw [hloop, zero_add, ← Finset.sum_div, sum_total_recorded, sampleCounts_recorded]

/-- **The merged means are exact**, and the same for all ways to split up and order the calls. -/
theorem finalMeans_eq :
    (recorded calls).sampleCounts type = (latencies type calls).length ∧
    (recorded calls).finalMeans type =
      ((latencies type calls).map fun t : Nat => (t : ℚ) / 1000).sum /
        (latencies type calls).length ∧
    ∀ {k : Nat} (calls' : List (Fin k × Sample)),
      (calls'.map Prod.snd).Perm (calls.map Prod.snd) →
        (recorded calls').sampleCounts type = (recorded calls).sampleCounts type ∧
        (recorded calls').finalMeans type = (recorded calls).finalMeans type := by
  refine ⟨sampleCounts_recorded type calls, finalMeans_recorded type calls, ?_⟩
  intro k calls' hperm
  have hlatencies : (latencies type calls').Perm (latencies type calls) := by
    have hfilter := (hperm.filter fun c => c.type = type).map Sample.microtimetaken
    rw [List.filter_map, List.filter_map, List.map_map, List.map_map] at hfilter
    exact hfilter
  have hmap := hlatencies.map fun t : Nat => (t : ℚ) / 1000
  rw [sampleCounts_recorded, sampleCounts_recorded, finalMeans_recorded, finalMeans_recorded,
    hlatencies.length_eq, hmap.sum_eq]
  exact ⟨rfl, rfl⟩

/-! ## The percentiles -/

/-- The bucket that is found for a rank: that of the latency of this rank, and the first one for
rank 0. -/
theorem find_bucket (rank : Nat) :
    ((List.range numBuckets).find? fun i =>
        rank ≤ (recorded calls).bucketCountsCumulative type i) =
      if rank = 0 then some 0 else (ofRank (latencies type calls) rank).map latencyToBucket := by
  simp only [bucketCountsCumulative_recorded]
  split_ifs with hrank
  · rw [List.find?_range_eq_some]
    subst hrank
    simp [numBuckets]
  · have hpos : 1 ≤ rank := Nat.one_le_iff_ne_zero.mpr hrank
    have hcount : ∀ {u}, ofRank (latencies type calls) rank = some u → ∀ i,
        rank ≤ ((latencies type calls).countP fun t => latencyToBucket t ≤ i) ↔
          latencyToBucket u ≤ i := by
      intro u hu i
      refine (le_countP_iff (fun a b hab hb => ?_) hpos hu).trans decide_eq_true_iff
      exact decide_eq_true ((latencyToBucket_mono hab).trans (of_decide_eq_true hb))
    cases hu : ofRank (latencies type calls) rank with
    | some u =>
      rw [Option.map_some, List.find?_range_eq_some]
      simp only [hcount hu]
      refine ⟨decide_eq_true le_rfl, List.mem_range.mpr (latencyToBucket_lt u), fun j hj => ?_⟩
      simpa using hj
    | none =>
      have hlen : (latencies type calls).length < rank := by
        by_contra hle
        obtain ⟨u, hsome⟩ := ofRank_isSome hpos (not_lt.mp hle)
        exact absurd (hu.symm.trans hsome) (by simp)
      rw [Option.map_none, List.find?_eq_none]
      intro i _ hi
      have hle := (of_decide_eq_true hi).trans List.countP_le_length
      omega

/-- Rounding takes a rank past the samples only where it does so with their number. -/
theorem neededRank_le {percentile n : Nat} (hle : percentile ≤ 100) (hn : n < 2 * 2 ^ 52) :
    neededRank percentile n ≤ n := by
  have hexact : roundDouble n = n := roundBits_natCast hn
  have hratio : (percentile : ℚ) / 100 ≤ 1 := by
    rw [div_le_one (by norm_num)]
    exact_mod_cast hle
  have hproduct : roundDouble (roundDouble (percentile / 100) * n) ≤ n :=
    roundBits_mul_le (by positivity) hratio hn
  have hfloor : ⌊roundDouble (roundDouble (percentile / 100) * n)⌋ ≤ n := by
    exact_mod_cast Int.floor_le_floor hproduct |>.trans_eq (Int.floor_natCast n)
  rw [neededRank, hexact]
  omega

/-- **A bucket is found** for every percentile, of samples that a `double` counts exactly. -/
theorem getBucketBounds_isSome {percentile : Nat} (hle : percentile ≤ 100)
    (hn : (latencies type calls).length < 2 * 2 ^ 52) :
    ((recorded calls).getBucketBounds type percentile).isSome := by
  rw [getBucketBounds, Option.isSome_map, sampleCounts_recorded, find_bucket]
  split_ifs with hrank
  · rfl
  · obtain ⟨u, hu⟩ := ofRank_isSome (Nat.one_le_iff_ne_zero.mpr hrank) (neededRank_le hle hn)
    rw [hu]
    rfl

/-- The latency a percentile stands for: that of the rank of this percentage, rounded up. -/
def percentileLatency (xs : List Nat) (percentile : Nat) : Option Nat :=
  ofRank xs ⌈(percentile * xs.length : ℚ) / 100⌉₊

/-- The bounds of a bucket are found, and the latency is within them. -/
def Reported (s : LatencyStats maxThreads) (type : LinkBenchOp) (percentile t : Nat) : Prop :=
  ∃ bounds ∈ s.getBucketBounds type percentile, t < lastBound → Within t bounds

/-- The rank as it is computed is one of the samples', and theirs is the bucket of the latency `t`;
for rank 0, the latency is in the first bucket. -/
def RankFits (xs : List Nat) (percentile t : Nat) : Prop :=
  let rank := neededRank percentile xs.length
  rank ≤ xs.length ∧
    (t < lastBound →
      if rank = 0 then latencyToBucket t = 0
      else (ofRank xs rank).map latencyToBucket = some (latencyToBucket t))

/-- The bounds are those of the bucket that is found. -/
theorem reported_iff_found (s : LatencyStats maxThreads) (percentile t : Nat) :
    Reported s type percentile t ↔
      ∃ b ∈ (List.range numBuckets).find? fun i =>
          neededRank percentile (s.sampleCounts type) ≤ s.bucketCountsCumulative type i,
        t < lastBound → latencyToBucket t = b := by
  simp only [Reported, getBucketBounds, Option.mem_map, exists_exists_and_eq_and]
  refine exists_congr fun b => and_congr_right fun hb => imp_congr_right fun ht => ?_
  have hrange : b < numBuckets := List.mem_range.mp (List.mem_of_find?_eq_some hb)
  exact within_bucketBound_iff hrange ht

theorem reported_iff (percentile t : Nat) :
    Reported (recorded calls) type percentile t ↔
      RankFits (latencies type calls) percentile t := by
  rw [reported_iff_found, sampleCounts_recorded, find_bucket, RankFits]
  generalize neededRank percentile (latencies type calls).length = rank
  by_cases hrank : rank = 0
  · subst hrank
    simp
  · simp only [if_neg hrank]
    have hpos : 1 ≤ rank := Nat.one_le_iff_ne_zero.mpr hrank
    constructor
    · rintro ⟨b, hb, ht⟩
      obtain ⟨u, hu, rfl⟩ := Option.mem_map.mp hb
      refine ⟨?_, fun hlt => ?_⟩
      · exact ofRank_le_length hu
      · rw [ht hlt]
        exact hb
    · rintro ⟨hle, ht⟩
      obtain ⟨u, hu⟩ := ofRank_isSome hpos hle
      rw [hu, Option.map_some] at ht ⊢
      exact ⟨latencyToBucket u, rfl, fun hlt => (Option.some.inj (ht hlt)).symm⟩

/-- **Where the reported percentiles are right.** The latency of the percentile is within the bounds
reported for it exactly when the rank as it is computed has the same bucket, where rank 0 has the
first one. -/
theorem percentile_iff (percentile : Nat) (hpos : 1 ≤ percentile) (hle : percentile ≤ 100)
    (hsamples : latencies type calls ≠ []) :
    (∃ t ∈ percentileLatency (latencies type calls) percentile,
        Reported (recorded calls) type percentile t) ↔
      ∀ t ∈ percentileLatency (latencies type calls) percentile,
        RankFits (latencies type calls) percentile t := by
  have hlen : 0 < (latencies type calls).length := List.length_pos_iff.mpr hsamples
  have hlenq : (0 : ℚ) < (latencies type calls).length := by exact_mod_cast hlen
  have hposq : (0 : ℚ) < percentile := by exact_mod_cast hpos
  have hleq : (percentile : ℚ) ≤ 100 := by exact_mod_cast hle
  obtain ⟨t, ht⟩ : ∃ t, percentileLatency (latencies type calls) percentile = some t := by
    refine ofRank_isSome ?_ ?_
    · exact Nat.one_le_ceil_iff.mpr (by positivity)
    · rw [Nat.ceil_le, div_le_iff₀ (by norm_num), mul_comm _ (100 : ℚ)]
      exact mul_le_mul_of_nonneg_right hleq hlenq.le
  rw [ht]
  simp only [Option.mem_some_iff, exists_eq_left', forall_eq', reported_iff]

end

/-- One operation that took 5 seconds: half of it is rank 0, which the first bucket has. -/
def oneCall : List (Fin 1 × Sample) := [(Fin.last 0, ⟨.addLink, 5000000⟩)]

theorem percentile_oneCall :
    (∃ t ∈ percentileLatency (latencies .addLink oneCall) 100,
        Reported (recorded oneCall) .addLink 100 t) ↔
      ∀ t ∈ percentileLatency (latencies .addLink oneCall) 100,
        RankFits (latencies .addLink oneCall) 100 t :=
  percentile_iff .addLink oneCall 100 (by decide) (by decide) (by decide)

theorem not_percentile : ¬ ∀ (calls : List (Fin 1 × Sample)) (type : LinkBenchOp)
    (percentile : Nat), 1 ≤ percentile → percentile ≤ 100 → latencies type calls ≠ [] →
      ∃ t ∈ percentileLatency (latencies type calls) percentile,
        Reported (recorded calls) type percentile t := by
  intro h
  obtain ⟨t, ht, hreported⟩ := h oneCall .addLink 50 (by decide) (by decide) (by decide)
  have htime : t = 5000000 := by
    have hlatency : percentileLatency (latencies .addLink oneCall) 50 = some 5000000 := by
      decide +kernel
    exact (Option.some.inj (hlatency.symm.trans ht)).symm
  subst htime
  have hrank : neededRank 50 (latencies .addLink oneCall).length = 0 := by decide +kernel
  have hfits := ((reported_iff _ _ _ _).mp hreported).2 (by decide)
  rw [hrank, if_pos rfl] at hfits
  exact absurd hfits (by decide)

end LatencyStats

end TokuQa.LinkBench
