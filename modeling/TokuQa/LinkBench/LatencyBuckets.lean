import Mathlib.Order.Basic
import Mathlib.Order.Monotone.Defs
import Mathlib.Algebra.Order.Group.Nat

/-!
# The buckets of `LatencyStats.java`

A latency is counted in one of `NUM_BUCKETS` buckets: ten of a tenth of a millisecond, then one for
every millisecond, for every 100 milliseconds and for every second, and a last one for all from 10
seconds on. `latencyToBucket` finds the bucket of a latency and `bucketBound` the latencies of a
bucket, each with constants of its own; that they agree is the fact the statistics rest on
(`mem_bucketBound_iff`).

A latency is the time between two readings of a clock, in microseconds: a natural number. No
intermediate value leaves its type.
-/

set_option autoImplicit false

namespace TokuQa.LinkBench.LatencyStats

/-- "Sub-ms granularity". -/
def subMsBuckets : Nat := 10

/-- "ms-granularity buckets". -/
def msBuckets : Nat := 99

/-- "100ms-granularity buckets". -/
def hundredMsBuckets : Nat := 9

/-- "1s-granularity buckets". -/
def secBuckets : Nat := 9

def numBuckets : Nat := subMsBuckets + msBuckets + hundredMsBuckets + secBuckets + 1

def latencyToBucket (microTime : Nat) : Nat :=
  let ms := 1000
  let msTime := microTime / ms
  if msTime = 0 then microTime / 100
  else if msTime < 100 then
    let msBucket := msTime - 1
    subMsBuckets + msBucket
  else if msTime < 1000 then
    let hundredMSBucket := msTime / 100 - 1
    subMsBuckets + msBuckets + hundredMSBucket
  else if msTime < 10000 then
    let secBucket := msTime / 1000 - 1
    subMsBuckets + msBuckets + hundredMsBuckets + secBucket
  else numBuckets - 1

/-- "inclusive min and exclusive max time in microsecs for bucket". The seconds are counted with
`SEC_BUCKETS` where `HUNDREDMS_BUCKETS` is meant, which is the same number. -/
def bucketBound (bucket : Nat) : Nat × Nat :=
  let ms := 1000
  let s := ms * 1000
  if bucket < subMsBuckets then (bucket * 100, (bucket + 1) * 100)
  else if bucket < subMsBuckets + msBuckets then
    ((bucket - subMsBuckets + 1) * ms, (bucket - subMsBuckets + 2) * ms)
  else if bucket < subMsBuckets + msBuckets + hundredMsBuckets then
    let hundredMS := bucket - subMsBuckets - msBuckets + 1
    (hundredMS * 100 * ms, (hundredMS + 1) * 100 * ms)
  else if bucket < subMsBuckets + msBuckets + hundredMsBuckets + secBuckets then
    let secBucket := bucket - subMsBuckets - msBuckets - secBuckets + 1
    (secBucket * s, (secBucket + 1) * s)
  else ((secBuckets + 1) * s, 100 * s)

/-- 100 seconds: where the last bucket ends, though longer latencies are counted in it too. -/
def lastBound : Nat := 100 * 1000 * 1000

def Within (t : Nat) (bounds : Nat × Nat) : Prop := bounds.1 ≤ t ∧ t < bounds.2

instance (t : Nat) (bounds : Nat × Nat) : Decidable (Within t bounds) :=
  inferInstanceAs (Decidable (_ ∧ _))

section

variable {t t' b : Nat}

/-- The five regimes of `latencyToBucket`. -/
theorem latencyToBucket_cases (t : Nat) :
    (t < 1000 ∧ latencyToBucket t = t / 100) ∨
    (1000 ≤ t ∧ t < 100000 ∧ latencyToBucket t = 9 + t / 1000) ∨
    (100000 ≤ t ∧ t < 1000000 ∧ latencyToBucket t = 108 + t / 100000) ∨
    (1000000 ≤ t ∧ t < 10000000 ∧ latencyToBucket t = 117 + t / 1000000) ∨
    (10000000 ≤ t ∧ latencyToBucket t = 127) := by
  simp only [latencyToBucket, numBuckets, subMsBuckets, msBuckets, hundredMsBuckets, secBuckets]
  split_ifs <;> omega

/-- The five regimes of `bucketBound`. -/
theorem bucketBound_cases (b : Nat) :
    (b < 10 ∧ bucketBound b = (b * 100, (b + 1) * 100)) ∨
    (10 ≤ b ∧ b < 109 ∧ bucketBound b = ((b - 9) * 1000, (b - 8) * 1000)) ∨
    (109 ≤ b ∧ b < 118 ∧ bucketBound b = ((b - 108) * 100000, (b - 107) * 100000)) ∨
    (118 ≤ b ∧ b < 127 ∧ bucketBound b = ((b - 117) * 1000000, (b - 116) * 1000000)) ∨
    (127 ≤ b ∧ bucketBound b = (10000000, 100000000)) := by
  simp only [bucketBound, subMsBuckets, msBuckets, hundredMsBuckets, secBuckets]
  split_ifs <;> grind

theorem latencyToBucket_lt (t : Nat) : latencyToBucket t < numBuckets := by
  have hnum : numBuckets = 128 := rfl
  have ht := latencyToBucket_cases t
  omega

/-- Each regime ends where the bounds of its last bucket do. -/
theorem bounds_latencyToBucket (t : Nat) :
    (bucketBound (latencyToBucket t)).1 ≤ t ∧
      (t < lastBound → t < (bucketBound (latencyToBucket t)).2) := by
  have hlast : lastBound = 100000000 := rfl
  have ht := latencyToBucket_cases t
  rcases bucketBound_cases (latencyToBucket t) with ⟨_, hb⟩ | ⟨_, _, hb⟩ | ⟨_, _, hb⟩ | ⟨_, _, hb⟩ |
    ⟨_, hb⟩ <;> rw [hb] <;> omega

/-- Consecutive buckets meet. -/
theorem bucketBound_meet (hb : b + 1 < numBuckets) :
    (bucketBound b).2 = (bucketBound (b + 1)).1 := by
  have hnum : numBuckets = 128 := rfl
  rcases bucketBound_cases b with ⟨_, h⟩ | ⟨_, _, h⟩ | ⟨_, _, h⟩ | ⟨_, _, h⟩ | ⟨_, h⟩ <;>
    rcases bucketBound_cases (b + 1) with ⟨_, h'⟩ | ⟨_, _, h'⟩ | ⟨_, _, h'⟩ | ⟨_, _, h'⟩ | ⟨_, h'⟩ <;>
    rw [h, h'] <;> omega

theorem latencyToBucket_mono : Monotone latencyToBucket := by
  intro t t' htt'
  have ht := latencyToBucket_cases t
  have ht' := latencyToBucket_cases t'
  omega

/-- **The bounds of a bucket are those of the latencies counted in it.** -/
theorem within_bucketBound_iff (hb : b < numBuckets) (ht : t < lastBound) :
    Within t (bucketBound b) ↔ latencyToBucket t = b := by
  have hnum : numBuckets = 128 := rfl
  constructor
  · intro h
    have hcases := latencyToBucket_cases t
    unfold Within at h
    rcases bucketBound_cases b with ⟨_, hbound⟩ | ⟨_, _, hbound⟩ | ⟨_, _, hbound⟩ |
      ⟨_, _, hbound⟩ | ⟨_, hbound⟩ <;> rw [hbound] at h <;> omega
  · rintro rfl
    have hbounds := bounds_latencyToBucket t
    exact ⟨hbounds.1, hbounds.2 ht⟩

/-- **The buckets partition time.** -/
theorem buckets_partition (t t' b : Nat) :
    (latencyToBucket t < numBuckets ∧ (bucketBound (latencyToBucket t)).1 ≤ t ∧
      (t < lastBound → t < (bucketBound (latencyToBucket t)).2)) ∧
    (t ≤ t' → latencyToBucket t ≤ latencyToBucket t') ∧
    (b + 1 < numBuckets → (bucketBound b).2 = (bucketBound (b + 1)).1) :=
  ⟨⟨latencyToBucket_lt t, bounds_latencyToBucket t⟩, fun h => latencyToBucket_mono h,
    bucketBound_meet⟩

end

end TokuQa.LinkBench.LatencyStats
