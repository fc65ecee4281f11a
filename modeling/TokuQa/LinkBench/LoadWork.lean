import Mathlib.Data.Int.Range
import TokuQa.Lib.JavaInt
import TokuQa.Lib.WorkQueue

/-!
# How the load phase divides the id space

`enqueueLoadWork` of `LinkBenchDriver.java` cuts `[startid1, maxid1)` into chunks and puts
them, last chunk first, in one queue with a shutdown chunk for each loader; the loaders are
the workers of `Lib.WorkQueue`. The loop variable is a `long`, and stepping past the end of
the range can step past the end of `long`: `load_work_once_iff` says that this is the only way
to miss an id.

`LinkBenchDriverMR.java` starts one loader per mapper through the convenience constructor,
which gives each loader a queue of its own.
-/

set_option autoImplicit false

namespace TokuQa.LinkBench

open TokuQa.Lib WorkQueue

namespace Load

/-! ## Chunks -/

/-- `LoadChunk`; `stop` is the source's `end`. -/
structure LoadChunk where
  shutdown : Bool
  id : Int
  start : Int
  stop : Int
  step : Int
deriving DecidableEq

/-- The four-argument constructor. -/
def LoadChunk.range (id start stop : Int) : LoadChunk := ⟨false, id, start, stop, 1⟩

/-- `LoadChunk.SHUTDOWN`. -/
def LoadChunk.SHUTDOWN : LoadChunk := ⟨true, 0, 0, 0, 1⟩

/-- The loop of `processChunk`: `for (id1 = start; id1 < end; id1 += step)`. -/
def LoadChunk.ids (c : LoadChunk) : List Int :=
  (List.range ((c.stop - c.start + c.step - 1) / c.step).toNat).map fun i : Nat =>
    c.start + i * c.step

/-- A chunk as an item of the queue. -/
def LoadChunk.item (c : LoadChunk) : Option (List Int) := if c.shutdown then none else some c.ids

theorem LoadChunk.ids_range (id start stop : Int) :
    (LoadChunk.range id start stop).ids = Int.range start stop := by
  simp [LoadChunk.ids, LoadChunk.range, Int.range]

/-! ## `enqueueLoadWork` -/

/-- The first loop: the chunks from `id1` on, in order. `none` when the fuel runs out. -/
def stackChunks (maxid1 chunkSize : Int) : Nat → Int → Int → Option (List LoadChunk)
  | 0, _, _ => none
  | fuel + 1, id1, chunkNum =>
    if id1 < maxid1 then
      (stackChunks maxid1 chunkSize fuel (wrap64 (id1 + chunkSize)) (chunkNum + 1)).map
        (LoadChunk.range chunkNum id1 (min (wrap64 (id1 + chunkSize)) maxid1) :: ·)
    else some []

/-- The queue as the loaders find it. -/
def enqueueLoadWork (startid1 maxid1 chunkSize : Int) (nloaders fuel : Nat) :
    Option (List LoadChunk) :=
  (stackChunks maxid1 chunkSize fuel startid1 0).map fun stack =>
    stack.reverse ++ List.replicate nloaders LoadChunk.SHUTDOWN

/-- The chunks tile `[lo, hi)`: no gap, no overlap, nothing outside. -/
def Tiles (chunks : List LoadChunk) (lo hi : Int) : Prop :=
  (chunks.flatMap LoadChunk.ids).Nodup ∧ ∀ id1, id1 ∈ chunks.flatMap LoadChunk.ids ↔ lo ≤ id1 ∧ id1 < hi

/-- The loop never steps past the end of `long`. -/
def Fits (id1 maxid1 chunkSize : Int) : Prop :=
  ∀ k : Nat, id1 + k * chunkSize < maxid1 → id1 + (k + 1) * chunkSize < 2 ^ 63

/-- Where the last chunk would end if `maxid1` did not cut it off. -/
def lastChunkEnd (startid1 maxid1 chunkSize : Int) : Int :=
  startid1 + (maxid1 - startid1 + chunkSize - 1) / chunkSize * chunkSize

section

variable {id1 startid1 maxid1 chunkSize : Int} {fuel : Nat} {num : Int} {stack : List LoadChunk}

theorem range_append {lo mid hi : Int} (h : lo ≤ mid) (h' : mid ≤ hi) :
    Int.range lo mid ++ Int.range mid hi = Int.range lo hi := by
  have hlen : (hi - lo).toNat = (mid - lo).toNat + (hi - mid).toNat := by omega
  unfold Int.range
  rw [hlen, List.range_add, List.map_append, List.map_map]
  congr 1
  refine List.map_congr_left fun i _ => ?_
  simp only [Function.comp_apply]
  omega

theorem nodup_range (lo hi : Int) : (Int.range lo hi).Nodup := by
  unfold Int.range
  exact nodup_range_add lo _

theorem Fits.next (h : Fits id1 maxid1 chunkSize) (hlt : id1 < maxid1) :
    id1 + chunkSize < 2 ^ 63 ∧ Fits (id1 + chunkSize) maxid1 chunkSize := by
  refine ⟨by simpa using h 0 (by simpa using hlt), fun k hk => ?_⟩
  have hk' : id1 + ((k + 1 : Nat) : Int) * chunkSize < maxid1 := by
    push_cast
    rw [add_mul]
    omega
  have hnext := h (k + 1) hk'
  push_cast at hnext
  rw [add_mul (k + 1 : Int)] at hnext
  omega

theorem fits_iff (hlt : startid1 < maxid1) (hchunk : 1 ≤ chunkSize) :
    Fits startid1 maxid1 chunkSize ↔ lastChunkEnd startid1 maxid1 chunkSize < 2 ^ 63 := by
  have hq : 1 ≤ (maxid1 - startid1 + chunkSize - 1) / chunkSize :=
    (Int.le_ediv_iff_mul_le (by omega)).mpr (by omega)
  constructor
  · intro h
    have hlast := h ((maxid1 - startid1 + chunkSize - 1) / chunkSize - 1).toNat
    have hcast : (((maxid1 - startid1 + chunkSize - 1) / chunkSize - 1).toNat : Int) =
        (maxid1 - startid1 + chunkSize - 1) / chunkSize - 1 := by omega
    have hmul : (maxid1 - startid1 + chunkSize - 1) / chunkSize * chunkSize ≤
        maxid1 - startid1 + chunkSize - 1 := Int.ediv_mul_le _ (by omega)
    rw [hcast, sub_add_cancel, sub_mul, one_mul] at hlast
    exact hlast (by omega)
  · intro h k hk
    have hk' : (k + 1 : Int) ≤ (maxid1 - startid1 + chunkSize - 1) / chunkSize := by
      refine (Int.le_ediv_iff_mul_le (by omega)).mpr ?_
      rw [add_mul]
      omega
    have hmul := Int.mul_le_mul_of_nonneg_right hk' (by omega : 0 ≤ chunkSize)
    unfold lastChunkEnd at h
    omega

theorem stackChunks_work (hrun : stackChunks maxid1 chunkSize fuel id1 num = some stack) :
    ∀ c ∈ stack, c.shutdown = false := by
  induction fuel generalizing id1 num stack with
  | zero => cases hrun
  | succ fuel ih =>
    rw [stackChunks] at hrun
    split at hrun
    · obtain ⟨rest, hrest, rfl⟩ := Option.map_eq_some_iff.mp hrun
      intro c hc
      rcases List.mem_cons.mp hc with rfl | hc
      · rfl
      · exact ih hrest c hc
    · cases hrun
      simp

/-- **A loop that fits lists every id once, in order.** -/
theorem stackChunks_fits (hlow : -2 ^ 63 ≤ id1) (hchunk : 1 ≤ chunkSize)
    (hfits : Fits id1 maxid1 chunkSize) (num : Int) :
    ∃ fuel stack, stackChunks maxid1 chunkSize fuel id1 num = some stack ∧
      stack.flatMap LoadChunk.ids = Int.range id1 maxid1 := by
  induction hn : (maxid1 - id1).toNat using Nat.strong_induction_on generalizing id1 num with
  | _ n ih =>
    subst hn
    by_cases hlt : id1 < maxid1
    · obtain ⟨hnext, hfits'⟩ := hfits.next hlt
      have hwrap : wrap64 (id1 + chunkSize) = id1 + chunkSize := wrap_eq_self (by omega) hnext
      obtain ⟨fuel, stack, hrun, hids⟩ :=
        ih (maxid1 - (id1 + chunkSize)).toNat (by omega) (by omega) hfits' (num + 1) rfl
      refine ⟨fuel + 1, LoadChunk.range num id1 (min (id1 + chunkSize) maxid1) :: stack, ?_, ?_⟩
      · rw [stackChunks, if_pos hlt, hwrap, hrun, Option.map_some]
      · rw [List.flatMap_cons, LoadChunk.ids_range, hids]
        by_cases hend : id1 + chunkSize ≤ maxid1
        · rw [min_eq_left hend, range_append (by omega) hend]
        · have hempty : Int.range (id1 + chunkSize) maxid1 = [] := by
            have hneg : (maxid1 - (id1 + chunkSize)).toNat = 0 := by omega
            simp [Int.range, hneg]
          rw [min_eq_right (by omega), hempty, List.append_nil]
    · refine ⟨1, [], by rw [stackChunks, if_neg hlt], ?_⟩
      have hneg : (maxid1 - id1).toNat = 0 := by omega
      simp [Int.range, hneg]

theorem lt_of_not_fits (hchunk : 1 ≤ chunkSize) (h : ¬ Fits id1 maxid1 chunkSize) :
    id1 < maxid1 := by
  by_contra hge
  refine h fun k hk => ?_
  have hk0 : 0 ≤ (k : Int) * chunkSize := Int.mul_nonneg (by omega) (by omega)
  omega

theorem not_fits_next (hnext : id1 + chunkSize < 2 ^ 63) (h : ¬ Fits id1 maxid1 chunkSize) :
    ¬ Fits (id1 + chunkSize) maxid1 chunkSize := by
  intro hf
  refine h fun k hk => ?_
  cases k with
  | zero => simpa using hnext
  | succ k =>
    push_cast at hk ⊢
    rw [add_mul, one_mul] at hk
    have hf' := hf k (by omega)
    rw [add_mul (_ + _ : Int)]
    omega

/-- The step past the end of `long` lands far below `maxid1`, and that id is queued next. -/
theorem stackChunks_overflow (hhigh : id1 < 2 ^ 63) (hmax : -2 ^ 62 < maxid1)
    (hchunk : 1 ≤ chunkSize) (hchunk' : chunkSize < 2 ^ 31) (hover : 2 ^ 63 ≤ id1 + chunkSize)
    (hrun : stackChunks maxid1 chunkSize fuel (wrap64 (id1 + chunkSize)) num = some stack) :
    id1 + chunkSize - 2 * 2 ^ 63 ∈ stack.flatMap LoadChunk.ids := by
  have hwrap : wrap64 (id1 + chunkSize) = id1 + chunkSize - 2 * 2 ^ 63 :=
    wrap_of_overflow hover (by omega)
  rw [hwrap] at hrun
  cases fuel with
  | zero => cases hrun
  | succ fuel =>
    have hbelow : id1 + chunkSize - 2 * 2 ^ 63 < maxid1 := by omega
    -- the chunk after the wrap is a full one, far from both ends
    have hwrap' : wrap64 (id1 + chunkSize - 2 * 2 ^ 63 + chunkSize) =
        id1 + chunkSize - 2 * 2 ^ 63 + chunkSize := wrap_eq_self (by omega) (by omega)
    rw [stackChunks, if_pos hbelow, hwrap'] at hrun
    obtain ⟨rest, -, rfl⟩ := Option.map_eq_some_iff.mp hrun
    rw [List.flatMap_cons, LoadChunk.ids_range]
    refine List.mem_append_left _ (Int.mem_range_iff.mpr ⟨le_refl _, ?_⟩)
    omega

/-- **A loop that does not fit goes wrong.** Right after the step past the end of `long` it
queues the id that step wrapped around to: an id below the range, or one queued before. -/
theorem stackChunks_not_fits (hlow : -2 ^ 63 ≤ id1) (hmax : maxid1 < 2 ^ 63)
    (hchunk : 1 ≤ chunkSize) (hchunk' : chunkSize < 2 ^ 31)
    (hfits : ¬ Fits id1 maxid1 chunkSize) (hrun : stackChunks maxid1 chunkSize fuel id1 num = some stack) :
    (∃ x, x < id1 ∧ x ∈ stack.flatMap LoadChunk.ids) ∨ ¬ (stack.flatMap LoadChunk.ids).Nodup := by
  induction fuel generalizing id1 num stack with
  | zero => cases hrun
  | succ fuel ih =>
    have hlt := lt_of_not_fits hchunk hfits
    rw [stackChunks, if_pos hlt] at hrun
    obtain ⟨rest, hrest, rfl⟩ := Option.map_eq_some_iff.mp hrun
    rw [List.flatMap_cons, LoadChunk.ids_range]
    by_cases hnext : id1 + chunkSize < 2 ^ 63
    · -- this step is fine, so a later one is not
      have hwrap : wrap64 (id1 + chunkSize) = id1 + chunkSize := wrap_eq_self (by omega) hnext
      rw [hwrap] at hrest ⊢
      have hfits' := not_fits_next hnext hfits
      rw [min_eq_left (lt_of_not_fits hchunk hfits').le]
      rcases ih (by omega) hfits' hrest with ⟨x, hx, hmem⟩ | hdup
      · by_cases hx' : x < id1
        · exact Or.inl ⟨x, hx', List.mem_append_right _ hmem⟩
        · right
          intro hnodup
          have hfirst : x ∈ Int.range id1 (id1 + chunkSize) := Int.mem_range_iff.mpr ⟨by omega, hx⟩
          exact (List.nodup_append.mp hnodup).2.2 x hfirst x hmem rfl
      · exact Or.inr fun hnodup => hdup (List.nodup_append.mp hnodup).2.1
    · have hmem := stackChunks_overflow (by omega) (by omega) hchunk hchunk' (by omega) hrest
      exact Or.inl ⟨id1 + chunkSize - 2 * 2 ^ 63, by omega, List.mem_append_right _ hmem⟩

end

/-! ## The load -/

/-- The loaders in front of their queue. -/
def loaders (nloaders : Nat) (q : List LoadChunk) : State nloaders Int :=
  start nloaders (q.map LoadChunk.item)

/-- Every id of the range was processed once, by one loader, and every loader took one
shutdown chunk. -/
structure LoadedOnce {nloaders : Nat} (lo hi : Int) (s : State nloaders Int) : Prop where
  once : (s.log.map Prod.snd).Nodup
  covered : ∀ id1, id1 ∈ s.log.map Prod.snd ↔ lo ≤ id1 ∧ id1 < hi
  stops : ∀ w, s.stops w = 1

/-- The queue is built, its chunks tile the range, and however the loaders take turns they
all stop, with every id loaded once. -/
def LoadsOnce (startid1 maxid1 chunkSize : Int) (nloaders : Nat) : Prop :=
  ∃ fuel q, enqueueLoadWork startid1 maxid1 chunkSize nloaders fuel = some q ∧
    Tiles (q.filter fun c => !c.shutdown) startid1 maxid1 ∧
    Acc (fun s' s => Step s s') (loaders nloaders q) ∧
    ∀ s, Reaches (loaders nloaders q) s →
      (AllStopped s ∨ ∃ s', Step s s') ∧ (AllStopped s → LoadedOnce startid1 maxid1 s)

section

variable {startid1 maxid1 chunkSize : Int} {nloaders fuel : Nat} {stack q : List LoadChunk}

theorem filter_work (hstack : ∀ c ∈ stack, c.shutdown = false) :
    (stack.reverse ++ List.replicate nloaders LoadChunk.SHUTDOWN).filter (fun c => !c.shutdown) =
      stack.reverse := by
  rw [List.filter_append, List.filter_eq_self.mpr, List.filter_eq_nil_iff.mpr, List.append_nil]
  · intro c hc
    rw [List.eq_of_mem_replicate hc]
    decide
  · intro c hc
    simp [hstack c (List.mem_reverse.mp hc)]

/-- The queue is what the workers of `WorkQueue` expect. -/
theorem map_item (hstack : ∀ c ∈ stack, c.shutdown = false) :
    (stack.reverse ++ List.replicate nloaders LoadChunk.SHUTDOWN).map LoadChunk.item =
      loaded nloaders (stack.reverse.map LoadChunk.ids) := by
  unfold loaded
  rw [List.map_append, List.map_replicate, List.map_map]
  congr 1
  refine List.map_congr_left fun c hc => ?_
  simp [LoadChunk.item, hstack c (List.mem_reverse.mp hc)]

theorem flatMap_reverse_perm (stack : List LoadChunk) :
    (stack.reverse.flatMap LoadChunk.ids).Perm (stack.flatMap LoadChunk.ids) :=
  (List.reverse_perm stack).flatMap_right _

/-- From tiles to a load: whatever the loaders do, they do the ids of the queue. -/
theorem loads_of_tiles (hloaders : 1 ≤ nloaders) (hstack : ∀ c ∈ stack, c.shutdown = false)
    (hids : stack.flatMap LoadChunk.ids = Int.range startid1 maxid1)
    (hq : q = stack.reverse ++ List.replicate nloaders LoadChunk.SHUTDOWN)
    {s : State nloaders Int} (hr : Reaches (loaders nloaders q) s) :
    (AllStopped s ∨ ∃ s', Step s s') ∧ (AllStopped s → LoadedOnce startid1 maxid1 s) := by
  unfold loaders at hr
  rw [hq, map_item hstack] at hr
  refine ⟨progress hr, fun hall => ?_⟩
  obtain ⟨hperm, hstops⟩ := finished (by omega) hr hall
  have hrange : (s.log.map Prod.snd).Perm (Int.range startid1 maxid1) := by
    rw [← List.flatMap_def] at hperm
    rw [← hids]
    exact hperm.trans (flatMap_reverse_perm stack)
  refine ⟨hrange.nodup_iff.mpr (nodup_range _ _), fun id1 => ?_, hstops⟩
  rw [hrange.mem_iff, Int.mem_range_iff]

theorem loadsOnce_of_fits (hlow : -2 ^ 63 ≤ startid1) (hchunk : 1 ≤ chunkSize)
    (hloaders : 1 ≤ nloaders) (hfits : Fits startid1 maxid1 chunkSize) :
    LoadsOnce startid1 maxid1 chunkSize nloaders := by
  obtain ⟨fuel, stack, hrun, hids⟩ := stackChunks_fits hlow hchunk hfits 0
  have hstack := stackChunks_work hrun
  refine ⟨fuel, stack.reverse ++ List.replicate nloaders LoadChunk.SHUTDOWN, ?_, ?_,
    wellFounded_step.apply _, fun s hr => loads_of_tiles hloaders hstack hids rfl hr⟩
  · rw [enqueueLoadWork, hrun, Option.map_some]
  · rw [filter_work hstack]
    have hperm := flatMap_reverse_perm stack
    rw [hids] at hperm
    refine ⟨hperm.nodup_iff.mpr (nodup_range _ _), fun id1 => ?_⟩
    rw [hperm.mem_iff, Int.mem_range_iff]

theorem not_loadsOnce_of_not_fits (hlow : -2 ^ 63 ≤ startid1) (hmax : maxid1 < 2 ^ 63)
    (hchunk : 1 ≤ chunkSize) (hchunk' : chunkSize < 2 ^ 31)
    (hfits : ¬ Fits startid1 maxid1 chunkSize) :
    ¬ LoadsOnce startid1 maxid1 chunkSize nloaders := by
  rintro ⟨fuel, q, hq, ⟨hnodup, hmem⟩, -, -⟩
  obtain ⟨stack, hrun, rfl⟩ := Option.map_eq_some_iff.mp hq
  rw [filter_work (stackChunks_work hrun)] at hnodup hmem
  have hperm := flatMap_reverse_perm stack
  rcases stackChunks_not_fits hlow hmax hchunk hchunk' hfits hrun with ⟨x, hx, hids⟩ | hdup
  · have hlo := ((hmem x).mp (hperm.mem_iff.mpr hids)).1
    omega
  · exact hdup (hperm.nodup_iff.mp hnodup)

end

end Load

end TokuQa.LinkBench
