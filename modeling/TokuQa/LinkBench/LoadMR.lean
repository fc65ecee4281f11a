import TokuQa.LinkBench.LoadWork

/-!
# The load phase of the map-reduce driver

`LinkBenchInputFormat` hands out one split `(i, num)` per mapper, and `LoadMapper` builds a
loader from it through the convenience constructor. That constructor takes `loaderID` and
`nloaders`, but the one chunk it queues is the whole range: every mapper loads everything.
-/

set_option autoImplicit false

namespace TokuQa.LinkBench.Load

open TokuQa.Lib WorkQueue

/-- `LinkBenchInputSplit`. -/
structure LinkBenchInputSplit where
  id : Nat
  num : Nat
deriving DecidableEq

/-- `getSplits`. -/
def getSplits (numsplits : Nat) : List LinkBenchInputSplit :=
  (List.range numsplits).map fun i => ⟨i, numsplits⟩

/-- The check of the main constructor of `LinkBenchLoad`. -/
def checkStartid1 (startid1 : Int) : Except String Unit :=
  if startid1 ≤ 0 then .error "startid1 must be >= 1" else .ok ()

/-- The convenience constructor: the queue of a loader that works alone. Neither `loaderID`
(but for the chunk's number) nor `nloaders` has a part in it. -/
def convenienceQueue (startid1 maxid1 : Int) (loaderID _nloaders : Nat) :
    Except String (List LoadChunk) := do
  checkStartid1 startid1
  return [LoadChunk.range loaderID startid1 maxid1, LoadChunk.SHUTDOWN]

/-- `LoadMapper.map`, as far as its loader's queue. -/
def loadMapper (startid1 maxid1 : Int) (split : LinkBenchInputSplit) :
    Except String (List LoadChunk) :=
  convenienceQueue startid1 maxid1 split.id split.num

/-- A mapper's loader, alone on its queue, has come to its end in `s`. -/
def Finished (q : List LoadChunk) (s : State 1 Int) : Prop :=
  Reaches (loaders 1 q) s ∧ AllStopped s

/-- What the mappers loaded, all together. -/
def allLoaded (finals : List (State 1 Int)) : List Int :=
  finals.flatMap fun s => s.log.map Prod.snd

/-- All mappers start, and whenever all have finished every id of the range was loaded once. -/
def MapReduceLoadsOnce (startid1 maxid1 : Int) (nloaders : Nat) : Prop :=
  ∃ queues, (getSplits nloaders).mapM (loadMapper startid1 maxid1) = .ok queues ∧
    ∀ finals, List.Forall₂ Finished queues finals →
      ∀ id1, startid1 ≤ id1 → id1 < maxid1 → (allLoaded finals).count id1 = 1

section

variable {startid1 maxid1 : Int} {nloaders : Nat} {split : LinkBenchInputSplit}

theorem loadMapper_eq (h : 1 ≤ startid1) :
    loadMapper startid1 maxid1 split =
      .ok [LoadChunk.range split.id startid1 maxid1, LoadChunk.SHUTDOWN] := by
  have hcheck : checkStartid1 startid1 = .ok () := if_neg (by omega)
  unfold loadMapper convenienceQueue
  rw [hcheck]
  rfl

theorem mapM_loadMapper (h : 1 ≤ startid1) (splits : List LinkBenchInputSplit) :
    splits.mapM (loadMapper startid1 maxid1) =
      .ok (splits.map fun split =>
        [LoadChunk.range split.id startid1 maxid1, LoadChunk.SHUTDOWN]) := by
  have hpure : loadMapper startid1 maxid1 = fun split =>
      pure [LoadChunk.range split.id startid1 maxid1, LoadChunk.SHUTDOWN] :=
    funext fun split => loadMapper_eq h
  rw [hpure, List.mapM_pure]
  rfl

/-- A range that starts below one is refused by the first mapper already. -/
theorem mapM_loadMapper_refused (h : startid1 ≤ 0) (hloaders : 1 ≤ nloaders) :
    (getSplits nloaders).mapM (loadMapper startid1 maxid1) = .error "startid1 must be >= 1" := by
  obtain ⟨n, rfl⟩ : ∃ n, nloaders = n + 1 := ⟨nloaders - 1, by omega⟩
  have hcheck : checkStartid1 startid1 = .error "startid1 must be >= 1" := if_pos h
  have hfirst : ∀ split, loadMapper startid1 maxid1 split = .error "startid1 must be >= 1" := by
    intro split
    unfold loadMapper convenienceQueue
    rw [hcheck]
    rfl
  unfold getSplits
  rw [List.range_succ_eq_map, List.map_cons, List.mapM_cons, hfirst]
  rfl

/-- The queue of a mapper is a queue of one item for one worker. -/
theorem map_item_mapper (id : Int) :
    [LoadChunk.range id startid1 maxid1, LoadChunk.SHUTDOWN].map LoadChunk.item =
      loaded 1 [Int.range startid1 maxid1] := by
  have hids := LoadChunk.ids_range id startid1 maxid1
  simp only [loaded, List.map_cons, List.map_nil, LoadChunk.item, ← hids]
  rfl

/-- **A mapper that has finished has loaded the whole range.** -/
theorem finished_mapper {id : Int} {s : State 1 Int}
    (h : Finished [LoadChunk.range id startid1 maxid1, LoadChunk.SHUTDOWN] s) :
    (s.log.map Prod.snd).Perm (Int.range startid1 maxid1) := by
  obtain ⟨hr, hall⟩ := h
  unfold loaders at hr
  rw [map_item_mapper] at hr
  have hperm := (finished (by omega) hr hall).1
  simpa using hperm

theorem exists_finished_mapper (startid1 maxid1 id : Int) :
    ∃ s, Finished [LoadChunk.range id startid1 maxid1, LoadChunk.SHUTDOWN] s := by
  obtain ⟨s, hr, hall⟩ := exists_finished (n := 1) [Int.range startid1 maxid1]
  refine ⟨s, ?_, hall⟩
  unfold loaders
  rw [map_item_mapper]
  exact hr

/-- Every mapper adds one to the count of every id. -/
theorem count_allLoaded {id1 : Int} (hid : startid1 ≤ id1) (hid' : id1 < maxid1)
    {splits : List LinkBenchInputSplit} {finals : List (State 1 Int)}
    (h : List.Forall₂ Finished (splits.map fun split =>
      [LoadChunk.range split.id startid1 maxid1, LoadChunk.SHUTDOWN]) finals) :
    (allLoaded finals).count id1 = splits.length := by
  rw [List.forall₂_map_left_iff] at h
  induction h with
  | nil => rfl
  | @cons split s splits finals hs _ ih =>
    have hone : (s.log.map Prod.snd).count id1 = 1 := by
      rw [(finished_mapper hs).count_eq]
      exact List.count_eq_one_of_mem (nodup_range _ _) (Int.mem_range_iff.mpr ⟨hid, hid'⟩)
    unfold allLoaded at ih ⊢
    rw [List.flatMap_cons, List.count_append, hone, ih, List.length_cons, Nat.add_comm]

theorem exists_finals (startid1 maxid1 : Int) (splits : List LinkBenchInputSplit) :
    ∃ finals, List.Forall₂ Finished (splits.map fun split =>
      [LoadChunk.range split.id startid1 maxid1, LoadChunk.SHUTDOWN]) finals := by
  induction splits with
  | nil => exact ⟨[], List.Forall₂.nil⟩
  | cons split splits ih =>
    obtain ⟨finals, h⟩ := ih
    obtain ⟨s, hs⟩ := exists_finished_mapper startid1 maxid1 split.id
    exact ⟨s :: finals, List.Forall₂.cons hs h⟩

/-- Mappers past the first load everything again. -/
theorem not_mapReduceLoadsOnce (hstart : 1 ≤ startid1) (hlt : startid1 < maxid1)
    (hloaders : nloaders ≠ 1) : ¬ MapReduceLoadsOnce startid1 maxid1 nloaders := by
  rintro ⟨queues, hqueues, honce⟩
  rw [mapM_loadMapper hstart] at hqueues
  cases hqueues
  obtain ⟨finals, hfinals⟩ := exists_finals startid1 maxid1 (getSplits nloaders)
  have hcount := count_allLoaded (le_refl startid1) hlt hfinals
  rw [honce finals hfinals startid1 (le_refl _) hlt] at hcount
  refine hloaders (hcount.trans ?_).symm
  simp [getSplits]

/-- **The mappers cover the id space once exactly when there is one of them**, and its range
starts where the constructor allows. -/
theorem mapReduce_loads_once_iff (hlt : startid1 < maxid1) (hloaders : 1 ≤ nloaders) :
    MapReduceLoadsOnce startid1 maxid1 nloaders ↔ nloaders = 1 ∧ 1 ≤ startid1 := by
  by_cases hstart : 1 ≤ startid1
  · constructor
    · intro h
      refine ⟨?_, hstart⟩
      by_contra hne
      exact not_mapReduceLoadsOnce hstart hlt hne h
    · rintro ⟨rfl, -⟩
      refine ⟨_, mapM_loadMapper hstart _, fun finals hfinals id1 hid hid' => ?_⟩
      rw [count_allLoaded hid hid' hfinals]
      rfl
  · refine iff_of_false ?_ fun h => hstart h.2
    rintro ⟨queues, hqueues, -⟩
    rw [mapM_loadMapper_refused (by omega) hloaders] at hqueues
    cases hqueues

end

theorem mapReduce_loads_once_single :
    MapReduceLoadsOnce 1 10 1 ↔ 1 = 1 ∧ (1 : Int) ≤ 1 :=
  mapReduce_loads_once_iff (by decide) (by decide)

/-- Two mappers load nine ids twice. -/
theorem mapReduce_two_mappers : ¬ MapReduceLoadsOnce 1 10 2 :=
  not_mapReduceLoadsOnce (by decide) (by decide) (by decide)

end TokuQa.LinkBench.Load
