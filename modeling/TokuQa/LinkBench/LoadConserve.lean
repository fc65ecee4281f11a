import TokuQa.LinkBench.Load

/-!
# Nothing lost, nothing doubled in a bulk load

Two arguments about the loader in bulk mode. `Conserved` is an invariant of every primitive
action: what was generated is what the store accepted followed by what is still buffered,
whatever calls failed. And the loops, failures or not, generate `linksFor` and produce
`countsFor` of every id (`createOutLinks_last`), which is one count per type, with the number
of links of that type (`countsFor_spec`).
-/

set_option autoImplicit false

namespace TokuQa.LinkBench.Load

open TokuQa.Lib Proc

/-! ## The invariant -/

/-- What the loader's two buffers and its counter have to do with the store. -/
structure Conserved (s : LoadState) : Prop where
  links : s.generated = s.acceptedLinks ++ s.loadBuffer
  counts : s.produced = s.acceptedCounts ++ s.countLoadBuffer
  loaded : s.linksloaded = s.acceptedLinks.length
  bulk : ∀ b ∈ s.accepted, b.isBulk = true

theorem conserved_start : Conserved .start := ⟨rfl, rfl, rfl, by simp [LoadState.start]⟩

section

variable {fails : Nat → Bool} {s : LoadState}

theorem mem_accepted (h : Conserved s) {batch : Batch} (hbatch : batch.isBulk = true) :
    ∀ b ∈ s.accepted ++ [batch], b.isBulk = true := by
  intro b hb
  rcases List.mem_append.mp hb with hb | hb
  · exact h.bulk b hb
  · rw [List.mem_singleton.mp hb]
    exact hbatch

theorem Conserved.loadLinks (h : Conserved s) : Conserved (loadLinks fails s) := by
  unfold Load.loadLinks store
  split
  · exact ⟨h.links, h.counts, h.loaded, h.bulk⟩
  · refine ⟨?_, ?_, ?_, mem_accepted h rfl⟩
    · simpa [LoadState.acceptedLinks, Batch.linksOf] using h.links
    · simpa [LoadState.acceptedCounts, Batch.countsOf] using h.counts
    · have hloaded := h.loaded
      simp only [LoadState.acceptedLinks, List.flatMap_append, List.flatMap_cons,
        List.flatMap_nil, Batch.linksOf, List.append_nil, List.length_append] at hloaded ⊢
      omega

theorem Conserved.loadCounts (h : Conserved s) : Conserved (loadCounts fails s) := by
  unfold Load.loadCounts store
  split
  · exact ⟨h.links, h.counts, h.loaded, h.bulk⟩
  · refine ⟨?_, ?_, ?_, mem_accepted h rfl⟩
    · simpa [LoadState.acceptedLinks, Batch.linksOf] using h.links
    · simpa [LoadState.acceptedCounts, Batch.countsOf] using h.counts
    · simpa [LoadState.acceptedLinks, Batch.linksOf] using h.loaded

theorem Conserved.generateInto (h : Conserved s) (l : Link) : Conserved (generateInto l s) := by
  refine ⟨?_, h.counts, h.loaded, h.bulk⟩
  have hlinks := h.links
  unfold Load.generateInto LoadState.acceptedLinks at *
  dsimp only
  rw [hlinks, List.append_assoc]

theorem Conserved.addCount (h : Conserved s) (c : LinkCount) : Conserved (addCount c s) := by
  refine ⟨h.links, ?_, h.loaded, h.bulk⟩
  have hcounts := h.counts
  unfold Load.addCount LoadState.acceptedCounts at *
  dsimp only
  rw [hcounts, List.append_assoc]

end

section

variable (src : LinkSource) {bulkLoadBatchSize : Int} (fails : Nat → Bool)

theorem keeps_createLink (hbulk : 1 ≤ bulkLoadBatchSize) (id1 linkType : Int) (j : Nat) :
    Keeps Conserved (createLink src bulkLoadBatchSize fails id1 linkType j) := by
  unfold createLink
  rw [if_pos (by omega)]
  refine (Keeps.prim fun s hs => hs.generateInto _).seq (Keeps.seq ?_ ?_)
  · exact (Keeps.prim fun s hs => hs.loadLinks).when
  · exact Keeps.prim fun s hs => ⟨hs.links, hs.counts, hs.loaded, hs.bulk⟩

theorem keeps_bufferCount (c : LinkCount) :
    Keeps Conserved (bufferCount bulkLoadBatchSize fails c) := by
  refine (Keeps.prim fun s hs => hs.addCount c).seq ?_
  exact (Keeps.prim fun s hs => hs.loadCounts).when

theorem keeps_createOutLinks (hbulk : 1 ≤ bulkLoadBatchSize) (id1 : Int) :
    Keeps Conserved (createOutLinks src bulkLoadBatchSize fails id1) := by
  unfold createOutLinks
  rw [if_pos (by omega)]
  refine (Keeps.prim fun s hs => ⟨hs.links, hs.counts, hs.loaded, hs.bulk⟩).seq (Keeps.seq ?_ ?_)
  · exact Keeps.each fun linkType => Keeps.each fun j =>
      keeps_createLink src fails hbulk id1 linkType j
  · intro s hs
    exact Keeps.each (fun c => keeps_bufferCount fails c) s hs

theorem keeps_processChunks (hbulk : 1 ≤ bulkLoadBatchSize) (chunks : List LoadChunk) :
    Keeps Conserved (processChunks src bulkLoadBatchSize fails chunks) := by
  induction chunks with
  | nil => exact Keeps.skip
  | cons chunk rest ih =>
    rw [processChunks]
    split
    · exact Keeps.skip
    · exact (Keeps.each fun id1 => keeps_createOutLinks src fails hbulk id1).seq ih

/-- **At every point of the run** the links and counts are where they should be. -/
theorem keeps_runLoader (hbulk : 1 ≤ bulkLoadBatchSize) (chunks : List LoadChunk) :
    Keeps Conserved (runLoader src bulkLoadBatchSize fails chunks) := by
  unfold runLoader
  rw [if_pos (by omega)]
  refine (keeps_processChunks src fails hbulk chunks).seq (Keeps.seq ?_ ?_)
  · exact Keeps.prim fun s hs => hs.loadLinks
  · exact Keeps.prim fun s hs => hs.loadCounts

end

/-! ## What the loops generate and produce -/

/-- The out links of an id, in the order they are generated. -/
def linksFor (src : LinkSource) (id1 : Int) : List Link :=
  src.linkTypes.flatMap fun linkType =>
    (List.range (src.nlinks id1 linkType).toNat).map (src.link id1 linkType)

/-- The counts of an id, in the order they are buffered. -/
def countsFor (src : LinkSource) (id1 : Int) : List LinkCount :=
  src.values ((linksFor src id1).foldl (fun counts l => countLink id1 l counts) [])

/-- The ids a loader processes: those of its chunks up to the shutdown. -/
def loaderIds (chunks : List LoadChunk) : List Int :=
  (chunks.takeWhile fun c => !c.shutdown).flatMap LoadChunk.ids

/-- `f` generates `ls` for `id1` and counts them, and touches nothing else of the record. -/
def Generates (id1 : Int) (f : Proc LoadState) (ls : List Link) : Prop :=
  ∀ s, (f.last s).generated = s.generated ++ ls ∧ (f.last s).produced = s.produced ∧
    (f.last s).linkTypeCounts = ls.foldl (fun counts l => countLink id1 l counts) s.linkTypeCounts

theorem Generates.each {α : Type} {id1 : Int} {body : α → Proc LoadState} {ls : α → List Link}
    (h : ∀ x, Generates id1 (body x) (ls x)) (xs : List α) :
    Generates id1 (each xs body) (xs.flatMap ls) := by
  induction xs with
  | nil =>
    intro s
    simp [Proc.each]
  | cons x xs ih =>
    intro s
    obtain ⟨hgen, hprod, hcount⟩ := h x s
    obtain ⟨hgen', hprod', hcount'⟩ := ih ((body x).last s)
    rw [Proc.each, last_seq, List.flatMap_cons, List.foldl_append]
    refine ⟨?_, hprod'.trans hprod, ?_⟩
    · rw [hgen', hgen, List.append_assoc]
    · rw [hcount', hcount]

section

variable (src : LinkSource) {bulkLoadBatchSize : Int} (fails : Nat → Bool)

/-- A flush leaves what was generated, produced and counted alone. -/
theorem loadLinks_record (s : LoadState) :
    (loadLinks fails s).generated = s.generated ∧ (loadLinks fails s).produced = s.produced ∧
      (loadLinks fails s).linkTypeCounts = s.linkTypeCounts := by
  unfold loadLinks store
  split <;> exact ⟨rfl, rfl, rfl⟩

theorem loadCounts_record (s : LoadState) :
    (loadCounts fails s).generated = s.generated ∧ (loadCounts fails s).produced = s.produced := by
  unfold loadCounts store
  split <;> exact ⟨rfl, rfl⟩

theorem loadLink_generated (l : Link) : Appends LoadState.generated (prim (loadLink fails l)) [] := by
  refine Appends.prim fun s => ?_
  unfold loadLink store
  split <;> exact (List.append_nil s.generated).symm

theorem loadLinks_generated : Appends LoadState.generated (prim (loadLinks fails)) [] :=
  Appends.prim fun s => (loadLinks_record fails s).1.trans (List.append_nil _).symm

/-- One link, in either mode. -/
theorem createLink_generated (bulkLoadBatchSize : Int) (id1 linkType : Int) (j : Nat) :
    Appends LoadState.generated (createLink src bulkLoadBatchSize fails id1 linkType j)
      [src.link id1 linkType j] := by
  unfold createLink
  dsimp only
  split
  · have hadd : Appends LoadState.generated (prim (generateInto (src.link id1 linkType j)))
        [src.link id1 linkType j] := Appends.prim fun _ => rfl
    have hcount : Appends LoadState.generated (prim fun s : LoadState =>
        { s with linkTypeCounts := countLink id1 (src.link id1 linkType j) s.linkTypeCounts }) [] :=
      Appends.prim fun _ => (List.append_nil _).symm
    exact hadd.seq ((loadLinks_generated fails).when_nil.seq hcount)
  · have hadd : Appends LoadState.generated (prim (generate (src.link id1 linkType j)))
        [src.link id1 linkType j] := Appends.prim fun _ => rfl
    exact hadd.seq (loadLink_generated fails _)

theorem createLink_generates (hbulk : 1 ≤ bulkLoadBatchSize) (id1 linkType : Int) (j : Nat) :
    Generates id1 (createLink src bulkLoadBatchSize fails id1 linkType j)
      [src.link id1 linkType j] := by
  intro s
  refine ⟨createLink_generated src fails bulkLoadBatchSize id1 linkType j s, ?_⟩
  unfold createLink
  rw [if_pos (by omega)]
  simp only [last_seq, last_prim, last_when]
  split
  · obtain ⟨-, hprod, hcount⟩ :=
      loadLinks_record fails (generateInto (src.link id1 linkType j) s)
    rw [hprod, hcount]
    exact ⟨rfl, rfl⟩
  · exact ⟨rfl, rfl⟩

/-- Buffering counts produces them, and generates nothing. -/
theorem each_bufferCount (bulkLoadBatchSize : Int) (counts : List LinkCount) :
    Appends LoadState.generated (each counts (bufferCount bulkLoadBatchSize fails)) [] ∧
      Appends LoadState.produced (each counts (bufferCount bulkLoadBatchSize fails)) counts := by
  have hflush : Appends LoadState.generated (prim (loadCounts fails)) [] ∧
      Appends LoadState.produced (prim (loadCounts fails)) [] := by
    constructor
    · exact Appends.prim fun s => (loadCounts_record fails s).1.trans (List.append_nil _).symm
    · exact Appends.prim fun s => (loadCounts_record fails s).2.trans (List.append_nil _).symm
  constructor
  · refine Appends.each_nil (fun c => ?_) counts
    have hadd : Appends LoadState.generated (prim (addCount c)) [] :=
      Appends.prim fun _ => (List.append_nil _).symm
    exact hadd.seq hflush.1.when_nil
  · have hbody : ∀ c, Appends LoadState.produced (bufferCount bulkLoadBatchSize fails c) [c] := by
      intro c
      have hadd : Appends LoadState.produced (prim (addCount c)) [c] := Appends.prim fun _ => rfl
      exact hadd.seq hflush.2.when_nil
    have hall := Appends.each hbody counts
    rwa [List.flatMap_singleton'] at hall

/-- Whatever the batch size and whatever calls fail, the links of an id come into being. -/
theorem createOutLinks_generated (bulkLoadBatchSize : Int) (id1 : Int) :
    Appends LoadState.generated (createOutLinks src bulkLoadBatchSize fails id1)
      (linksFor src id1) := by
  have hlinks : Appends LoadState.generated (each src.linkTypes fun linkType =>
      each (List.range (src.nlinks id1 linkType).toNat) fun j =>
        createLink src bulkLoadBatchSize fails id1 linkType j) (linksFor src id1) :=
    Appends.each (fun linkType => Appends.each_map
      (createLink_generated src fails bulkLoadBatchSize id1 linkType) _) src.linkTypes
  have hstart : Appends LoadState.generated
      (prim fun s : LoadState => { s with linkTypeCounts := [] }) [] :=
    Appends.prim fun _ => (List.append_nil _).symm
  have hcounts : Appends LoadState.generated
      (if bulkLoadBatchSize > 0 then
        fun s => each (src.values s.linkTypeCounts) (bufferCount bulkLoadBatchSize fails) s
      else skip) [] := by
    split
    · exact fun s => (each_bufferCount fails bulkLoadBatchSize (src.values s.linkTypeCounts)).1 s
    · exact Appends.skip
  have hall := hstart.seq (hlinks.seq hcounts)
  rwa [List.append_nil, List.nil_append] at hall

/-- **One id**: its links are generated, and its counts produced. -/
theorem createOutLinks_last (hbulk : 1 ≤ bulkLoadBatchSize) (id1 : Int) (s : LoadState) :
    ((createOutLinks src bulkLoadBatchSize fails id1).last s).generated =
        s.generated ++ linksFor src id1 ∧
      ((createOutLinks src bulkLoadBatchSize fails id1).last s).produced =
        s.produced ++ countsFor src id1 := by
  refine ⟨createOutLinks_generated src fails bulkLoadBatchSize id1 s, ?_⟩
  have hlinks : Generates id1 (each src.linkTypes fun linkType =>
      each (List.range (src.nlinks id1 linkType).toNat) fun j =>
        createLink src bulkLoadBatchSize fails id1 linkType j) (linksFor src id1) := by
    refine Generates.each (fun linkType => ?_) src.linkTypes
    -- the two loops are one `each` inside another
    have hbody := Generates.each (fun j => createLink_generates src fails hbulk id1 linkType j)
      (List.range (src.nlinks id1 linkType).toNat)
    rwa [← List.map_eq_flatMap] at hbody
  obtain ⟨-, hprod, hcount⟩ := hlinks { s with linkTypeCounts := [] }
  unfold createOutLinks
  rw [if_pos (by omega), last_seq, last_prim, last_seq]
  generalize (each src.linkTypes fun linkType =>
    each (List.range (src.nlinks id1 linkType).toNat) fun j =>
      createLink src bulkLoadBatchSize fails id1 linkType j).last
    { s with linkTypeCounts := [] } = s₁ at *
  have hprod' := (each_bufferCount fails bulkLoadBatchSize (src.values s₁.linkTypeCounts)).2 s₁
  refine hprod'.trans ?_
  rw [hprod, hcount]
  rfl

theorem processChunk_last (hbulk : 1 ≤ bulkLoadBatchSize) (ids : List Int) :
    Appends LoadState.generated (each ids (createOutLinks src bulkLoadBatchSize fails))
        (ids.flatMap (linksFor src)) ∧
      Appends LoadState.produced (each ids (createOutLinks src bulkLoadBatchSize fails))
        (ids.flatMap (countsFor src)) := by
  constructor
  · exact Appends.each (createOutLinks_generated src fails bulkLoadBatchSize) ids
  · exact Appends.each (fun id1 s => (createOutLinks_last src fails hbulk id1 s).2) ids

theorem loaderIds_cons (chunk : LoadChunk) (rest : List LoadChunk) :
    loaderIds (chunk :: rest) = if chunk.shutdown then [] else chunk.ids ++ loaderIds rest := by
  unfold loaderIds
  cases hshut : chunk.shutdown <;> simp [hshut]

/-- **All chunks** of a loader. -/
theorem processChunks_last (hbulk : 1 ≤ bulkLoadBatchSize) (chunks : List LoadChunk) :
    Appends LoadState.generated (processChunks src bulkLoadBatchSize fails chunks)
        ((loaderIds chunks).flatMap (linksFor src)) ∧
      Appends LoadState.produced (processChunks src bulkLoadBatchSize fails chunks)
        ((loaderIds chunks).flatMap (countsFor src)) := by
  induction chunks with
  | nil => exact ⟨Appends.skip, Appends.skip⟩
  | cons chunk rest ih =>
    rw [processChunks, loaderIds_cons]
    split
    · exact ⟨Appends.skip, Appends.skip⟩
    · obtain ⟨hgen, hprod⟩ := processChunk_last src fails hbulk chunk.ids
      rw [List.flatMap_append, List.flatMap_append]
      exact ⟨hgen.seq ih.1, hprod.seq ih.2⟩

end

/-! ## One count per type -/

/-- The links of one type among `ls`. -/
def numOfType (linkType : Int) (ls : List Link) : Nat := ls.countP fun l => l.linkType = linkType

/-- The map counts: under each type that occurs, one count with the number of its links. -/
structure CountsLinks (id1 : Int) (ls : List Link) (counts : List LinkCount) : Prop where
  id1_eq : ∀ c ∈ counts, c.id1 = id1
  count_eq : ∀ linkType, (counts.filter fun c => c.linkType = linkType).map (·.count) =
    if numOfType linkType ls = 0 then [] else [(numOfType linkType ls : Int)]

section

variable {id1 : Int} {l : Link} {counts : List LinkCount}

/-- A type the map knows: its counts go up by one, the others stay. -/
theorem countLink_known (h : (counts.any fun c => c.linkType = l.linkType) = true)
    (linkType : Int) :
    ((countLink id1 l counts).filter fun c => c.linkType = linkType).map (·.count) =
      ((counts.filter fun c => c.linkType = linkType).map (·.count)).map
        fun n => if l.linkType = linkType then n + 1 else n := by
  unfold countLink
  rw [if_pos h, List.filter_map, List.map_map, List.map_map]
  have hsame : ((fun c : LinkCount => decide (c.linkType = linkType)) ∘ fun c : LinkCount =>
      if c.linkType = l.linkType then
        { c with count := c.count + 1, time := max c.time l.time, version := l.version }
      else c) = fun c : LinkCount => decide (c.linkType = linkType) := by
    funext c
    simp only [Function.comp_apply]
    split <;> rfl
  rw [hsame]
  refine List.map_congr_left fun c hc => ?_
  have hct : c.linkType = linkType := by simpa using (List.mem_filter.mp hc).2
  by_cases ht : l.linkType = linkType
  · simp [ht, hct]
  · have hne : c.linkType ≠ l.linkType := fun e => ht (e.symm.trans hct)
    simp [ht, hne]

/-- A new type: it gets a count of one. -/
theorem countLink_new (h : ¬ (counts.any fun c => c.linkType = l.linkType) = true)
    (linkType : Int) :
    ((countLink id1 l counts).filter fun c => c.linkType = linkType).map (·.count) =
      (counts.filter fun c => c.linkType = linkType).map (·.count) ++
        if l.linkType = linkType then [1] else [] := by
  unfold countLink
  rw [if_neg h, List.filter_append, List.map_append]
  by_cases ht : l.linkType = linkType <;> simp [ht]

theorem countLink_id1 (h : ∀ c ∈ counts, c.id1 = id1) : ∀ c ∈ countLink id1 l counts, c.id1 = id1 := by
  intro c hc
  unfold countLink at hc
  split at hc
  · obtain ⟨c₀, hc₀, rfl⟩ := List.mem_map.mp hc
    have hid1 := h c₀ hc₀
    split <;> exact hid1
  · rcases List.mem_append.mp hc with hc | hc
    · exact h c hc
    · rw [List.mem_singleton.mp hc]

end

theorem numOfType_snoc (linkType : Int) (ls : List Link) (l : Link) :
    numOfType linkType (ls ++ [l]) =
      numOfType linkType ls + if l.linkType = linkType then 1 else 0 := by
  simp [numOfType, List.countP_append, List.countP_cons]

/-- The map knows a type exactly when it has counted a link of it. -/
theorem CountsLinks.any_iff {id1 : Int} {ls : List Link} {counts : List LinkCount}
    (h : CountsLinks id1 ls counts) (linkType : Int) :
    (counts.any fun c => c.linkType = linkType) = true ↔ numOfType linkType ls ≠ 0 := by
  have hown := h.count_eq linkType
  constructor
  · intro hany h0
    obtain ⟨c, hc, hct⟩ := List.any_eq_true.mp hany
    rw [if_pos h0, List.map_eq_nil_iff, List.filter_eq_nil_iff] at hown
    exact hown c hc hct
  · intro hne
    by_contra hany
    have hnone : counts.filter (fun c => c.linkType = linkType) = [] :=
      List.filter_eq_nil_iff.mpr fun c hc hct => hany (List.any_eq_true.mpr ⟨c, hc, hct⟩)
    rw [hnone, if_neg hne] at hown
    cases hown

theorem CountsLinks.snoc {id1 : Int} {ls : List Link} {counts : List LinkCount}
    (h : CountsLinks id1 ls counts) (l : Link) :
    CountsLinks id1 (ls ++ [l]) (countLink id1 l counts) := by
  refine ⟨countLink_id1 h.id1_eq, fun linkType => ?_⟩
  rw [numOfType_snoc]
  by_cases hany : (counts.any fun c => c.linkType = l.linkType) = true
  · have hpos := (h.any_iff l.linkType).mp hany
    rw [countLink_known hany, h.count_eq linkType]
    by_cases ht : l.linkType = linkType
    · rw [← ht, if_neg hpos, if_pos rfl, if_neg (by omega)]
      simp
    · simp [ht]
  · have hzero : numOfType l.linkType ls = 0 := by
      by_contra hne
      exact hany ((h.any_iff l.linkType).mpr hne)
    rw [countLink_new hany, h.count_eq linkType]
    by_cases ht : l.linkType = linkType
    · rw [← ht, hzero]
      simp
    · simp [ht]

theorem countLink_counts (id1 : Int) (ls : List Link) :
    CountsLinks id1 ls (ls.foldl (fun counts l => countLink id1 l counts) []) := by
  induction ls using List.reverseRecOn with
  | nil => exact ⟨by simp, fun linkType => by simp [numOfType]⟩
  | append_singleton ls l ih =>
    rw [List.foldl_append]
    exact ih.snoc l

/-- **The counts of an id count its links.** -/
theorem countsFor_spec (src : LinkSource) (id1 : Int) :
    CountsLinks id1 (linksFor src id1) (countsFor src id1) := by
  have h := countLink_counts id1 (linksFor src id1)
  have hperm := src.values_perm
    ((linksFor src id1).foldl (fun counts l => countLink id1 l counts) [])
  refine ⟨fun c hc => h.id1_eq c (hperm.mem_iff.mp hc), fun linkType => ?_⟩
  have hmap := (hperm.filter fun c => c.linkType = linkType).map (·.count)
  rw [h.count_eq linkType] at hmap
  by_cases hzero : numOfType linkType (linksFor src id1) = 0
  · rw [if_pos hzero] at hmap ⊢
    exact hmap.eq_nil
  · rw [if_neg hzero] at hmap ⊢
    exact hmap.eq_singleton

/-! ## All ids of a loader -/

theorem linksFor_id1 {src : LinkSource} {id1 : Int} {l : Link} (h : l ∈ linksFor src id1) :
    l.id1 = id1 := by
  obtain ⟨linkType, -, hl⟩ := List.mem_flatMap.mp h
  obtain ⟨j, -, rfl⟩ := List.mem_map.mp hl
  exact src.link_id1 id1 linkType j

/-- Of lists that belong to different keys, only one's own contributes under a key. -/
theorem flatMap_filter_key {α : Type} (key : α → Int) {f : Int → List α}
    (hkey : ∀ i, ∀ a ∈ f i, key a = i) {ids : List Int} (hids : ids.Nodup) (id1 : Int)
    (p : α → Bool) :
    (ids.flatMap f).filter (fun a => key a = id1 && p a) =
      if id1 ∈ ids then (f id1).filter p else [] := by
  induction ids with
  | nil => rfl
  | cons i ids ih =>
    obtain ⟨hnot, hnodup⟩ := List.nodup_cons.mp hids
    rw [List.flatMap_cons, List.filter_append, ih hnodup]
    by_cases hi : i = id1
    · subst hi
      have hown : (f i).filter (fun a => key a = i && p a) = (f i).filter p :=
        List.filter_congr fun a ha => by simp [hkey i a ha]
      rw [hown, if_neg hnot, if_pos (by simp), List.append_nil]
    · have hother : (f i).filter (fun a => key a = id1 && p a) = [] :=
        List.filter_eq_nil_iff.mpr fun a ha => by simp [hkey i a ha, hi]
      have hmem : id1 ∈ i :: ids ↔ id1 ∈ ids := by simp [Ne.symm hi]
      rw [hother, List.nil_append]
      simp only [hmem]

/-- The links of an `(id1, link_type)` in a list. -/
def linksOfKey (id1 linkType : Int) (ls : List Link) : List Link :=
  ls.filter fun l => l.id1 = id1 && l.linkType = linkType

/-- The counts of an `(id1, link_type)` in a list. -/
def countsOfKey (id1 linkType : Int) (cs : List LinkCount) : List LinkCount :=
  cs.filter fun c => c.id1 = id1 && c.linkType = linkType

theorem linksOfKey_flatMap (src : LinkSource) {ids : List Int} (hids : ids.Nodup)
    (id1 linkType : Int) :
    linksOfKey id1 linkType (ids.flatMap (linksFor src)) =
      if id1 ∈ ids then (linksFor src id1).filter fun l => l.linkType = linkType else [] :=
  flatMap_filter_key (fun l : Link => l.id1) (f := linksFor src) (fun _ _ h => linksFor_id1 h) hids
    id1 fun l => l.linkType = linkType

/-- **One count for each `(id1, link_type)` that has links**, with their number. -/
theorem countsOfKey_flatMap (src : LinkSource) {ids : List Int} (hids : ids.Nodup)
    (id1 linkType : Int) :
    (countsOfKey id1 linkType (ids.flatMap (countsFor src))).map (·.count) =
      if (linksOfKey id1 linkType (ids.flatMap (linksFor src))).length = 0 then []
      else [((linksOfKey id1 linkType (ids.flatMap (linksFor src))).length : Int)] := by
  have hcounts := flatMap_filter_key (fun c : LinkCount => c.id1) (f := countsFor src)
    (fun i c hc => (countsFor_spec src i).id1_eq c hc) hids id1 fun c => c.linkType = linkType
  rw [linksOfKey_flatMap src hids]
  unfold countsOfKey
  rw [hcounts]
  by_cases hid : id1 ∈ ids
  · have hspec := (countsFor_spec src id1).count_eq linkType
    unfold numOfType at hspec
    rw [List.countP_eq_length_filter] at hspec
    rw [if_pos hid, if_pos hid]
    exact hspec
  · rw [if_neg hid, if_neg hid]
    rfl

/-! ## The run -/

section

variable (src : LinkSource) (bulkLoadBatchSize : Int) (fails : Nat → Bool)
  (chunks : List LoadChunk)

/-- The state after the last chunk, in front of the flushes at the end. -/
def loopState : LoadState := (processChunks src bulkLoadBatchSize fails chunks).last .start

/-- The state at the end of `run`. -/
def finalState : LoadState := (runLoader src bulkLoadBatchSize fails chunks).last .start

variable {bulkLoadBatchSize}

theorem finalState_eq (hbulk : 1 ≤ bulkLoadBatchSize) :
    finalState src bulkLoadBatchSize fails chunks =
      loadCounts fails (loadLinks fails (loopState src bulkLoadBatchSize fails chunks)) := by
  unfold finalState runLoader loopState
  rw [if_pos (by omega)]
  simp only [last_seq, last_prim]

theorem finalState_record (hbulk : 1 ≤ bulkLoadBatchSize) :
    (finalState src bulkLoadBatchSize fails chunks).generated =
        (loaderIds chunks).flatMap (linksFor src) ∧
      (finalState src bulkLoadBatchSize fails chunks).produced =
        (loaderIds chunks).flatMap (countsFor src) := by
  have hgen := (processChunks_last src fails hbulk chunks).1 .start
  have hprod := (processChunks_last src fails hbulk chunks).2 .start
  obtain ⟨hgen₁, hprod₁, -⟩ := loadLinks_record fails (loopState src bulkLoadBatchSize fails chunks)
  obtain ⟨hgen₂, hprod₂⟩ := loadCounts_record fails
    (loadLinks fails (loopState src bulkLoadBatchSize fails chunks))
  rw [finalState_eq src fails chunks hbulk]
  exact ⟨hgen₂.trans (hgen₁.trans hgen), hprod₂.trans (hprod₁.trans hprod)⟩

theorem finalState_conserved (hbulk : 1 ≤ bulkLoadBatchSize) :
    Conserved (finalState src bulkLoadBatchSize fails chunks) :=
  (keeps_runLoader src fails hbulk chunks).last conserved_start

/-- When the flushes at the end succeed, both buffers are empty. -/
theorem finalState_accepted (hbulk : 1 ≤ bulkLoadBatchSize)
    (hlinks : fails (loopState src bulkLoadBatchSize fails chunks).calls = false)
    (hcounts : fails ((loopState src bulkLoadBatchSize fails chunks).calls + 1) = false) :
    (finalState src bulkLoadBatchSize fails chunks).acceptedLinks =
        (finalState src bulkLoadBatchSize fails chunks).generated ∧
      (finalState src bulkLoadBatchSize fails chunks).acceptedCounts =
        (finalState src bulkLoadBatchSize fails chunks).produced := by
  have h := finalState_conserved src fails chunks hbulk
  have hempty : (finalState src bulkLoadBatchSize fails chunks).loadBuffer = [] ∧
      (finalState src bulkLoadBatchSize fails chunks).countLoadBuffer = [] := by
    rw [finalState_eq src fails chunks hbulk]
    simp [loadCounts, loadLinks, store, hlinks, hcounts]
  rw [h.links, h.counts, hempty.1, hempty.2, List.append_nil, List.append_nil]
  exact ⟨rfl, rfl⟩

variable (bulkLoadBatchSize)

/-- What a bulk load promises. -/
structure LoadConserves : Prop where
  /-- At every point, the links generated so far are those the store accepted, followed by
  those still buffered, and `linksloaded` is the number accepted. -/
  always : ∀ s ∈ runLoader src bulkLoadBatchSize fails chunks .start,
    s.generated = s.acceptedLinks ++ s.loadBuffer ∧ s.linksloaded = s.acceptedLinks.length
  /-- Every link of every id is generated. -/
  generated : (finalState src bulkLoadBatchSize fails chunks).generated =
    (loaderIds chunks).flatMap (linksFor src)
  /-- Each `(id1, link_type)` that has links has had one count, of their number. -/
  counted : ∀ id1 linkType,
    (countsOfKey id1 linkType (finalState src bulkLoadBatchSize fails chunks).produced).map
        (·.count) =
      if (linksOfKey id1 linkType
          (finalState src bulkLoadBatchSize fails chunks).generated).length = 0 then []
      else [((linksOfKey id1 linkType
          (finalState src bulkLoadBatchSize fails chunks).generated).length : Int)]
  /-- If the flushes after the last chunk succeed, everything has been accepted. -/
  accepted : fails (loopState src bulkLoadBatchSize fails chunks).calls = false →
    fails ((loopState src bulkLoadBatchSize fails chunks).calls + 1) = false →
    (finalState src bulkLoadBatchSize fails chunks).acceptedLinks =
        (finalState src bulkLoadBatchSize fails chunks).generated ∧
      (finalState src bulkLoadBatchSize fails chunks).acceptedCounts =
        (finalState src bulkLoadBatchSize fails chunks).produced

variable {bulkLoadBatchSize} {chunks}

/-- **A bulk load loses nothing and doubles nothing**, whatever calls of the store fail, for a
loader that gets no id twice. -/
theorem bulk_load_conserves (hbulk : 1 ≤ bulkLoadBatchSize) (hids : (loaderIds chunks).Nodup) :
    LoadConserves src bulkLoadBatchSize fails chunks := by
  obtain ⟨hgen, hprod⟩ := finalState_record src fails chunks hbulk
  refine ⟨fun s hs => ?_, hgen, fun id1 linkType => ?_,
    fun hlinks hcounts => finalState_accepted src fails chunks hbulk hlinks hcounts⟩
  · have h := keeps_runLoader src fails hbulk chunks .start conserved_start s hs
    exact ⟨h.links, h.loaded⟩
  · rw [hgen, hprod]
    exact countsOfKey_flatMap src hids id1 linkType

end

/-- Two links of the default type for every id. -/
def twoLinks : LinkSource where
  linkTypes := [defaultLinkType]
  nlinks := fun _ _ => 2
  link := fun id1 linkType j => ⟨id1, linkType, id1 + j, visibilityDefault, [], 0, 0⟩
  link_id1 := fun _ _ _ => rfl
  link_linkType := fun _ _ _ => rfl
  values := id
  values_perm := fun counts => List.Perm.refl counts

/-- Three ids in batches of two, where the first flush fails. -/
theorem bulk_load_conserves_three :
    LoadConserves twoLinks 2 (fun n => n = 0) [LoadChunk.range 0 1 4, LoadChunk.SHUTDOWN] :=
  bulk_load_conserves twoLinks (fun n => n = 0) (by decide) (by decide)

end TokuQa.LinkBench.Load
