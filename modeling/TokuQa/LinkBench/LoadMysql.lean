import TokuQa.LinkBench.ID2Chooser
import TokuQa.LinkBench.LoadConserve
import TokuQa.LinkBench.Mysql

/-!
# A bulk load, seen in the tables of `LinkStoreMysql`

The loader counts the links it generates; the link table keeps one row for each key it is
given. `Loaded` says what the tables hold after any sequence of bulk calls, which depends on
what was in the calls and not on their order, so the loaders may interleave as they like. The
two numbers are then compared key by key: they are equal exactly where no id2 is repeated
(`BulkLoad.counts_right_iff`).
-/

set_option autoImplicit false

namespace TokuQa.LinkBench

open TokuQa.Lib Mysql

def LinkCount.countKey (c : LinkCount) : CountKey := ⟨c.id1, c.linkType⟩

namespace Load

/-! ## The configuration -/

/-- What the loader draws on when it is set up from properties. -/
structure LoadConfig where
  singleAssoc : Bool
  id2chooser : ID2Chooser
  /-- What `calcTotalLinkCount` answers for an id, asked when it gets to a type. -/
  totCount : Int → Int → Int
  totCount_lt : ∀ id1 linkType, totCount id1 linkType < 2 ^ 63
  /-- `rng.nextInt((int) randomid2max)`, drawn for a link. -/
  nextInt : Int → Int → Nat → Int
  /-- A bound that is not positive throws, so a load that comes to its end has not met one. -/
  nextInt_range : singleAssoc = false → id2chooser.randomid2max ≠ 0 →
    ∀ id1, ∀ linkType ∈ id2chooser.getLinkTypes, ∀ j : Nat,
      j < id2chooser.calcLinkCount (totCount id1 linkType) linkType →
        0 ≤ nextInt id1 linkType j ∧ nextInt id1 linkType j < wrap32 id2chooser.randomid2max
  /-- `linkDataGen.fill`. -/
  data : Int → Int → Nat → List UInt8
  /-- `chooseInitialTimestamp`. -/
  time : Int → Int → Nat → Int
  values : List LinkCount → List LinkCount
  values_perm : ∀ counts, (values counts).Perm counts

namespace LoadConfig

def nlinks (cfg : LoadConfig) (id1 linkType : Int) : Int :=
  cfg.id2chooser.calcLinkCount (cfg.totCount id1 linkType) linkType

/-- `initLink`, then `constructLink`. -/
def constructLink (cfg : LoadConfig) (id1 linkType : Int) (outlinkIx : Nat) : Link where
  id1 := id1
  linkType := linkType
  id2 := if cfg.singleAssoc then 45
    else cfg.id2chooser.chooseForLoad (cfg.nextInt id1 linkType outlinkIx) id1 outlinkIx
  visibility := visibilityDefault
  data := if cfg.singleAssoc then [] else cfg.data id1 linkType outlinkIx
  version := 0
  time := cfg.time id1 linkType outlinkIx

def source (cfg : LoadConfig) : LinkSource where
  linkTypes := cfg.id2chooser.getLinkTypes
  nlinks := cfg.nlinks
  link := cfg.constructLink
  link_id1 := fun _ _ _ => rfl
  link_linkType := fun _ _ _ => rfl
  values := cfg.values
  values_perm := cfg.values_perm

/-- An id2 is not chosen twice for one id and type: there is at most one link, or ids are
counted up, or the draws happen to differ. -/
def ChoosesOnce (cfg : LoadConfig) (id1 linkType : Int) : Prop :=
  cfg.nlinks id1 linkType ≤ 1 ∨
    cfg.singleAssoc = false ∧
      (cfg.id2chooser.randomid2max = 0 ∨
        ∀ i j : Nat, i < j → j < cfg.nlinks id1 linkType →
          cfg.nextInt id1 linkType i ≠ cfg.nextInt id1 linkType j)

end LoadConfig

/-! ## The calls on the tables -/

/-- An accepted call, on the store. A bulk call does not read the clock. -/
def Batch.apply (now : Int) : Batch → Db → Db
  | .link l, db => (addLink now l [] db).conn
  | .links ls, db => (addBulkLinks ls [] db).conn
  | .counts cs, db => (addBulkCounts cs [] db).conn

def applyBatches (now : Int) (batches : List Batch) (db : Db) : Db :=
  batches.foldl (fun db b => b.apply now db) db

theorem addBulkLinks_idle (ls : List Link) (t : Tables) :
    (addBulkLinks ls [] (Conn.idle t)).conn = Conn.idle (insertLinks ls t).2 := by
  cases ls <;> rfl

theorem addBulkCounts_idle (cs : List LinkCount) (t : Tables) :
    (addBulkCounts cs [] (Conn.idle t)).conn = Conn.idle (replaceCounts cs t) := by
  cases cs <;> rfl

/-- What the tables hold after calls with these links and counts: a visible row for each key
among the links, and for each key among the counts one of them. -/
structure Loaded (links : List Link) (counts : List LinkCount) (t : Tables) : Prop where
  link_isSome : ∀ key, (t.linktable.lookup key).isSome ↔ ∃ l ∈ links, l.key = key
  visible : ∀ key row, t.linktable.lookup key = some row → row.visibility = visibilityDefault
  count_isSome : ∀ k, (t.counttable.lookup k).isSome ↔ ∃ c ∈ counts, c.countKey = k
  count_eq : ∀ k row, t.counttable.lookup k = some row →
    ∃ c ∈ counts, c.countKey = k ∧ row.count = c.count

theorem loaded_empty : Loaded [] [] Tables.empty :=
  ⟨by simp [Tables.empty], by simp [Tables.empty], by simp [Tables.empty], by simp [Tables.empty]⟩

section

variable {links : List Link} {counts : List LinkCount} {t : Tables}

theorem Loaded.insertLink (h : Loaded links counts t) {l : Link}
    (hl : l.visibility = visibilityDefault) :
    Loaded (links ++ [l]) counts (insertLink l t).2 := by
  have hlookup : ∀ key, (Mysql.insertLink l t).2.linktable.lookup key = if key = l.key then
      some ((t.linktable.lookup l.key).elim l.row fun old => { old with visibility := l.visibility })
      else t.linktable.lookup key := fun key => Table.lookup_insertOnDuplicate ..
  refine ⟨fun key => ?_, fun key row hrow => ?_, h.count_isSome, h.count_eq⟩
  · rw [hlookup]
    by_cases hkey : key = l.key
    · simp [hkey]
    · rw [if_neg hkey, h.link_isSome]
      simp [Ne.symm hkey]
  · rw [hlookup] at hrow
    by_cases hkey : key = l.key
    · rw [if_pos hkey, Option.some.injEq] at hrow
      subst hrow
      cases t.linktable.lookup l.key <;> exact hl
    · rw [if_neg hkey] at hrow
      exact h.visible key row hrow

theorem Loaded.insertLinks (h : Loaded links counts t) {ls : List Link}
    (hls : ∀ l ∈ ls, l.visibility = visibilityDefault) :
    Loaded (links ++ ls) counts (insertLinks ls t).2 := by
  induction ls generalizing links t with
  | nil => simpa [Mysql.insertLinks] using h
  | cons l ls ih =>
    have hnext := ih (h.insertLink (hls l (by simp))) fun l' hl' => hls l' (by simp [hl'])
    rw [List.append_assoc] at hnext
    exact hnext

theorem Loaded.replaceCount (h : Loaded links counts t) (c : LinkCount) :
    Loaded links (counts ++ [c]) (Mysql.replaceCounts [c] t) := by
  have hlookup : ∀ k, (Mysql.replaceCounts [c] t).counttable.lookup k =
      if k = c.countKey then some ⟨c.count, c.time, c.version⟩ else t.counttable.lookup k :=
    fun k => Table.lookup_insert_eq ..
  refine ⟨h.link_isSome, h.visible, fun k => ?_, fun k row hrow => ?_⟩
  · rw [hlookup]
    by_cases hk : k = c.countKey
    · simp [hk]
    · rw [if_neg hk, h.count_isSome]
      simp [Ne.symm hk]
  · rw [hlookup] at hrow
    by_cases hk : k = c.countKey
    · rw [if_pos hk, Option.some.injEq] at hrow
      exact ⟨c, by simp, hk.symm, by rw [← hrow]⟩
    · rw [if_neg hk] at hrow
      obtain ⟨c', hc', hrest⟩ := h.count_eq k row hrow
      exact ⟨c', by simp [hc'], hrest⟩

theorem Loaded.replaceCounts (h : Loaded links counts t) (cs : List LinkCount) :
    Loaded links (counts ++ cs) (replaceCounts cs t) := by
  induction cs generalizing counts t with
  | nil => simpa [Mysql.replaceCounts] using h
  | cons c cs ih =>
    have hnext := ih (h.replaceCount c)
    rw [List.append_assoc] at hnext
    exact hnext

/-- **What bulk calls leave** does not depend on how they are cut or ordered. -/
theorem applyBatches_loaded (now : Int) {batches : List Batch}
    (hbulk : ∀ b ∈ batches, b.isBulk = true)
    (hvis : ∀ b ∈ batches, ∀ l ∈ b.linksOf, l.visibility = visibilityDefault)
    (h : Loaded links counts t) :
    ∃ t', applyBatches now batches (Conn.idle t) = Conn.idle t' ∧
      Loaded (links ++ batches.flatMap Batch.linksOf) (counts ++ batches.flatMap Batch.countsOf)
        t' := by
  induction batches generalizing links counts t with
  | nil => exact ⟨t, rfl, by simpa using h⟩
  | cons b batches ih =>
    have hbulk' : ∀ b' ∈ batches, b'.isBulk = true := fun b' hb' => hbulk b' (by simp [hb'])
    have hvis' : ∀ b' ∈ batches, ∀ l ∈ b'.linksOf, l.visibility = visibilityDefault :=
      fun b' hb' => hvis b' (by simp [hb'])
    have hfirst := hvis b (by simp)
    cases b with
    | link l =>
      -- not a call of bulk mode
      have hlink := hbulk (.link l) (by simp)
      cases hlink
    | links ls =>
      obtain ⟨t', happ, hloaded⟩ := ih hbulk' hvis' (h.insertLinks hfirst)
      refine ⟨t', ?_, ?_⟩
      · rw [← happ, ← addBulkLinks_idle]
        rfl
      · simpa [Batch.linksOf, Batch.countsOf, List.append_assoc] using hloaded
    | counts cs =>
      obtain ⟨t', happ, hloaded⟩ := ih hbulk' hvis' (h.replaceCounts cs)
      refine ⟨t', ?_, ?_⟩
      · rw [← happ, ← addBulkCounts_idle]
        rfl
      · simpa [Batch.linksOf, Batch.countsOf, List.append_assoc] using hloaded

/-- The visible rows under a count key are the different links of that key. -/
theorem Loaded.visibleCount_eq (h : Loaded links counts t) (id1 linkType : Int) :
    visibleCount t ⟨id1, linkType⟩ =
      ((linksOfKey id1 linkType links).map Link.key).toFinset.card := by
  have hrow : ∀ key row, t.linktable.lookup key = some row →
      (key.countKey = ⟨id1, linkType⟩ && row.visibility = visibilityDefault) =
        decide (key.countKey = ⟨id1, linkType⟩) := by
    intro key row hrow
    simp [h.visible key row hrow]
  unfold visibleCount
  rw [Table.count_eq_card hrow]
  congr 1
  ext key
  rw [Finset.mem_filter, Finmap.mem_keys, ← Finmap.lookup_isSome, h.link_isSome, List.mem_toFinset,
    List.mem_map]
  constructor
  · rintro ⟨⟨l, hl, rfl⟩, hkey⟩
    refine ⟨l, List.mem_filter.mpr ⟨hl, ?_⟩, rfl⟩
    simpa [LinkKey.countKey, Link.key] using hkey
  · rintro ⟨l, hl, rfl⟩
    obtain ⟨hl, hkey⟩ := List.mem_filter.mp hl
    refine ⟨⟨l, hl, rfl⟩, ?_⟩
    simpa [LinkKey.countKey, Link.key] using hkey

/-- The count row of a key, when the calls held no count for it or one number only. -/
theorem Loaded.countLinks_eq (h : Loaded links counts t) {id1 linkType : Int} {n : Nat}
    (hn : ((countsOfKey id1 linkType counts).map (·.count)).Perm
      (if n = 0 then [] else [(n : Int)])) :
    countLinks (Conn.idle t) ⟨id1, linkType⟩ = n := by
  have hmem : ∀ c ∈ counts, c.countKey = ⟨id1, linkType⟩ →
      c.count ∈ (if n = 0 then [] else [(n : Int)]) := by
    intro c hc hkey
    refine hn.mem_iff.mp (List.mem_map.mpr ⟨c, List.mem_filter.mpr ⟨hc, ?_⟩, rfl⟩)
    simpa [LinkCount.countKey] using hkey
  unfold countLinks
  cases hrow : (Conn.idle t).committed.counttable.lookup ⟨id1, linkType⟩ with
  | none =>
    -- no count row: then no call held a count for the key
    by_contra hne
    have hpos : n ≠ 0 := fun h0 => hne (by simp [h0])
    rw [if_neg hpos] at hn
    have hcount : (n : Int) ∈ (countsOfKey id1 linkType counts).map (·.count) :=
      hn.mem_iff.mpr (by simp)
    obtain ⟨c, hc, -⟩ := List.mem_map.mp hcount
    obtain ⟨hc, hkey⟩ := List.mem_filter.mp hc
    have hsome := (h.count_isSome ⟨id1, linkType⟩).mpr
      ⟨c, hc, by simpa [LinkCount.countKey] using hkey⟩
    have hrow' : t.counttable.lookup ⟨id1, linkType⟩ = none := hrow
    simp [hrow'] at hsome
  | some row =>
    obtain ⟨c, hc, hkey, hcount⟩ := h.count_eq _ row hrow
    have hin := hmem c hc hkey
    by_cases h0 : n = 0
    · simp [h0] at hin
    · rw [if_neg h0, List.mem_singleton] at hin
      exact hcount.trans hin

end

/-! ## One list of links -/

/-- The links of one id and type, in the order they are generated. -/
theorem linksFor_filter (src : LinkSource) (hnodup : src.linkTypes.Nodup) (id1 linkType : Int) :
    ((linksFor src id1).filter fun l => l.linkType = linkType) =
      if linkType ∈ src.linkTypes then
        (List.range (src.nlinks id1 linkType).toNat).map (src.link id1 linkType)
      else [] := by
  have hkey : ∀ t, ∀ l ∈ (List.range (src.nlinks id1 t).toNat).map (src.link id1 t),
      l.linkType = t := by
    intro t l hl
    obtain ⟨j, -, rfl⟩ := List.mem_map.mp hl
    exact src.link_linkType id1 t j
  have hflat := flatMap_filter_key Link.linkType hkey hnodup linkType fun _ => true
  simpa [linksFor] using hflat

namespace LoadConfig

variable (cfg : LoadConfig) {id1 linkType : Int}

theorem nlinks_lt (id1 : Int) (ht : linkType ∈ cfg.id2chooser.getLinkTypes) :
    cfg.nlinks id1 linkType < 2 ^ 63 :=
  ID2Chooser.calcLinkCount_lt (cfg.totCount_lt id1 linkType) ht

/-- **No key twice** is no id2 twice. -/
theorem nodup_keys_iff (ht : linkType ∈ cfg.id2chooser.getLinkTypes) :
    (((List.range (cfg.nlinks id1 linkType).toNat).map (cfg.constructLink id1 linkType)).map
      Link.key).Nodup ↔ cfg.ChoosesOnce id1 linkType := by
  have hlt := cfg.nlinks_lt id1 ht
  rw [List.map_map, List.nodup_map_iff_inj_on List.nodup_range]
  have hkey : ∀ i j, (cfg.constructLink id1 linkType i).key = (cfg.constructLink id1 linkType j).key ↔
      (cfg.constructLink id1 linkType i).id2 = (cfg.constructLink id1 linkType j).id2 := by
    intro i j
    simp [Link.key, constructLink]
  simp only [Function.comp_apply, hkey, List.mem_range]
  unfold ChoosesOnce constructLink ID2Chooser.chooseForLoad
  dsimp only
  by_cases hone : cfg.nlinks id1 linkType ≤ 1
  · -- a list of at most one link repeats nothing
    refine iff_of_true (fun i hi j hj _ => by omega) (Or.inl hone)
  cases hsingle : cfg.singleAssoc with
  | true =>
    -- every link of the list has id2 45
    refine iff_of_false (fun h => ?_) (by simp [hone])
    have h01 := h 0 (by omega) 1 (by omega) rfl
    cases h01
  | false =>
    by_cases hmax : cfg.id2chooser.randomid2max = 0
    · refine iff_of_true (fun i hi j hj h => ?_) (Or.inr ⟨rfl, Or.inl hmax⟩)
      simp only [Bool.false_eq_true, if_false, if_pos hmax] at h
      exact ID2Chooser.wrap64_add_injective id1 (by omega) (by omega) h
    · simp only [Bool.false_eq_true, if_false, hone, hmax, false_or, true_and]
      constructor
      · intro h i j hij hj heq
        have := h i (by omega) j (by omega) heq
        omega
      · intro h i hi j hj heq
        rcases Nat.lt_trichotomy i j with hij | hij | hij
        · exact absurd heq (h i j hij (by omega))
        · exact hij
        · exact absurd heq.symm (h j i hij (by omega))

end LoadConfig

/-! ## The whole load -/

/-- A loader: the chunks it takes, and which of its calls of the store fail. -/
structure LoaderRun where
  chunks : List LoadChunk
  fails : Nat → Bool

/-- The calls the store accepts from a loader. -/
def LoaderRun.accepted (cfg : LoadConfig) (bulkLoadBatchSize : Int) (r : LoaderRun) : List Batch :=
  (finalState cfg.source bulkLoadBatchSize r.fails r.chunks).accepted

/-- The flushes after the last chunk succeed. -/
def LoaderRun.Flushed (cfg : LoadConfig) (bulkLoadBatchSize : Int) (r : LoaderRun) : Prop :=
  r.fails (loopState cfg.source bulkLoadBatchSize r.fails r.chunks).calls = false ∧
    r.fails ((loopState cfg.source bulkLoadBatchSize r.fails r.chunks).calls + 1) = false

instance (cfg : LoadConfig) (bulkLoadBatchSize : Int) (r : LoaderRun) :
    Decidable (r.Flushed cfg bulkLoadBatchSize) :=
  inferInstanceAs (Decidable (_ ∧ _))

/-- A bulk load that has come to its end: loaders that share no id and have flushed what they
had, and the calls of all of them in some order. -/
structure BulkLoad (cfg : LoadConfig) (bulkLoadBatchSize : Int) where
  loaders : List LoaderRun
  nodup : (loaders.flatMap fun r => loaderIds r.chunks).Nodup
  flushed : ∀ r ∈ loaders, r.Flushed cfg bulkLoadBatchSize
  batches : List Batch
  batches_perm : batches.Perm (loaders.flatMap (LoaderRun.accepted cfg bulkLoadBatchSize))

namespace BulkLoad

variable {cfg : LoadConfig} {bulkLoadBatchSize : Int}

def ids (load : BulkLoad cfg bulkLoadBatchSize) : List Int :=
  load.loaders.flatMap fun r => loaderIds r.chunks

/-- The store after the load, which began with empty tables. -/
def db (load : BulkLoad cfg bulkLoadBatchSize) (now : Int) : Db :=
  applyBatches now load.batches (Conn.idle Tables.empty)

variable (load : BulkLoad cfg bulkLoadBatchSize)

theorem nodup_ids : load.ids.Nodup := load.nodup

/-- What all calls hold is what all ids get, up to order. -/
theorem flatMap_perm {α : Type} {inBatch : Batch → List α} {ofId : Int → List α}
    (h : ∀ r ∈ load.loaders, (r.accepted cfg bulkLoadBatchSize).flatMap inBatch =
      (loaderIds r.chunks).flatMap ofId) :
    (load.batches.flatMap inBatch).Perm (load.ids.flatMap ofId) := by
  have hperm := load.batches_perm.flatMap_right inBatch
  have heq : (load.loaders.flatMap (LoaderRun.accepted cfg bulkLoadBatchSize)).flatMap inBatch =
      load.ids.flatMap ofId := by
    unfold ids
    rw [List.flatMap_assoc, List.flatMap_assoc]
    exact List.flatMap_congr h
  rwa [heq] at hperm

theorem links_perm (hbulk : 1 ≤ bulkLoadBatchSize) :
    (load.batches.flatMap Batch.linksOf).Perm (load.ids.flatMap (linksFor cfg.source)) := by
  refine load.flatMap_perm fun r hr => ?_
  obtain ⟨hlinks, hcounts⟩ := load.flushed r hr
  exact (finalState_accepted cfg.source r.fails r.chunks hbulk hlinks hcounts).1.trans
    (finalState_record cfg.source r.fails r.chunks hbulk).1

theorem counts_perm (hbulk : 1 ≤ bulkLoadBatchSize) :
    (load.batches.flatMap Batch.countsOf).Perm (load.ids.flatMap (countsFor cfg.source)) := by
  refine load.flatMap_perm fun r hr => ?_
  obtain ⟨hlinks, hcounts⟩ := load.flushed r hr
  exact (finalState_accepted cfg.source r.fails r.chunks hbulk hlinks hcounts).2.trans
    (finalState_record cfg.source r.fails r.chunks hbulk).2

theorem isBulk (hbulk : 1 ≤ bulkLoadBatchSize) : ∀ b ∈ load.batches, b.isBulk = true := by
  intro b hb
  obtain ⟨r, -, hb⟩ := List.mem_flatMap.mp (load.batches_perm.mem_iff.mp hb)
  exact (finalState_conserved cfg.source r.fails r.chunks hbulk).bulk b hb

theorem visible (hbulk : 1 ≤ bulkLoadBatchSize) :
    ∀ b ∈ load.batches, ∀ l ∈ b.linksOf, l.visibility = visibilityDefault := by
  intro b hb l hl
  have hmem := (load.links_perm hbulk).mem_iff.mp (List.mem_flatMap.mpr ⟨b, hb, hl⟩)
  obtain ⟨id1, -, hl⟩ := List.mem_flatMap.mp hmem
  obtain ⟨linkType, -, hl⟩ := List.mem_flatMap.mp hl
  obtain ⟨j, -, rfl⟩ := List.mem_map.mp hl
  rfl

/-- The count and the rows of one key agree exactly when its links have different keys. -/
theorem countLinks_eq_iff (hbulk : 1 ≤ bulkLoadBatchSize) (now id1 linkType : Int) :
    countLinks (load.db now) ⟨id1, linkType⟩ =
        visibleCount (load.db now).committed ⟨id1, linkType⟩ ↔
      ((linksOfKey id1 linkType (load.ids.flatMap (linksFor cfg.source))).map Link.key).Nodup := by
  obtain ⟨t, hdb, hloaded⟩ := applyBatches_loaded now (load.isBulk hbulk) (load.visible hbulk)
    loaded_empty
  rw [List.nil_append, List.nil_append] at hloaded
  have hlinks : ((linksOfKey id1 linkType (load.batches.flatMap Batch.linksOf)).map Link.key).Perm
      ((linksOfKey id1 linkType (load.ids.flatMap (linksFor cfg.source))).map Link.key) :=
    ((load.links_perm hbulk).filter _).map _
  have hcounts : ((countsOfKey id1 linkType (load.batches.flatMap Batch.countsOf)).map (·.count)).Perm
      ((countsOfKey id1 linkType (load.ids.flatMap (countsFor cfg.source))).map (·.count)) :=
    ((load.counts_perm hbulk).filter _).map _
  rw [countsOfKey_flatMap cfg.source load.nodup_ids] at hcounts
  have hcount := hloaded.countLinks_eq hcounts
  have hvisible := hloaded.visibleCount_eq id1 linkType
  rw [List.toFinset_eq_of_perm _ _ hlinks] at hvisible
  have hcommitted : (Conn.idle t).committed = t := rfl
  unfold db
  rw [hdb, hcount, hcommitted, hvisible, Nat.cast_inj, eq_comm, ← Multiset.coe_nodup,
    ← Multiset.toFinset_card_eq_card_iff_nodup]
  simp

/-- The links of one key: one list of a loaded id, or none. -/
theorem linksOfKey_eq (id1 linkType : Int) :
    linksOfKey id1 linkType (load.ids.flatMap (linksFor cfg.source)) =
      if id1 ∈ load.ids ∧ linkType ∈ cfg.id2chooser.getLinkTypes then
        (List.range (cfg.nlinks id1 linkType).toNat).map (cfg.constructLink id1 linkType)
      else [] := by
  have htypes := linksFor_filter cfg.source cfg.id2chooser.nodup_getLinkTypes id1 linkType
  rw [linksOfKey_flatMap cfg.source load.nodup_ids, htypes, ite_and]
  rfl

/-- **The counts are right** exactly where the load does not choose an id2 twice for one id and
type. -/
theorem counts_right_iff (hbulk : 1 ≤ bulkLoadBatchSize) (now : Int) :
    (∀ k, countLinks (load.db now) k = visibleCount (load.db now).committed k) ↔
      ∀ id1 ∈ load.ids, ∀ linkType ∈ cfg.id2chooser.getLinkTypes, cfg.ChoosesOnce id1 linkType := by
  constructor
  · intro h id1 hid1 linkType ht
    have hnodup := (load.countLinks_eq_iff hbulk now id1 linkType).mp (h ⟨id1, linkType⟩)
    rw [load.linksOfKey_eq, if_pos ⟨hid1, ht⟩] at hnodup
    exact (cfg.nodup_keys_iff ht).mp hnodup
  · rintro h ⟨id1, linkType⟩
    refine (load.countLinks_eq_iff hbulk now id1 linkType).mpr ?_
    rw [load.linksOfKey_eq]
    by_cases hkey : id1 ∈ load.ids ∧ linkType ∈ cfg.id2chooser.getLinkTypes
    · rw [if_pos hkey]
      exact (cfg.nodup_keys_iff hkey.2).mpr (h id1 hkey.1 linkType hkey.2)
    · rw [if_neg hkey]
      exact List.nodup_nil

end BulkLoad

/-- Two links of one type for each id; every draw is 0. -/
def twoPerId (randomid2max : Int) (h : randomid2max ≠ 0 → 0 < wrap32 randomid2max) :
    LoadConfig where
  singleAssoc := false
  id2chooser := { randomid2max := randomid2max, linkTypeCount := 1 }
  totCount := fun _ _ => 2
  totCount_lt := fun _ _ => by decide
  nextInt := fun _ _ _ => 0
  nextInt_range := fun _ hmax _ _ _ _ _ => ⟨le_refl 0, h hmax⟩
  data := fun _ _ _ => []
  time := fun _ _ _ => 0
  values := id
  values_perm := fun counts => List.Perm.refl counts

/-- A loader of the ids in `[start, stop)` whose first flush fails. -/
def stumbling (start stop : Int) : LoaderRun :=
  ⟨[LoadChunk.range 0 start stop, LoadChunk.SHUTDOWN], fun n => n = 0⟩

/-- Two loaders, the calls of the second in front. -/
def twoLoaders : BulkLoad (twoPerId 0 (fun h => absurd rfl h)) 3 where
  loaders := [stumbling 1 3, stumbling 3 5]
  nodup := by decide
  flushed := by decide
  batches := (stumbling 3 5).accepted _ 3 ++ (stumbling 1 3).accepted _ 3
  batches_perm := by simpa using List.perm_append_comm

theorem counts_right_two_loaders :
    (∀ k, countLinks (twoLoaders.db 0) k = visibleCount (twoLoaders.db 0).committed k) ↔
      ∀ id1 ∈ twoLoaders.ids, ∀ linkType ∈ [defaultLinkType],
        (twoPerId 0 (fun h => absurd rfl h)).ChoosesOnce id1 linkType :=
  twoLoaders.counts_right_iff (by decide) 0

/-- One id, and both its links point to the only id2 there is. -/
def oneId2 : BulkLoad (twoPerId 1 (fun _ => by decide)) 2 where
  loaders := [⟨[LoadChunk.range 0 1 2, LoadChunk.SHUTDOWN], fun _ => false⟩]
  nodup := by decide
  flushed := by decide
  batches := [.links (linksFor (twoPerId 1 (fun _ => by decide)).source 1),
    .links [], .counts (countsFor (twoPerId 1 (fun _ => by decide)).source 1)]
  batches_perm := List.Perm.refl _

/-- The count is 2, and there is one row. -/
theorem one_id2_miscounts :
    ¬ ∀ k, countLinks (oneId2.db 0) k = visibleCount (oneId2.db 0).committed k := by
  intro h
  have hkey := h ⟨1, defaultLinkType⟩
  have hcount : countLinks (oneId2.db 0) ⟨1, defaultLinkType⟩ = 2 := by decide
  have hrows : visibleCount (oneId2.db 0).committed ⟨1, defaultLinkType⟩ = 1 := by decide
  rw [hcount, hrows] at hkey
  cases hkey

end Load

end TokuQa.LinkBench
