import TokuQa.LinkBench.LoadMysql
import TokuQa.LinkBench.OpChooser

/-!
# Which links exist: the loader's answer and the requester's guess

The loader counts the links of an id up from the id itself. The requester does not look: it
asks how many links the id was loaded with, stretches that number by the probability that its
guess is to hit, and draws from as many ids. `load_request_agree` compares the two sets. They
start at the same id, and the range is stretched as little as the probability allows.

A run over a single id is another benchmark: the loader makes every link point to id2 45.
-/

set_option autoImplicit false

namespace TokuQa.LinkBench

open TokuQa.Lib Load Proc

/-- The `n` ids from `id1` on, counted as the loops count: with `long` arithmetic. -/
def idRange (id1 n : Int) : Set Int :=
  {id2 | ∃ k, 0 ≤ k ∧ k < n ∧ id2 = wrap64 (id1 + k)}

/-- They are the interval unless the last of them is beyond the largest `long`. -/
theorem idRange_eq_Ico {id1 n : Int} (hid1 : -2 ^ 63 ≤ id1) (hlast : id1 + n ≤ 2 ^ 63) :
    idRange id1 n = Set.Ico id1 (id1 + n) := by
  ext id2
  constructor
  · rintro ⟨k, hk, hkn, rfl⟩
    have hlong : wrap64 (id1 + k) = id1 + k := wrap_eq_self (by omega) (by omega)
    rw [hlong]
    exact ⟨by omega, by omega⟩
  · rintro ⟨hlow, hhigh⟩
    refine ⟨id2 - id1, by omega, by omega, ?_⟩
    have hlong : wrap64 id2 = id2 := wrap_eq_self (by omega) (by omega)
    rw [add_sub_cancel, hlong]

theorem idRange_mono {id1 n n' : Int} (h : n ≤ n') : idRange id1 n ⊆ idRange id1 n' :=
  fun _ ⟨k, hk, hkn, heq⟩ => ⟨k, hk, hkn.trans_le h, heq⟩

/-! ## The loader -/

namespace Load

/-- The id2s of one type that the loader creates for an id. -/
def LoadConfig.createdId2s (cfg : LoadConfig) (bulkLoadBatchSize : Int) (fails : Nat → Bool)
    (id1 linkType : Int) : Set Int :=
  {id2 | ∃ l ∈ ((createOutLinks cfg.source bulkLoadBatchSize fails id1).last .start).generated,
    l.linkType = linkType ∧ l.id2 = id2}

/-- The `j`-th link gets the `j`-th choice. -/
theorem LoadConfig.mem_createdId2s (cfg : LoadConfig) (bulkLoadBatchSize : Int)
    (fails : Nat → Bool) {id1 linkType id2 : Int} (ht : linkType ∈ cfg.id2chooser.getLinkTypes) :
    id2 ∈ cfg.createdId2s bulkLoadBatchSize fails id1 linkType ↔
      ∃ j : Nat, (j : Int) < cfg.nlinks id1 linkType ∧
        (cfg.constructLink id1 linkType j).id2 = id2 := by
  have hgen := createOutLinks_generated cfg.source fails bulkLoadBatchSize id1 .start
  have hfilter := linksFor_filter cfg.source cfg.id2chooser.nodup_getLinkTypes id1 linkType
  rw [if_pos (show linkType ∈ cfg.source.linkTypes from ht)] at hfilter
  have hmem : id2 ∈ cfg.createdId2s bulkLoadBatchSize fails id1 linkType ↔
      ∃ l ∈ (linksFor cfg.source id1).filter fun l => l.linkType = linkType, l.id2 = id2 := by
    unfold createdId2s
    rw [hgen]
    simp [LoadState.start, and_assoc]
  rw [hmem, hfilter]
  constructor
  · rintro ⟨l, hl, rfl⟩
    obtain ⟨j, hj, rfl⟩ := List.mem_map.mp hl
    exact ⟨j, Int.lt_toNat.mp (List.mem_range.mp hj), rfl⟩
  · rintro ⟨j, hj, rfl⟩
    exact ⟨_, List.mem_map.mpr ⟨j, List.mem_range.mpr (Int.lt_toNat.mpr hj), rfl⟩, rfl⟩

end Load

/-! ## The requester -/

namespace OpChooser

/-- The id2s a request can get, over all draws. -/
def requestedId2s (c : OpChooser) (id1 linkType : Int) (pExisting : ℚ) : Set Int :=
  {id2 | ∃ nextInt, Draws nextInt ∧ c.chooseForOp nextInt id1 linkType pExisting = .ok id2}

/-- All four are probabilities, and none is zero. -/
theorem probability_of_mem : ∀ pExisting ∈ [pGetExist, pUpdateExist, pDeleteExist, pAddExist],
    0 < pExisting ∧ pExisting ≤ 1 := by
  norm_num [pGetExist, pUpdateExist, pDeleteExist, pAddExist]

/-- The stretched number of links. -/
def rangeFor (pExisting : ℚ) (nlinks : Int) : Int := max 1 ⌈nlinks / pExisting⌉

theorem calcID2Range_eq {pExisting : ℚ} {nlinks : Int} (hR : rangeFor pExisting nlinks < 2 ^ 31) :
    calcID2Range pExisting nlinks = rangeFor pExisting nlinks := by
  unfold rangeFor at hR ⊢
  unfold calcID2Range toLong
  rw [one_div_mul_eq_div]
  dsimp only
  omega

variable {c : OpChooser} {id1 linkType nlinks : Int} {pExisting : ℚ}

/-- One request: an offset below the range, drawn. -/
theorem chooseForOp_eq (hmax : c.randomid2max = 0) (hconf : c.id2genConfig = 0)
    (hn : c.calcLinkCount id1 linkType = .ok nlinks) (hR : rangeFor pExisting nlinks < 2 ^ 31)
    (nextInt : Int → Int) :
    c.chooseForOp nextInt id1 linkType pExisting =
      .ok (wrap64 (id1 + nextInt (rangeFor pExisting nlinks))) := by
  have hone : 1 ≤ rangeFor pExisting nlinks := le_max_left _ _
  have hint : wrap32 (rangeFor pExisting nlinks) = rangeFor pExisting nlinks :=
    wrap_eq_self (by omega) hR
  have hdraw : draw nextInt (rangeFor pExisting nlinks) =
      .ok (nextInt (rangeFor pExisting nlinks)) := if_neg (by omega)
  unfold chooseForOp
  rw [hn]
  simp only [bind, Except.bind, calcID2Range_eq hR, chooseForOpInternal, if_neg (not_not.mpr hone),
    if_pos hmax, hint, hdraw, hconf]
  rfl

/-- **What a request can ask for**: every id2 of the range, and no other. -/
theorem requestedId2s_eq (hmax : c.randomid2max = 0) (hconf : c.id2genConfig = 0)
    (hn : c.calcLinkCount id1 linkType = .ok nlinks) (hR : rangeFor pExisting nlinks < 2 ^ 31) :
    c.requestedId2s id1 linkType pExisting = idRange id1 (rangeFor pExisting nlinks) := by
  have hone : 1 ≤ rangeFor pExisting nlinks := le_max_left _ _
  ext id2
  constructor
  · rintro ⟨nextInt, hdraws, hid2⟩
    rw [chooseForOp_eq hmax hconf hn hR] at hid2
    obtain ⟨hlow, hhigh⟩ := hdraws (rangeFor pExisting nlinks) hone
    exact ⟨nextInt (rangeFor pExisting nlinks), hlow, hhigh, (Except.ok.inj hid2).symm⟩
  · rintro ⟨k, hk, hkR, rfl⟩
    -- a generator that returns `k` where it may
    refine ⟨fun bound => if k < bound then k else 0, fun bound hbound => ?_, ?_⟩
    · dsimp only
      split <;> omega
    · rw [chooseForOp_eq hmax hconf hn hR, if_pos hkR]

/-- The range is stretched at least so far that it holds every link. -/
theorem le_rangeFor (hp : 0 < pExisting) (hp' : pExisting ≤ 1) (hn : 0 ≤ nlinks) :
    nlinks ≤ rangeFor pExisting nlinks := by
  have hnlinks : (0 : ℚ) ≤ nlinks := Int.cast_nonneg hn
  have hstretch : (nlinks : ℚ) ≤ nlinks / pExisting := le_div_self hnlinks hp hp'
  have hceil : (nlinks : ℚ) ≤ (⌈nlinks / pExisting⌉ : Int) := hstretch.trans (Int.le_ceil _)
  exact (Int.cast_le.mp hceil).trans (le_max_right _ _)

/-- **The hit rate**: at most the probability, and one id2 less would be too many hits. -/
theorem hit_rate (hp : 0 < pExisting) (hR : 1 < rangeFor pExisting nlinks) :
    (nlinks : ℚ) / rangeFor pExisting nlinks ≤ pExisting ∧
      pExisting < (nlinks : ℚ) / (rangeFor pExisting nlinks - 1) := by
  have hceil : rangeFor pExisting nlinks = ⌈nlinks / pExisting⌉ := by
    unfold rangeFor at hR ⊢
    omega
  have hpos : (1 : ℚ) < rangeFor pExisting nlinks := by exact_mod_cast hR
  constructor
  · have hle : (nlinks : ℚ) / pExisting ≤ rangeFor pExisting nlinks := by
      rw [hceil]
      exact Int.le_ceil _
    rw [div_le_iff₀ (by linarith), mul_comm]
    exact (div_le_iff₀ hp).mp hle
  · have hlt : (rangeFor pExisting nlinks : ℚ) - 1 < nlinks / pExisting := by
      rw [hceil]
      linarith [Int.ceil_lt_add_one ((nlinks : ℚ) / pExisting)]
    rw [lt_div_iff₀ (by linarith), mul_comm]
    exact (lt_div_iff₀ hp).mp hlt

end OpChooser

/-! ## The two together -/

/-- A loader and a requester set up from the same properties. -/
structure SameProps (cfg : LoadConfig) (c : OpChooser) : Prop where
  id2chooser : cfg.id2chooser = c.toID2Chooser
  /-- Both drivers pass `maxid1 == startid1 + 1`. -/
  singleAssoc : cfg.singleAssoc = decide (c.maxid1 = c.startid1 + 1)
  totCount : ∀ id1 linkType totCount, c.calcTotalLinkCount id1 = .ok totCount →
    cfg.totCount id1 linkType = totCount

section

variable {cfg : LoadConfig} {c : OpChooser} {id1 linkType nlinks : Int}

theorem SameProps.nlinks_eq (h : SameProps cfg c)
    (hn : c.calcLinkCount id1 linkType = .ok nlinks) : cfg.nlinks id1 linkType = nlinks := by
  obtain ⟨totCount, htot, hn⟩ := bind_eq_ok.mp hn
  unfold LoadConfig.nlinks
  rw [h.id2chooser, h.totCount id1 linkType totCount htot]
  exact Except.ok.inj hn

/-- What the loader creates: the ids from `id1` on, or in a run over a single id one id2. -/
theorem SameProps.createdId2s_eq (h : SameProps cfg c) (hmax : c.randomid2max = 0)
    (bulkLoadBatchSize : Int) (fails : Nat → Bool) (ht : linkType ∈ c.getLinkTypes)
    (hn : c.calcLinkCount id1 linkType = .ok nlinks) :
    cfg.createdId2s bulkLoadBatchSize fails id1 linkType =
      if c.maxid1 = c.startid1 + 1 then {id2 | id2 = 45 ∧ 1 ≤ nlinks} else idRange id1 nlinks := by
  have hmax' : cfg.id2chooser.randomid2max = 0 := by rw [h.id2chooser, hmax]
  have ht' : linkType ∈ cfg.id2chooser.getLinkTypes := by rwa [h.id2chooser]
  ext id2
  rw [cfg.mem_createdId2s bulkLoadBatchSize fails ht', h.nlinks_eq hn]
  by_cases hsingle : c.maxid1 = c.startid1 + 1
  · have hid2 : ∀ j, (cfg.constructLink id1 linkType j).id2 = 45 :=
      fun j => if_pos (by rw [h.singleAssoc, decide_eq_true hsingle])
    rw [if_pos hsingle]
    constructor
    · rintro ⟨j, hj, rfl⟩
      exact ⟨hid2 j, by omega⟩
    · rintro ⟨rfl, hone⟩
      exact ⟨0, by omega, hid2 0⟩
  · have hid2 : ∀ j : Nat, (cfg.constructLink id1 linkType j).id2 = wrap64 (id1 + j) := by
      intro j
      unfold LoadConfig.constructLink ID2Chooser.chooseForLoad
      rw [h.singleAssoc, decide_eq_false hsingle, hmax']
      rfl
    rw [if_neg hsingle]
    constructor
    · rintro ⟨j, hj, rfl⟩
      exact ⟨j, by omega, hj, hid2 j⟩
    · rintro ⟨k, hk, hkn, rfl⟩
      have hcast : ((k.toNat : Nat) : Int) = k := Int.toNat_of_nonneg hk
      exact ⟨k.toNat, by omega, by rw [hid2, hcast]⟩

open OpChooser in
/-- **Load and request agree**: what is created and what is asked for are ranges from the id
on, the first inside the second, and the second as long as the hit rate allows. Only a run over
a single id creates something else. -/
theorem load_request_agree (h : SameProps cfg c) (hmax : c.randomid2max = 0)
    (hconf : c.id2genConfig = 0) (bulkLoadBatchSize : Int) (fails : Nat → Bool) {pExisting : ℚ}
    (hp : pExisting ∈ [pGetExist, pUpdateExist, pDeleteExist, pAddExist])
    (ht : linkType ∈ c.getLinkTypes) (hn : c.calcLinkCount id1 linkType = .ok nlinks)
    (hR : rangeFor pExisting nlinks < 2 ^ 31) :
    (cfg.createdId2s bulkLoadBatchSize fails id1 linkType =
      if c.maxid1 = c.startid1 + 1 then {id2 | id2 = 45 ∧ 1 ≤ nlinks} else idRange id1 nlinks) ∧
    c.requestedId2s id1 linkType pExisting = idRange id1 (rangeFor pExisting nlinks) ∧
    (c.maxid1 ≠ c.startid1 + 1 → 1 ≤ nlinks →
      cfg.createdId2s bulkLoadBatchSize fails id1 linkType ⊆
        c.requestedId2s id1 linkType pExisting) ∧
    (1 < rangeFor pExisting nlinks →
      (nlinks : ℚ) / rangeFor pExisting nlinks ≤ pExisting ∧
        pExisting < (nlinks : ℚ) / (rangeFor pExisting nlinks - 1)) := by
  have hp01 := probability_of_mem pExisting hp
  have hcreated := h.createdId2s_eq hmax bulkLoadBatchSize fails ht hn
  have hrequested := requestedId2s_eq hmax hconf hn hR
  refine ⟨hcreated, hrequested, fun hmany hone => ?_, hit_rate hp01.1⟩
  rw [hcreated, if_neg hmany, hrequested]
  exact idRange_mono (le_rangeFor hp01.1 hp01.2 (by omega))

end

/-- A loader that gives every id three links of one type. -/
def threeLinks (singleAssoc : Bool) : LoadConfig where
  singleAssoc := singleAssoc
  id2chooser := { randomid2max := 0, linkTypeCount := 1 }
  totCount := fun _ _ => 3
  totCount_lt := fun _ _ => by decide
  nextInt := fun _ _ _ => 0
  nextInt_range := fun _ hmax => absurd rfl hmax
  data := fun _ _ _ => []
  time := fun _ _ _ => 0
  values := id
  values_perm := fun counts => List.Perm.refl counts

/-- The requester for the ids from 1 to `maxid1`. -/
def threeLinksFor (maxid1 : Int) : OpChooser := { OpChooser.ofConst 1 3 with maxid1 := maxid1 }

theorem sameProps_threeLinks (maxid1 : Int) :
    SameProps (threeLinks (maxid1 = 2)) (threeLinksFor maxid1) where
  id2chooser := rfl
  singleAssoc := rfl
  totCount := fun _ _ _ h => by
    obtain ⟨rank, hn⟩ := OpChooser.calcTotalLinkCount_ok h
    exact Except.ok.inj hn

/-- Two ids. -/
theorem load_request_agree_three_links :
    ((threeLinks false).createdId2s 10 (fun _ => false) 1 defaultLinkType =
      if (threeLinksFor 3).maxid1 = (threeLinksFor 3).startid1 + 1 then
        {id2 | id2 = 45 ∧ (1 : Int) ≤ 3} else idRange 1 3) ∧
    (threeLinksFor 3).requestedId2s 1 defaultLinkType OpChooser.pGetExist =
      idRange 1 (OpChooser.rangeFor OpChooser.pGetExist 3) ∧
    ((threeLinksFor 3).maxid1 ≠ (threeLinksFor 3).startid1 + 1 → (1 : Int) ≤ 3 →
      (threeLinks false).createdId2s 10 (fun _ => false) 1 defaultLinkType ⊆
        (threeLinksFor 3).requestedId2s 1 defaultLinkType OpChooser.pGetExist) ∧
    (1 < OpChooser.rangeFor OpChooser.pGetExist 3 →
      ((3 : Int) : ℚ) / OpChooser.rangeFor OpChooser.pGetExist 3 ≤ OpChooser.pGetExist ∧
        OpChooser.pGetExist < ((3 : Int) : ℚ) / (OpChooser.rangeFor OpChooser.pGetExist 3 - 1)) :=
  load_request_agree (sameProps_threeLinks 3) rfl rfl 10 (fun _ => false) (List.mem_cons_self ..)
    (by decide) rfl (by norm_num [OpChooser.rangeFor, OpChooser.pGetExist])

/-- One id: its three links all point to id2 45. -/
theorem single_id_points_elsewhere :
    SameProps (threeLinks true) (threeLinksFor 2) ∧
      (threeLinksFor 2).calcLinkCount 1 defaultLinkType = .ok 3 ∧
      (threeLinks true).createdId2s 10 (fun _ => false) 1 defaultLinkType ≠ idRange 1 3 := by
  refine ⟨sameProps_threeLinks 2, rfl, fun h => ?_⟩
  have hone : (1 : Int) ∈ idRange 1 3 := ⟨0, by decide, by decide, by decide⟩
  rw [← h] at hone
  obtain ⟨l, hl, -, hid2⟩ := hone
  have hall : ∀ l ∈ ((createOutLinks (threeLinks true).source 10 (fun _ => false) 1).last
      .start).generated, l.id2 = 45 := by decide
  rw [hall l hl] at hid2
  cases hid2

end TokuQa.LinkBench
