import Mathlib.Algebra.Order.Floor.Ring
import Mathlib.Data.Rat.Floor
import TokuQa.Lib.Fallible
import TokuQa.LinkBench.ID2Chooser
import TokuQa.LinkBench.InvertibleShuffler
import TokuQa.LinkBench.LinkDistributions

/-!
# `ID2Chooser.java`, the request phase

The rest of the class: how many links an id was loaded with, and which id2 a request asks for.
`OpChooser` adds the fields the load phase does not read. The number of links comes from the
link distribution at the id's rank, the rank from the shuffler, so it is an `Except` here:
either can throw, and two assertions guard the rank.

Three things are the environment's. `nextInt bound` is what `rng.nextInt(bound)` returns in a
call, for a positive bound (`Draws`); the distribution is a function of the id; and
`pExisting` is read as a rational number, where the source has a `double`. Differences of
ids are not wrapped: both `LinkBenchLoad` and `LinkBenchRequest` refuse a `startid1` below 1.
-/

set_option autoImplicit false

namespace TokuQa.LinkBench

open TokuQa.Lib LinkDistributions

structure OpChooser extends ID2Chooser where
  startid1 : Int
  maxid1 : Int
  nLinksShuffler : InvertibleShuffler
  linkDist : LinkDistribution
  id2genConfig : Int
  /-- "Information about number of request threads, used to generate thread-unique id2s". -/
  nrequesters : Int
  requesterID : Int

namespace OpChooser

/-- What the methods can throw. -/
inductive Exn where
  | assertionError
  | illegalArgument
  | shuffler (e : InvertibleShuffler.Exn)
  | dist (e : LinkDistributions.Exn)
deriving DecidableEq

/-! ## Probabilities -/

/-- "Mix of new and pre-loaded". -/
def pGetExist : ℚ := 1 / 2

/-- "Mostly pre-loaded". -/
def pUpdateExist : ℚ := 9 / 10

def pDeleteExist : ℚ := 9 / 10

/-- "Avoid colliding with pre-loaded too much". -/
def pAddExist : ℚ := 1 / 20

/-! ## Link counts -/

/-- "A low id after shuffling means many links, a high means few". The field `sameShuffle`,
which only a log message reads, is left out. -/
def calcTotalLinkCount (c : OpChooser) (id1 : Int) : Except Exn Int := do
  if ¬ (id1 ≥ c.startid1 ∧ id1 < c.maxid1) then
    throw .assertionError
  let shuffled ←
    if c.linkDist.doShuffle then
      match c.nLinksShuffler.invertPermute (id1 - c.startid1) with
      | .ok i => pure (c.startid1 + i)
      | .error e => throw (.shuffler e)
    else pure id1
  if ¬ (shuffled ≥ c.startid1 ∧ shuffled < c.maxid1) then
    throw .assertionError
  match c.linkDist.getNlinks shuffled with
  | .ok nlinks => pure nlinks
  | .error e => throw (.dist e)

def calcLinkCount (c : OpChooser) (id1 linkType : Int) : Except Exn Int := do
  let totCount ← c.calcTotalLinkCount id1
  return c.toID2Chooser.calcLinkCount totCount linkType

/-! ## Choosing an id2 -/

/-- The cast of a `double` to `long`, which saturates. -/
def toLong (x : Int) : Int := max (-2 ^ 63) (min (2 ^ 63 - 1) x)

/-- "Ensure non-empty range". -/
def calcID2Range (pExisting : ℚ) (nlinks : Int) : Int :=
  let range := toLong ⌈(1 / pExisting) * nlinks⌉
  max 1 range

/-- "Return a new id2 that satisfies 3 conditions: 1. close to current id2 (can be slightly
smaller, equal, or larger); 2. new_id2 % nrequesters = requestersId; 3. smaller or equal to
randomid2max unless randomid2max = 0". -/
def fixId2 (id2 nrequesters requesterID randomid2max : Int) : Int :=
  let newid2 := wrap64 (id2 - id2.tmod nrequesters + requesterID)
  if newid2 > randomid2max ∧ randomid2max > 0 then wrap64 (newid2 - nrequesters) else newid2

/-- `rng.nextInt(bound)`. -/
def draw (nextInt : Int → Int) (bound : Int) : Except Exn Int :=
  if bound ≤ 0 then throw .illegalArgument else pure (nextInt bound)

def chooseForOpInternal (c : OpChooser) (nextInt : Int → Int) (id1 range : Int) :
    Except Exn Int := do
  if ¬ range ≥ 1 then
    throw .assertionError
  let id2 ←
    if c.randomid2max = 0 then do
      let k ← draw nextInt (wrap32 range)
      pure (wrap64 (id1 + k))
    else draw nextInt (wrap32 c.randomid2max)
  if c.id2genConfig = 1 then
    return fixId2 id2 c.nrequesters c.requesterID c.randomid2max
  else return id2

def chooseForOp (c : OpChooser) (nextInt : Int → Int) (id1 linkType : Int) (pExisting : ℚ) :
    Except Exn Int := do
  let nlinks ← c.calcLinkCount id1 linkType
  c.chooseForOpInternal nextInt id1 (calcID2Range pExisting nlinks)

/-- A random number generator keeps to its bounds. -/
def Draws (nextInt : Int → Int) : Prop :=
  ∀ bound, 0 < bound → 0 ≤ nextInt bound ∧ nextInt bound < bound

/-! ## The rank of an id -/

/-- The total of an id whose rank the shuffler finds. -/
theorem calcTotalLinkCount_shuffled {c : OpChooser} {id1 i : Int}
    (hshuffle : c.linkDist.doShuffle = true) (hid1 : c.startid1 ≤ id1 ∧ id1 < c.maxid1)
    (hinv : c.nLinksShuffler.invertPermute (id1 - c.startid1) = .ok i)
    (hi : 0 ≤ i ∧ c.startid1 + i < c.maxid1) :
    c.calcTotalLinkCount id1 = (c.linkDist.getNlinks (c.startid1 + i)).mapError .dist := by
  unfold calcTotalLinkCount
  rw [if_neg (not_not.mpr hid1), if_pos hshuffle, hinv]
  dsimp only
  rw [pure_bind, if_neg (not_not.mpr ⟨by omega, hi.2⟩)]
  cases c.linkDist.getNlinks (c.startid1 + i) <;> rfl

/-- A total is what the distribution says at some rank. -/
theorem calcTotalLinkCount_ok {c : OpChooser} {id1 totCount : Int}
    (h : c.calcTotalLinkCount id1 = .ok totCount) :
    ∃ rank, c.linkDist.getNlinks rank = .ok totCount := by
  have hdist : ∀ rank : Int, (do
      if ¬ (rank ≥ c.startid1 ∧ rank < c.maxid1) then
        throw .assertionError
      match c.linkDist.getNlinks rank with
      | .ok nlinks => pure nlinks
      | .error e => throw (.dist e) : Except Exn Int) = .ok totCount →
      ∃ rank, c.linkDist.getNlinks rank = .ok totCount := by
    intro rank h
    obtain ⟨-, h⟩ := check_eq_ok.mp h
    refine ⟨rank, ?_⟩
    split at h
    · next hn => exact hn.trans (congrArg Except.ok (Except.ok.inj h))
    · cases h
  obtain ⟨-, h⟩ := check_eq_ok.mp h
  split at h
  · split at h
    · exact hdist _ h
    · cases h
  · exact hdist id1 h

/-! ## The split over types -/

/-- The same share for everyone, and one more for the first `leftOver`. -/
theorem sum_shares (n : Nat) (share leftOver : Int) :
    ((List.range n).map fun i : Nat => if (i : Int) < leftOver then share + 1 else share).sum =
      n * share + max 0 (min (n : Int) leftOver) := by
  induction n with
  | zero => simp
  | succ n ih =>
    have hmul : ((n + 1 : Nat) : Int) * share = n * share + share := by
      push_cast
      exact add_one_mul _ _
    rw [List.range_succ, List.map_append, List.sum_append, ih, hmul]
    simp only [List.map_cons, List.map_nil, List.sum_cons, List.sum_nil]
    split <;> omega

section

variable (c : ID2Chooser)

/-- The type number of a type is its place in the sequence. -/
theorem typeNum_eq (hn : c.linkTypeCount < 2 ^ 31) {i : Nat} (hi : i < c.linkTypeCount) :
    wrap32 (defaultLinkType + (i : Int) - defaultLinkType) = i := by
  rw [add_sub_cancel_left]
  exact wrap_eq_self (by omega) (by omega)

/-- What the types get together. -/
theorem sum_calcLinkCount (hn : c.linkTypeCount < 2 ^ 31) (totCount : Int) :
    (c.getLinkTypes.map (c.calcLinkCount totCount)).sum =
      c.linkTypeCount * totCount.tdiv c.linkTypeCount +
        max 0 (min (c.linkTypeCount : Int) (totCount - totCount.tdiv c.linkTypeCount)) := by
  have hmap : c.getLinkTypes.map (c.calcLinkCount totCount) =
      (List.range c.linkTypeCount).map fun i : Nat =>
        if (i : Int) < totCount - totCount.tdiv c.linkTypeCount then
          totCount.tdiv c.linkTypeCount + 1
        else totCount.tdiv c.linkTypeCount := by
    unfold ID2Chooser.getLinkTypes
    rw [List.map_map]
    refine List.map_congr_left fun i hi => ?_
    have htype := typeNum_eq c hn (List.mem_range.mp hi)
    simp only [Function.comp_apply, ID2Chooser.calcLinkCount, htype]
  rw [hmap, sum_shares]

/-- A type gets the share, or one more. -/
theorem calcLinkCount_cases (totCount linkType : Int) :
    c.calcLinkCount totCount linkType = totCount.tdiv c.linkTypeCount ∨
      c.calcLinkCount totCount linkType = totCount.tdiv c.linkTypeCount + 1 := by
  unfold ID2Chooser.calcLinkCount
  dsimp only
  split
  · exact Or.inr rfl
  · exact Or.inl rfl

/-- **The split adds up** to the total in three cases: there is one type, or so few links that
the share is nothing, or the total is negative and the types divide it. -/
theorem sum_calcLinkCount_eq_iff (hn : 1 ≤ c.linkTypeCount) (hn' : c.linkTypeCount < 2 ^ 31)
    (totCount : Int) :
    (c.getLinkTypes.map (c.calcLinkCount totCount)).sum = totCount ↔
      c.linkTypeCount = 1 ∨ (0 ≤ totCount ∧ totCount < c.linkTypeCount) ∨
        (totCount < 0 ∧ (c.linkTypeCount : Int) ∣ totCount) := by
  rw [sum_calcLinkCount c hn']
  generalize hcount : (c.linkTypeCount : Int) = n
  have hone : c.linkTypeCount = 1 ↔ n = 1 := by omega
  rw [hone]
  rcases le_or_gt 0 totCount with hpos | hneg
  · have hdiv := Int.emod_add_mul_ediv totCount n
    have hmod0 := Int.emod_nonneg totCount (b := n) (by omega)
    have hmodlt := Int.emod_lt_of_pos totCount (b := n) (by omega)
    have hshare : 0 ≤ totCount / n := Int.ediv_nonneg hpos (by omega)
    rw [Int.tdiv_eq_ediv_of_nonneg hpos]
    by_cases h1 : n = 1
    · subst h1
      simp
    rcases hshare.eq_or_lt with hzero | hsome
    · -- what is left over is the whole total
      rw [← hzero, mul_zero] at hdiv ⊢
      omega
    · -- more is left over than the remainder
      have hmore : 2 * (totCount / n) ≤ n * (totCount / n) :=
        Int.mul_le_mul_of_nonneg_right (by omega) hshare
      have hall : n ≤ n * (totCount / n) := le_mul_of_one_le_right (by omega) hsome
      omega
  · have hdiv := Int.emod_add_mul_ediv (-totCount) n
    have hmod0 := Int.emod_nonneg (-totCount) (b := n) (by omega)
    have hshare : 0 ≤ -totCount / n := Int.ediv_nonneg (by omega) (by omega)
    have hless : -totCount / n ≤ n * (-totCount / n) :=
      le_mul_of_one_le_left hshare (by omega)
    have htdiv : totCount.tdiv n = -(-totCount / n) := by
      rw [← Int.tdiv_eq_ediv_of_nonneg (by omega), Int.neg_tdiv, neg_neg]
    have hdvd : n ∣ totCount ↔ -totCount % n = 0 := by
      rw [← Int.dvd_iff_emod_eq_zero, Int.dvd_neg]
    rw [htdiv, hdvd, mul_neg]
    by_cases h1 : n = 1
    · subst h1
      simp
    · omega

end

/-- What the types get of an id's links: every one an answer, the answers in all the total, and
none more than one link ahead of another. -/
def SplitsEvenly (c : OpChooser) (id1 totCount : Int) : Prop :=
  ∃ count : Int → Int,
    (∀ linkType ∈ c.getLinkTypes, c.calcLinkCount id1 linkType = .ok (count linkType)) ∧
    (c.getLinkTypes.map count).sum = totCount ∧
    ∀ linkType ∈ c.getLinkTypes, ∀ linkType' ∈ c.getLinkTypes,
      count linkType - count linkType' ≤ 1

/-- **The total survives the split** in those three cases only: the links left over are counted
as if each type had got one link of its share. -/
theorem splitsEvenly_iff {c : OpChooser} {id1 totCount : Int} (hn : 1 ≤ c.linkTypeCount)
    (hn' : c.linkTypeCount < 2 ^ 31) (htot : c.calcTotalLinkCount id1 = .ok totCount) :
    c.SplitsEvenly id1 totCount ↔
      c.linkTypeCount = 1 ∨ (0 ≤ totCount ∧ totCount < c.linkTypeCount) ∨
        (totCount < 0 ∧ (c.linkTypeCount : Int) ∣ totCount) := by
  have hcalc : ∀ linkType, c.calcLinkCount id1 linkType =
      .ok (c.toID2Chooser.calcLinkCount totCount linkType) := by
    intro linkType
    unfold calcLinkCount
    rw [htot]
    rfl
  rw [← sum_calcLinkCount_eq_iff c.toID2Chooser hn hn' totCount]
  constructor
  · rintro ⟨count, hcount, hsum, -⟩
    refine (congrArg List.sum (List.map_congr_left fun linkType ht => ?_)).trans hsum
    exact Except.ok.inj ((hcalc linkType).symm.trans (hcount linkType ht))
  · intro hsum
    refine ⟨c.toID2Chooser.calcLinkCount totCount, fun linkType _ => hcalc linkType, hsum, ?_⟩
    intro linkType _ linkType' _
    have hcase := calcLinkCount_cases c.toID2Chooser totCount linkType
    have hcase' := calcLinkCount_cases c.toID2Chooser totCount linkType'
    omega

/-- A chooser for one id, in mode `CONST`. -/
def ofConst (linkTypeCount : Nat) (nlinks : Int) : OpChooser where
  randomid2max := 0
  linkTypeCount := linkTypeCount
  startid1 := 1
  maxid1 := 2
  nLinksShuffler := .new (fun _ => 0) 1024 1
  linkDist := ArithLinkDistribution.linkDistribution ArithLinkDistribution.exact
    ⟨1, 2, .const, 0, nlinks⟩
  id2genConfig := 0
  nrequesters := 1
  requesterID := 0

/-- One link, two types: the first gets it. -/
theorem splitsEvenly_one :
    (ofConst 2 1).SplitsEvenly 1 1 ↔ (ofConst 2 1).linkTypeCount = 1 ∨
      (0 ≤ (1 : Int) ∧ (1 : Int) < (ofConst 2 1).linkTypeCount) ∨
        ((1 : Int) < 0 ∧ ((ofConst 2 1).linkTypeCount : Int) ∣ 1) :=
  splitsEvenly_iff (by decide) (by decide) rfl

/-- Two links, two types: each gets one, and one more of the one that is left over. -/
theorem two_links_become_three :
    (ofConst 2 2).calcTotalLinkCount 1 = .ok 2 ∧ ¬ (ofConst 2 2).SplitsEvenly 1 2 := by
  refine ⟨rfl, ?_⟩
  rintro ⟨count, hcount, hsum, -⟩
  have htypes : (ofConst 2 2).getLinkTypes = [defaultLinkType, defaultLinkType + 1] := rfl
  have hfirst : count defaultLinkType = 2 :=
    (Except.ok.inj (hcount defaultLinkType (by decide))).symm
  have hsecond : count (defaultLinkType + 1) = 1 :=
    (Except.ok.inj (hcount (defaultLinkType + 1) (by decide))).symm
  rw [htypes] at hsum
  simp only [List.map_cons, List.map_nil, List.sum_cons, List.sum_nil, hfirst, hsecond] at hsum
  omega

/-! ## An id2 for each requester -/

/-- What `fixId2` is for: an id2 in the requester's own class, and not beyond the bound. -/
structure Fixed (nrequesters requesterID randomid2max newid2 : Int) : Prop where
  nonneg : 0 ≤ newid2
  congr : newid2 ≡ requesterID [ZMOD nrequesters]
  le_max : 0 < randomid2max → newid2 ≤ randomid2max

/-- A requester and a candidate id2 that leave room: the requester's first id2 is not beyond
the bound, and the id2 next to the candidate is a `long`. -/
def Fits (nrequesters requesterID randomid2max id2 : Int) : Prop :=
  (randomid2max = 0 ∨ requesterID ≤ randomid2max) ∧
    id2 - id2 % nrequesters + requesterID < 2 ^ 63

section

variable {nrequesters requesterID randomid2max id2 : Int}

/-- Rounding down to a multiple: nothing, or at least one whole step. -/
theorem round_down (hn : 1 ≤ nrequesters) (hid2 : 0 ≤ id2) :
    nrequesters ∣ id2 - id2 % nrequesters ∧ 0 ≤ id2 - id2 % nrequesters ∧
      (id2 - id2 % nrequesters = 0 ∨ nrequesters ≤ id2 - id2 % nrequesters) := by
  have hdiv := Int.emod_add_mul_ediv id2 nrequesters
  have hbase : id2 - id2 % nrequesters = nrequesters * (id2 / nrequesters) := by omega
  have hq : 0 ≤ id2 / nrequesters := Int.ediv_nonneg hid2 (by omega)
  rw [hbase]
  refine ⟨Int.dvd_mul_right .., Int.mul_nonneg (by omega) hq, ?_⟩
  rcases hq.eq_or_lt with hzero | hpos
  · exact Or.inl (by rw [← hzero, Int.mul_zero])
  · exact Or.inr (le_mul_of_one_le_right (by omega) hpos)

/-- `fixId2` where the rounded candidate, moved to the requester's class, is a `long`. -/
theorem fixId2_eq (hn : 1 ≤ nrequesters) (hn' : nrequesters < 2 ^ 31) (hr : 0 ≤ requesterID)
    (hid2 : 0 ≤ id2) (hlong : id2 - id2 % nrequesters + requesterID < 2 ^ 63) :
    fixId2 id2 nrequesters requesterID randomid2max =
      if id2 - id2 % nrequesters + requesterID > randomid2max ∧ randomid2max > 0 then
        id2 - id2 % nrequesters + requesterID - nrequesters
      else id2 - id2 % nrequesters + requesterID := by
  obtain ⟨-, hbase, -⟩ := round_down hn hid2
  have hnew : wrap64 (id2 - id2 % nrequesters + requesterID) =
      id2 - id2 % nrequesters + requesterID := wrap_eq_self (by omega) hlong
  have hback : wrap64 (id2 - id2 % nrequesters + requesterID - nrequesters) =
      id2 - id2 % nrequesters + requesterID - nrequesters := wrap_eq_self (by omega) (by omega)
  unfold fixId2
  rw [Int.tmod_eq_emod_of_nonneg hid2, hnew]
  dsimp only
  rw [hback]

/-- Where it is not, the id2 comes out negative. -/
theorem fixId2_neg (hn : 1 ≤ nrequesters) (hn' : nrequesters < 2 ^ 31)
    (hr' : requesterID < nrequesters) (hid2 : 0 ≤ id2) (hid2' : id2 < 2 ^ 63)
    (hlong : 2 ^ 63 ≤ id2 - id2 % nrequesters + requesterID) :
    fixId2 id2 nrequesters requesterID randomid2max < 0 := by
  have hmod0 := Int.emod_nonneg id2 (b := nrequesters) (by omega)
  have hnew : wrap64 (id2 - id2 % nrequesters + requesterID) =
      id2 - id2 % nrequesters + requesterID - 2 * 2 ^ 63 := wrap_of_overflow hlong (by omega)
  unfold fixId2
  rw [Int.tmod_eq_emod_of_nonneg hid2, hnew]
  dsimp only
  rw [if_neg (by omega)]
  omega

/-- **`fixId2` does what it is for** exactly where there is room. -/
theorem fixed_fixId2_iff (hn : 1 ≤ nrequesters) (hn' : nrequesters < 2 ^ 31)
    (hr : 0 ≤ requesterID) (hr' : requesterID < nrequesters) (hmax : 0 ≤ randomid2max)
    (hid2 : 0 ≤ id2) (hid2' : id2 < 2 ^ 63) (hlt : 0 < randomid2max → id2 < randomid2max) :
    Fixed nrequesters requesterID randomid2max (fixId2 id2 nrequesters requesterID randomid2max) ↔
      Fits nrequesters requesterID randomid2max id2 := by
  obtain ⟨hdvd, hbase, hstep⟩ := round_down hn hid2
  have hmod0 := Int.emod_nonneg id2 (b := nrequesters) (by omega)
  by_cases hlong : id2 - id2 % nrequesters + requesterID < 2 ^ 63
  · rw [fixId2_eq hn hn' hr hid2 hlong]
    by_cases hroom : randomid2max = 0 ∨ requesterID ≤ randomid2max
    · refine iff_of_true ⟨?_, ?_, fun hpos => ?_⟩ ⟨hroom, hlong⟩
      · split <;> omega
      · -- both results differ from the residue by a multiple of the step
        refine (Int.modEq_iff_dvd.mpr ?_).symm
        split
        · have hrest : id2 - id2 % nrequesters + requesterID - nrequesters - requesterID =
              id2 - id2 % nrequesters - nrequesters := by omega
          rw [hrest]
          exact Int.dvd_sub hdvd (Int.dvd_refl nrequesters)
        · rwa [Int.add_sub_cancel]
      · have hbelow := hlt hpos
        split <;> omega
    · -- no class member is within the bound, and the candidate is in the first class
      refine iff_of_false (fun h => ?_) (fun h => hroom h.1)
      have hfirst : id2 % nrequesters = id2 := Int.emod_eq_of_lt hid2 (by omega)
      have hneg := h.nonneg
      rw [if_pos (by omega)] at hneg
      omega
  · refine iff_of_false (fun h => ?_) (fun h => hlong h.2)
    have hneg : fixId2 id2 nrequesters requesterID randomid2max < 0 :=
      fixId2_neg hn hn' hr' hid2 hid2' (by omega)
    have hnonneg := h.nonneg
    omega

/-- **Requesters keep apart.** For two requesters of one run and any candidates they draw: both
get an id2 of their own class within the bounds, never the same one, exactly when both fit. -/
theorem requesters_apart_iff {requesterID' id2' : Int} (hn : 1 ≤ nrequesters)
    (hn' : nrequesters < 2 ^ 31) (hr : 0 ≤ requesterID ∧ requesterID < nrequesters)
    (hr' : 0 ≤ requesterID' ∧ requesterID' < nrequesters) (hmax : 0 ≤ randomid2max)
    (hid2 : 0 ≤ id2 ∧ id2 < 2 ^ 63 ∧ (0 < randomid2max → id2 < randomid2max))
    (hid2' : 0 ≤ id2' ∧ id2' < 2 ^ 63 ∧ (0 < randomid2max → id2' < randomid2max)) :
    (Fixed nrequesters requesterID randomid2max
        (fixId2 id2 nrequesters requesterID randomid2max) ∧
      Fixed nrequesters requesterID' randomid2max
        (fixId2 id2' nrequesters requesterID' randomid2max) ∧
      (requesterID ≠ requesterID' → fixId2 id2 nrequesters requesterID randomid2max ≠
        fixId2 id2' nrequesters requesterID' randomid2max)) ↔
    Fits nrequesters requesterID randomid2max id2 ∧
      Fits nrequesters requesterID' randomid2max id2' := by
  have hfixed := fixed_fixId2_iff hn hn' hr.1 hr.2 hmax hid2.1 hid2.2.1 hid2.2.2
  have hfixed' := fixed_fixId2_iff hn hn' hr'.1 hr'.2 hmax hid2'.1 hid2'.2.1 hid2'.2.2
  rw [hfixed, hfixed']
  refine ⟨fun h => ⟨h.1, h.2.1⟩, fun h => ⟨h.1, h.2, fun hne heq => hne ?_⟩⟩
  have hcongr := (hfixed.mpr h.1).congr
  rw [heq] at hcongr
  -- one id2 in two classes
  have hsame : requesterID ≡ requesterID' [ZMOD nrequesters] :=
    hcongr.symm.trans (hfixed'.mpr h.2).congr
  unfold Int.ModEq at hsame
  rwa [Int.emod_eq_of_lt hr.1 hr.2, Int.emod_eq_of_lt hr'.1 hr'.2] at hsame

end

/-- Two requesters of three, with the same draw. -/
theorem requesters_apart_three :
    (Fixed 3 0 10 (fixId2 7 3 0 10) ∧ Fixed 3 2 10 (fixId2 7 3 2 10) ∧
      ((0 : Int) ≠ 2 → fixId2 7 3 0 10 ≠ fixId2 7 3 2 10)) ↔ Fits 3 0 10 7 ∧ Fits 3 2 10 7 :=
  requesters_apart_iff (by decide) (by decide) (by decide) (by decide) (by decide) (by decide)
    (by decide)

/-- Ten requesters and four id2s: the requester with number 5 gets id2 -5. -/
theorem more_requesters_than_ids :
    ¬ ∀ id2, 0 ≤ id2 → id2 < 3 → Fixed 10 5 3 (fixId2 id2 10 5 3) := by
  intro h
  have hneg := (h 0 (by decide) (by decide)).nonneg
  revert hneg
  decide

end OpChooser

end TokuQa.LinkBench
