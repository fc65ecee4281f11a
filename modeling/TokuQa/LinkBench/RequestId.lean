import TokuQa.LinkBench.OpChooser

/-!
# Which id1 a request is for

A distribution of accesses answers with a rank: its low ids are accessed most. So does a
distribution of link counts: its low ids have most links. Each is turned into an id of the
store by a shuffler of its own, the requester's in `chooseRequestID` and the loader's in
`calcTotalLinkCount`. `RealDistribution.getShuffler` gives reads and writes the seed and the
groups of the link counts, and nothing else ties the two together. `chooseRequestID_rank` is
what comes of it: the id accessed with some rank has the number of links of that rank.

Random numbers are the environment's: a generator created with a seed returns what it returns
(`SeededRandom`), and a distribution draws from a generator in some state `ρ`. Doubles, the
blend percentages and `rng.nextDouble()`, are rational.
-/

set_option autoImplicit false

namespace TokuQa.LinkBench

open TokuQa.Lib

/-! ## `RealDistribution.getShuffler` -/

inductive DistributionType where
  | links
  | linkReads
  | linkReadsUncorr
  | linkWrites
  | linkWritesUncorr
  | nodeReads
  | nodeUpdates
  | nodeDeletes
deriving DecidableEq

def DistributionType.name : DistributionType → String
  | .links => "LINKS"
  | .linkReads => "LINK_READS"
  | .linkReadsUncorr => "LINK_READS_UNCORR"
  | .linkWrites => "LINK_WRITES"
  | .linkWritesUncorr => "LINK_WRITES_UNCORR"
  | .nodeReads => "NODE_READS"
  | .nodeUpdates => "NODE_UPDATES"
  | .nodeDeletes => "NODE_DELETES"

/-- `new Random(seed)`, whose `i`-th `nextInt(bound)` depends on the seed alone. -/
structure SeededRandom where
  nextInt : Int → Int → Nat → Int
  nextInt_range : ∀ seed bound i, 0 < bound →
    0 ≤ nextInt seed bound i ∧ nextInt seed bound i < bound

structure ShufflerParams where
  seed : Int
  groups : Int

def nlinksShuffler : ShufflerParams := ⟨20343988438726021, 1024⟩

def uncorrShuffler : ShufflerParams := ⟨53238253823453, 1024⟩

def writeCorrShuffler : ShufflerParams := nlinksShuffler

def readCorrShuffler : ShufflerParams := nlinksShuffler

def writeUncorrShuffler : ShufflerParams := uncorrShuffler

def readUncorrShuffler : ShufflerParams := uncorrShuffler

def nodeReadShuffler : ShufflerParams := ⟨4766565305853767165, 1024⟩

def nodeUpdateShuffler : ShufflerParams := nodeReadShuffler

def nodeDeleteShuffler : ShufflerParams := nodeReadShuffler

def shufflerParams : DistributionType → ShufflerParams
  | .linkReads => readCorrShuffler
  | .linkReadsUncorr => readUncorrShuffler
  | .linkWrites => writeCorrShuffler
  | .linkWritesUncorr => writeUncorrShuffler
  | .nodeReads => nodeReadShuffler
  | .nodeUpdates => nodeUpdateShuffler
  | .nodeDeletes => nodeDeleteShuffler
  | .links => nlinksShuffler

def getShuffler (random : SeededRandom) (type : DistributionType) (n : Int) :
    InvertibleShuffler :=
  let params := shufflerParams type
  .new (random.nextInt params.seed (InvertibleShuffler.minGroupSizeFor params.groups n))
    params.groups n

/-! ## `AccessDistributions` -/

structure AccessDistribution (ρ : Type) where
  /-- `nextID(rng, previousId)`, and the generator after it. -/
  nextID : Int → ρ → Int × ρ
  /-- "A shuffler to shuffle the results, or null if the results shouldn't be shuffled". -/
  shuffler : Option InvertibleShuffler

/-- What a property names: a probability distribution (`REAL`, or a class), or one of the
built-in modes. -/
inductive AccessFunc (ρ : Type) where
  | prob (choose : ρ → Int × ρ)
  | builtin (nextID : Int → ρ → Int × ρ)

/-- The properties read here. -/
structure RequestProps (ρ : Type) where
  startid1 : Int
  maxid1 : Int
  accessFunc : String → Option (AccessFunc ρ)
  /-- Blend percentages. -/
  blend : String → Option ℚ
  linkDist : LinkDistributions.LinkDistribution
  randomid2max : Int
  linkTypeCount : Nat
  id2genConfig : Int
  nrequesters : Int
  requesterID : Int

/-- The prefix of a kind's properties. The source has one prefix for both uncorrelated kinds. -/
def keyPrefix : DistributionType → Option String
  | .linkReads => some "read_"
  | .linkReadsUncorr => some "read_uncorr_"
  | .linkWrites => some "write_"
  | .linkWritesUncorr => some "read_uncorr_"
  | .nodeReads => some "node_read_"
  | .nodeUpdates => some "node_update_"
  | .nodeDeletes => some "node_delete_"
  | .links => none

variable {ρ : Type}

namespace LinkBenchRequest

inductive Exn where
  | configError (msg : String)
  | runtime (msg : String)
  | nullPointer
  | assertionError
  | shuffler (e : InvertibleShuffler.Exn)
deriving DecidableEq

def loadAccessDistribution (random : SeededRandom) (props : RequestProps ρ)
    (kind : DistributionType) : Except Exn (AccessDistribution ρ) :=
  match keyPrefix kind with
  | none => .error (.runtime ("Bad kind " ++ kind.name))
  | some keyPrefix =>
    let funcKey := keyPrefix ++ "function"
    match props.accessFunc funcKey with
    | none =>
      .error (.configError ("Expected configuration key " ++ funcKey ++ " to be defined"))
    | some (.prob choose) =>
      .ok ⟨fun _ => choose, some (getShuffler random kind (props.maxid1 - props.startid1))⟩
    | some (.builtin nextID) => .ok ⟨nextID, none⟩

end LinkBenchRequest

/-! ## `LinkBenchRequest` -/

/-- The requester, as far as it chooses ids. A node distribution is there only when the
workload has node operations. -/
structure LinkBenchRequest (ρ : Type) where
  startid1 : Int
  maxid1 : Int
  writeDist : AccessDistribution ρ
  writeDistUncorr : Option (AccessDistribution ρ)
  writeDistUncorrBlend : ℚ
  readDist : AccessDistribution ρ
  readDistUncorr : Option (AccessDistribution ρ)
  readDistUncorrBlend : ℚ
  nodeReadDist : Option (AccessDistribution ρ)
  nodeUpdateDist : Option (AccessDistribution ρ)
  nodeDeleteDist : Option (AccessDistribution ρ)
  id2chooser : OpChooser

namespace LinkBenchRequest

/-- The constructor of `ID2Chooser`. -/
def newId2chooser (random : SeededRandom) (props : RequestProps ρ) : OpChooser where
  randomid2max := props.randomid2max
  linkTypeCount := props.linkTypeCount
  startid1 := props.startid1
  maxid1 := props.maxid1
  nLinksShuffler := getShuffler random .links (props.maxid1 - props.startid1)
  linkDist := props.linkDist
  id2genConfig := props.id2genConfig
  nrequesters := props.nrequesters
  requesterID := props.requesterID

/-- "Load uncorrelated distributions for blending if needed", and how much to blend in. -/
def loadUncorr (random : SeededRandom) (props : RequestProps ρ) (blendKey : String)
    (kind : DistributionType) : Except Exn (Option (AccessDistribution ρ) × ℚ) :=
  match props.blend blendKey with
  | none => pure (none, 0)
  | some percent => do
    if percent / 100 > 0 then
      let dist ← loadAccessDistribution random props kind
      return (some dist, percent / 100)
    else return (none, percent / 100)

def initLinkRequestDistributions (random : SeededRandom) (props : RequestProps ρ) :
    Except Exn (LinkBenchRequest ρ) := do
  let writeDist ← loadAccessDistribution random props .linkWrites
  let readDist ← loadAccessDistribution random props .linkReads
  let writeUncorr ← loadUncorr random props "read_uncorr_blend" .linkWritesUncorr
  let readUncorr ← loadUncorr random props "read_uncorr_blend" .linkReadsUncorr
  return {
    startid1 := props.startid1
    maxid1 := props.maxid1
    writeDist := writeDist
    writeDistUncorr := writeUncorr.1
    writeDistUncorrBlend := writeUncorr.2
    readDist := readDist
    readDistUncorr := readUncorr.1
    readDistUncorrBlend := readUncorr.2
    nodeReadDist := none
    nodeUpdateDist := none
    nodeDeleteDist := none
    id2chooser := newId2chooser random props }

/-- A node distribution that is not configured is an error of its own. -/
def loadNodeDist (random : SeededRandom) (props : RequestProps ρ) (kind : DistributionType)
    (msg : String) : Except Exn (AccessDistribution ρ) :=
  match loadAccessDistribution random props kind with
  | .error (.configError _) => .error (.configError msg)
  | r => r

def initNodeRequestDistributions (random : SeededRandom) (props : RequestProps ρ)
    (req : LinkBenchRequest ρ) : Except Exn (LinkBenchRequest ρ) := do
  let nodeReadDist ← loadNodeDist random props .nodeReads
    "Node read distribution not configured but node read operations have non-zero probability"
  let nodeUpdateDist ← loadNodeDist random props .nodeUpdates
    "Node write distribution not configured but node write operations have non-zero probability"
  let nodeDeleteDist ← loadNodeDist random props .nodeDeletes
    "Node delete distribution not configured but node write operations have non-zero probability"
  return { req with
    nodeReadDist := some nodeReadDist
    nodeUpdateDist := some nodeUpdateDist
    nodeDeleteDist := some nodeDeleteDist }

/-- The constructor, after its checks. `nodeOps` is `pc_getnode > pc_getlinklist`. -/
def new (random : SeededRandom) (props : RequestProps ρ) (nodeOps : Bool) :
    Except Exn (LinkBenchRequest ρ) := do
  let req ← initLinkRequestDistributions random props
  if nodeOps then initNodeRequestDistributions random props req else return req

/-- "Blend between distributions if needed". The generator is asked only where there is
something to blend in. -/
def blended (nextDouble : ρ → ℚ × ρ) (rng : ρ) (dist : AccessDistribution ρ)
    (distUncorr : Option (AccessDistribution ρ)) (distUncorrBlend : ℚ) :
    AccessDistribution ρ × ρ :=
  match distUncorr with
  | none => (dist, rng)
  | some uncorr =>
    let (x, rng) := nextDouble rng
    (if x ≥ distUncorrBlend then dist else uncorr, rng)

/-- The `switch` of `chooseRequestID`, and the generator after it. -/
def distFor (req : LinkBenchRequest ρ) (nextDouble : ρ → ℚ × ρ) (rng : ρ) :
    DistributionType → Except Exn (Option (AccessDistribution ρ) × ρ)
  | .linkReads =>
    let (dist, rng) :=
      blended nextDouble rng req.readDist req.readDistUncorr req.readDistUncorrBlend
    .ok (some dist, rng)
  | .linkWrites =>
    let (dist, rng) :=
      blended nextDouble rng req.writeDist req.writeDistUncorr req.writeDistUncorrBlend
    .ok (some dist, rng)
  | .linkWritesUncorr => .ok (req.writeDistUncorr, rng)
  | .nodeReads => .ok (req.nodeReadDist, rng)
  | .nodeUpdates => .ok (req.nodeUpdateDist, rng)
  | .nodeDeletes => .ok (req.nodeDeleteDist, rng)
  | type => .error (.runtime ("Unknown value for type: " ++ type.name))

/-- "Shuffle to go from position in space ranked from most to least accessed, to the real id
space". -/
def chooseRequestID (req : LinkBenchRequest ρ) (nextDouble : ρ → ℚ × ρ) (rng : ρ)
    (type : DistributionType) (previousId1 : Int) : Except Exn (Int × ρ) := do
  match ← req.distFor nextDouble rng type with
  | (none, _) => throw .nullPointer
  | (some dist, rng) =>
    let (newid1, rng) := dist.nextID previousId1 rng
    if ¬ (newid1 ≥ req.startid1 ∧ newid1 < req.maxid1) then
      throw .assertionError
    match dist.shuffler with
    | none => return (newid1, rng)
    | some sh =>
      match sh.permute (newid1 - req.startid1) with
      | .ok i => return (req.startid1 + i, rng)
      | .error e => throw (.shuffler e)

/-! ## What the constructor leaves -/

/-- The part of a requester that ids are shifted and links counted with. -/
structure Built (random : SeededRandom) (props : RequestProps ρ) (req : LinkBenchRequest ρ) :
    Prop where
  startid1 : req.startid1 = props.startid1
  maxid1 : req.maxid1 = props.maxid1
  id2chooser : req.id2chooser = newId2chooser random props

section

variable {random : SeededRandom} {props : RequestProps ρ} {req req' : LinkBenchRequest ρ}

theorem built_initLink (h : initLinkRequestDistributions random props = .ok req) :
    Built random props req := by
  obtain ⟨writeDist, -, h⟩ := bind_eq_ok.mp h
  obtain ⟨readDist, -, h⟩ := bind_eq_ok.mp h
  obtain ⟨writeUncorr, -, h⟩ := bind_eq_ok.mp h
  obtain ⟨readUncorr, -, h⟩ := bind_eq_ok.mp h
  cases h
  exact ⟨rfl, rfl, rfl⟩

theorem Built.initNode (hb : Built random props req)
    (h : initNodeRequestDistributions random props req = .ok req') : Built random props req' := by
  obtain ⟨nodeReadDist, -, h⟩ := bind_eq_ok.mp h
  obtain ⟨nodeUpdateDist, -, h⟩ := bind_eq_ok.mp h
  obtain ⟨nodeDeleteDist, -, h⟩ := bind_eq_ok.mp h
  cases h
  exact ⟨hb.startid1, hb.maxid1, hb.id2chooser⟩

theorem built_new {nodeOps : Bool} (h : new random props nodeOps = .ok req) :
    Built random props req := by
  obtain ⟨req', hlink, h⟩ := bind_eq_ok.mp h
  have hb := built_initLink hlink
  cases nodeOps with
  | true => exact hb.initNode h
  | false =>
    cases h
    exact hb

/-- A distribution that is loaded with a shuffler has the shuffler of its kind. -/
theorem shuffler_of_load {kind : DistributionType} {dist : AccessDistribution ρ}
    (h : loadAccessDistribution random props kind = .ok dist) (hprob : dist.shuffler ≠ none) :
    dist.shuffler = some (getShuffler random kind (props.maxid1 - props.startid1)) := by
  unfold loadAccessDistribution at h
  split at h
  · cases h
  · dsimp only at h
    split at h
    · cases h
    · cases h
      rfl
    · cases h
      exact absurd rfl hprob

end

/-! ## One permutation for both -/

/-- Whatever the kind, its shuffler permutes the ids. -/
theorem getShuffler_ok (random : SeededRandom) (type : DistributionType) {n : Int} (hn : 1 ≤ n)
    (hn' : n < 2 ^ 31) : (getShuffler random type n).Ok := by
  have hgroups : 1 ≤ (shufflerParams type).groups := by cases type <;> decide
  have hsize := InvertibleShuffler.minGroupSizeFor_pos hn hn' hgroups
  exact InvertibleShuffler.new_ok hn hn' hgroups fun i => random.nextInt_range _ _ i hsize

/-- Reads and writes are permuted as the links were dealt out. -/
theorem getShuffler_corr (random : SeededRandom) {kind : DistributionType}
    (hkind : kind = .linkReads ∨ kind = .linkWrites) (n : Int) :
    getShuffler random kind n = getShuffler random .links n := by
  rcases hkind with rfl | rfl <;> rfl

/-- One request: the id is the permuted rank. -/
theorem chooseRequestID_eq {req : LinkBenchRequest ρ} {nextDouble : ρ → ℚ × ρ} {rng rng' : ρ}
    {type : DistributionType} {dist : AccessDistribution ρ} {sh : InvertibleShuffler}
    {previousId1 r i : Int} (hdist : req.distFor nextDouble rng type = .ok (some dist, rng'))
    (hsh : dist.shuffler = some sh) (hnext : (dist.nextID previousId1 rng').1 = req.startid1 + r)
    (hr : 0 ≤ r ∧ r < req.maxid1 - req.startid1) (hperm : sh.permute r = .ok i) :
    req.chooseRequestID nextDouble rng type previousId1 =
      .ok (req.startid1 + i, (dist.nextID previousId1 rng').2) := by
  have hrange : req.startid1 + r ≥ req.startid1 ∧ req.startid1 + r < req.maxid1 := by omega
  unfold chooseRequestID
  rw [hdist]
  simp only [bind, Except.bind, hnext, if_neg (not_not.mpr hrange), hsh, add_sub_cancel_left,
    hperm]
  rfl

/-- **Accesses go where the links are**: the id that is accessed with a rank has the links of
that rank, for reads and for writes, whatever the seeds return. -/
theorem chooseRequestID_rank {random : SeededRandom} {props : RequestProps ρ} {nodeOps : Bool}
    {req : LinkBenchRequest ρ} (hreq : new random props nodeOps = .ok req)
    (hlt : props.startid1 < props.maxid1) (hn : props.maxid1 - props.startid1 < 2 ^ 31)
    (hshuffle : props.linkDist.doShuffle = true) {kind : DistributionType}
    (hkind : kind = .linkReads ∨ kind = .linkWrites) {dist : AccessDistribution ρ}
    (hload : loadAccessDistribution random props kind = .ok dist)
    (hprob : dist.shuffler ≠ none) {nextDouble : ρ → ℚ × ρ} {rng rng' : ρ}
    (hdist : req.distFor nextDouble rng kind = .ok (some dist, rng')) {previousId1 r : Int}
    (hr : 0 ≤ r ∧ r < props.maxid1 - props.startid1)
    (hnext : (dist.nextID previousId1 rng').1 = props.startid1 + r) :
    ∃ id1 rng'', req.chooseRequestID nextDouble rng kind previousId1 = .ok (id1, rng'') ∧
      props.startid1 ≤ id1 ∧ id1 < props.maxid1 ∧
      req.id2chooser.calcTotalLinkCount id1 =
        (props.linkDist.getNlinks (props.startid1 + r)).mapError .dist := by
  have hb := built_new hreq
  have hok := getShuffler_ok random .links (n := props.maxid1 - props.startid1) (by omega) hn
  have hsh := shuffler_of_load hload hprob
  rw [getShuffler_corr random hkind] at hsh
  generalize hlinks : getShuffler random .links (props.maxid1 - props.startid1) = sh at hok hsh
  have hshn : sh.n = props.maxid1 - props.startid1 := by
    rw [← hlinks]
    rfl
  have hmem : r ∈ Set.Ico 0 sh.n := ⟨hr.1, by omega⟩
  have himage := hok.image_mem false hmem
  have hlow : 0 ≤ sh.image false r := himage.1
  have hhigh : sh.image false r < sh.n := himage.2
  have hperm : sh.permute r = .ok (sh.image false r) := hok.permuteWith_eq false hmem.1 hmem.2
  -- the loader's shuffler finds the rank again
  have hinv : sh.invertPermute (sh.image false r) = .ok r := by
    have hround : sh.image true (sh.image false r) = r := hok.image_image false hmem
    exact (hok.permuteWith_eq true hlow hhigh).trans (congrArg Except.ok hround)
  refine ⟨props.startid1 + sh.image false r, (dist.nextID previousId1 rng').2, ?_, by omega,
    by omega, ?_⟩
  · rw [← hb.startid1] at hnext ⊢
    refine chooseRequestID_eq hdist hsh hnext ?_ hperm
    rwa [hb.startid1, hb.maxid1]
  · have hrank : (newId2chooser random props).nLinksShuffler.invertPermute
        (props.startid1 + sh.image false r - props.startid1) = .ok r := by
      rw [add_sub_cancel_left]
      exact (congrArg (fun sh' => sh'.invertPermute (sh.image false r)) hlinks).trans hinv
    have hid1 : props.startid1 ≤ props.startid1 + sh.image false r ∧
        props.startid1 + sh.image false r < props.maxid1 := by omega
    have hr' : 0 ≤ r ∧ props.startid1 + r < props.maxid1 := by omega
    rw [hb.id2chooser]
    exact OpChooser.calcTotalLinkCount_shuffled (c := newId2chooser random props) hshuffle hid1
      hrank hr'

/-- Three thousand ids, the lower the more links, and every access at rank 7. -/
def atRankSeven : RequestProps Unit where
  startid1 := 1
  maxid1 := 3001
  accessFunc := fun _ => some (.prob fun _ => (8, ()))
  blend := fun _ => none
  linkDist := LinkDistributions.ofProb fun id1 => 3001 - id1
  randomid2max := 0
  linkTypeCount := 1
  id2genConfig := 0
  nrequesters := 1
  requesterID := 0

/-- A generator that returns the largest number it may. -/
def topDraws : SeededRandom where
  nextInt := fun _ bound _ => bound - 1
  nextInt_range := fun _ bound _ hbound => by omega

theorem chooseRequestID_rank_seven :
    ∃ req, new topDraws atRankSeven false = .ok req ∧
      ∃ id1 rng'', req.chooseRequestID (fun _ => (0, ())) () .linkReads 0 = .ok (id1, rng'') ∧
        1 ≤ id1 ∧ id1 < 3001 ∧
        req.id2chooser.calcTotalLinkCount id1 =
          (atRankSeven.linkDist.getNlinks (1 + 7)).mapError .dist :=
  ⟨_, rfl, chooseRequestID_rank (show new topDraws atRankSeven false = .ok _ from rfl)
    (by decide) (by decide) rfl (Or.inl rfl) rfl nofun rfl (by decide) rfl⟩

end LinkBenchRequest

end TokuQa.LinkBench
