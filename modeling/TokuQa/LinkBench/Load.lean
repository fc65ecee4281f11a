import TokuQa.Lib.Trace
import TokuQa.LinkBench.LinkStore
import TokuQa.LinkBench.LoadWork

/-!
# `LinkBenchLoad.java`

A loader takes chunks until its shutdown chunk, creates the out links of every id, and hands
them to the store: one by one, or, with a bulk batch size, through two buffers that are
flushed when they are full and once more at the end. A flush the store refuses is logged and
keeps its buffer, so it is tried again with the next link.

What the loader does not decide is given to it: `LinkSource` is what the id2 chooser, the data
generator, the clock and the hash map's iteration order produce, and `fails n` whether the
`n`-th call of the store throws. The state carries, besides the fields of the class, what has
been generated, the counts that have been produced, and the calls the store accepted.
Statistics, progress and logging are left out.
-/

set_option autoImplicit false

namespace TokuQa.LinkBench.Load

open TokuQa.Lib Proc

/-- What the loader draws on. -/
structure LinkSource where
  linkTypes : List Int
  /-- `calcLinkCount`. -/
  nlinks : Int → Int → Int
  /-- What `constructLink` fills in, for an id, a type and the number of the link. -/
  link : Int → Int → Nat → Link
  link_id1 : ∀ id1 linkType j, (link id1 linkType j).id1 = id1
  link_linkType : ∀ id1 linkType j, (link id1 linkType j).linkType = linkType
  /-- The order in which `linkTypeCounts.values()` iterates. -/
  values : List LinkCount → List LinkCount
  values_perm : ∀ counts, (values counts).Perm counts

/-- A call the store accepted. -/
inductive Batch where
  | link (l : Link)
  | links (ls : List Link)
  | counts (cs : List LinkCount)

def Batch.linksOf : Batch → List Link
  | .link l => [l]
  | .links ls => ls
  | .counts _ => []

def Batch.countsOf : Batch → List LinkCount
  | .counts cs => cs
  | _ => []

/-- A call of bulk mode. -/
def Batch.isBulk : Batch → Bool
  | .link _ => false
  | _ => true

structure LoadState where
  loadBuffer : List Link
  countLoadBuffer : List LinkCount
  /-- `linkTypeCounts`, the map of the id being processed. -/
  linkTypeCounts : List LinkCount
  linksloaded : Int
  generated : List Link
  produced : List LinkCount
  /-- The number of calls of the store, accepted or not. -/
  calls : Nat
  accepted : List Batch

def LoadState.start : LoadState := ⟨[], [], [], 0, [], [], 0, []⟩

def LoadState.acceptedLinks (s : LoadState) : List Link := s.accepted.flatMap Batch.linksOf

def LoadState.acceptedCounts (s : LoadState) : List LinkCount := s.accepted.flatMap Batch.countsOf

/-! ## Primitive actions -/

/-- A call of the store, with what the caller does when it returns. -/
def store (fails : Nat → Bool) (batch : Batch) (ok : LoadState → LoadState) (s : LoadState) :
    LoadState :=
  if fails s.calls then { s with calls := s.calls + 1 }
  else ok { s with calls := s.calls + 1, accepted := s.accepted ++ [batch] }

/-- `loadLink`. -/
def loadLink (fails : Nat → Bool) (l : Link) (s : LoadState) : LoadState :=
  store fails (.link l) (fun s => { s with linksloaded := s.linksloaded + 1 }) s

/-- `loadLinks`. -/
def loadLinks (fails : Nat → Bool) (s : LoadState) : LoadState :=
  store fails (.links s.loadBuffer)
    (fun s => { s with linksloaded := s.linksloaded + s.loadBuffer.length, loadBuffer := [] }) s

/-- `loadCounts`. -/
def loadCounts (fails : Nat → Bool) (s : LoadState) : LoadState :=
  store fails (.counts s.countLoadBuffer) (fun s => { s with countLoadBuffer := [] }) s

/-- `constructLink`: a link comes into being. -/
def generate (l : Link) (s : LoadState) : LoadState := { s with generated := s.generated ++ [l] }

/-- A link comes into being, and `loadBuffer.add(link)`. -/
def generateInto (l : Link) (s : LoadState) : LoadState :=
  { s with generated := s.generated ++ [l], loadBuffer := s.loadBuffer ++ [l] }

/-- "Update link counts for this type". -/
def countLink (id1 : Int) (l : Link) (counts : List LinkCount) : List LinkCount :=
  if counts.any (fun c => c.linkType = l.linkType) then
    counts.map fun c =>
      if c.linkType = l.linkType then
        { c with count := c.count + 1, time := max c.time l.time, version := l.version }
      else c
  else counts ++ [⟨id1, l.linkType, l.time, l.version, 1⟩]

/-- `countLoadBuffer.add(count)`. -/
def addCount (c : LinkCount) (s : LoadState) : LoadState :=
  { s with countLoadBuffer := s.countLoadBuffer ++ [c], produced := s.produced ++ [c] }

/-! ## The loops -/

section

variable (src : LinkSource) (bulkLoadBatchSize : Int) (fails : Nat → Bool)

/-- The body of the innermost loop of `createOutLinks`. -/
def createLink (id1 linkType : Int) (j : Nat) : Proc LoadState :=
  let l := src.link id1 linkType j
  if bulkLoadBatchSize > 0 then
    seq (prim (generateInto l))
      (seq (when (fun s => s.loadBuffer.length ≥ bulkLoadBatchSize) (prim (loadLinks fails)))
        (prim fun s => { s with linkTypeCounts := countLink id1 l s.linkTypeCounts }))
  else
    seq (prim (generate l)) (prim (loadLink fails l))

/-- "Maintain the counts separately". -/
def bufferCount (c : LinkCount) : Proc LoadState :=
  seq (prim (addCount c))
    (when (fun s => s.countLoadBuffer.length ≥ bulkLoadBatchSize) (prim (loadCounts fails)))

def createOutLinks (id1 : Int) : Proc LoadState :=
  seq (prim fun s => { s with linkTypeCounts := [] })
    (seq (each src.linkTypes fun linkType =>
        each (List.range (src.nlinks id1 linkType).toNat) fun j =>
          createLink src bulkLoadBatchSize fails id1 linkType j)
      (if bulkLoadBatchSize > 0 then
        fun s => each (src.values s.linkTypeCounts) (bufferCount bulkLoadBatchSize fails) s
      else skip))

def processChunk (chunk : LoadChunk) : Proc LoadState :=
  each chunk.ids (createOutLinks src bulkLoadBatchSize fails)

/-- The loop of `run` over the chunks this loader takes; a shutdown chunk ends it. -/
def processChunks : List LoadChunk → Proc LoadState
  | [] => skip
  | chunk :: rest =>
    if chunk.shutdown then skip
    else seq (processChunk src bulkLoadBatchSize fails chunk) (processChunks rest)

/-- `run`, on the chunks the loader takes from the queue. -/
def runLoader (chunks : List LoadChunk) : Proc LoadState :=
  seq (processChunks src bulkLoadBatchSize fails chunks)
    (if bulkLoadBatchSize > 0 then seq (prim (loadLinks fails)) (prim (loadCounts fails)) else skip)

end

end TokuQa.LinkBench.Load
