import TokuQa.Lib.JavaInt
import TokuQa.Lib.SortedSet
import TokuQa.Lib.Table
import TokuQa.LinkBench.LinkStore

/-!
# `MemoryLinkStore.java`, the link half

Nested maps: database name to `(id1, link_type)` to a `TreeSet` of links. A set is the list
of its links in iteration order, and the methods below iterate over it as the loops of the
source do. `findLinkByKey` with `createPath` is a read here followed by the write of the whole
set; a missing set and a fresh one are told apart, as in the source.

The mutex is not modelled (every method holds it from end to end), nor are nodes.
-/

set_option autoImplicit false

namespace TokuQa.LinkBench

open TokuQa.Lib

namespace Memory

structure LinkLookupKey where
  id1 : Int
  linkType : Int
deriving DecidableEq

/-- `linkdbs`. -/
abbrev Linkdbs := Table String (Table LinkLookupKey (List Link))

end Memory

open Memory

def Link.lookupKey (l : Link) : LinkLookupKey := ⟨l.id1, l.linkType⟩

def LinkKey.lookupKey (k : LinkKey) : LinkLookupKey := ⟨k.id1, k.linkType⟩

namespace Memory

/-- `LinkTimeStampComparator`. The first branch compares `l1.id1` with `l2.id2`; it is never
taken inside one set. -/
def compare (l₁ l₂ : Link) : Int :=
  if l₁.id1 ≠ l₂.id1 then
    if l₁.id1 < l₂.id2 then -1 else 1
  else if l₁.time ≠ l₂.time then
    if l₁.time < l₂.time then 1 else -1
  else if l₁.id2 = l₂.id2 then 0
  else if l₁.id2 < l₂.id2 then -1
  else 1

section

variable (dbid : String)

/-- `findLinkByKey` without `createPath`. -/
def findLinkByKey (key : LinkLookupKey) (dbs : Linkdbs) : Option (List Link) :=
  (dbs.lookup dbid).bind fun db => db.lookup key

/-- The set `findLinkByKey` hands out, written back after it was changed. -/
def putLinks (key : LinkLookupKey) (links : List Link) (dbs : Linkdbs) : Linkdbs :=
  dbs.insert dbid (((dbs.lookup dbid).getD ∅).insert key links)

/-! ## The writing calls -/

/-- `addLink`: every link with this `id2` goes, then the argument comes in. -/
def addLink (a : Link) (dbs : Linkdbs) : Bool × Linkdbs :=
  let links := (findLinkByKey dbid a.lookupKey dbs).getD []
  let found := links.any fun existing => existing.id2 = a.id2
  let kept := links.filter fun existing => existing.id2 ≠ a.id2
  (!found, putLinks dbid a.lookupKey (treeAdd compare a kept) dbs)

/-- The loop of `deleteLink`; `none` when it runs out of links. -/
def deleteFrom (id2 : Int) (expunge : Bool) : List Link → Option (List Link)
  | [] => none
  | l :: ls =>
    if l.id2 = id2 then
      some (if !expunge then { l with visibility := visibilityHidden } :: ls else ls)
    else (deleteFrom id2 expunge ls).map (l :: ·)

def deleteLink (k : LinkKey) (expunge : Bool) (dbs : Linkdbs) : Bool × Linkdbs :=
  match findLinkByKey dbid k.lookupKey dbs with
  | none => (false, dbs)
  | some linkSet =>
    match deleteFrom k.id2 expunge linkSet with
    | none => (false, dbs)
    | some linkSet' => (true, putLinks dbid k.lookupKey linkSet' dbs)

/-- The iterator's `remove` in `updateLink`; `none` when the loop runs out of links. -/
def removeFirst (id2 : Int) : List Link → Option (List Link)
  | [] => none
  | l :: ls => if l.id2 = id2 then some ls else (removeFirst id2 ls).map (l :: ·)

/-- The message of the exception `updateLink` throws. -/
def linkNotFound (a : Link) : String :=
  "Link not found: (" ++ toString a.id1 ++ ", " ++ toString a.linkType ++ ", " ++
    toString a.id2 ++ ")"

def updateLink (a : Link) (dbs : Linkdbs) : Except String (Bool × Linkdbs) :=
  match (findLinkByKey dbid a.lookupKey dbs).bind (removeFirst a.id2) with
  | none => .error (linkNotFound a)
  | some linkSet => .ok (true, putLinks dbid a.lookupKey (treeAdd compare a linkSet) dbs)

/-- A writing call of the interface. -/
def call : LinkOp → Linkdbs → Except String (Bool × Linkdbs)
  | .addLink l, dbs => .ok (addLink dbid l dbs)
  | .deleteLink k expunge, dbs => .ok (deleteLink dbid k expunge dbs)
  | .updateLink l, dbs => updateLink dbid l dbs

/-! ## The queries -/

def getLink (k : LinkKey) (dbs : Linkdbs) : Option Link :=
  (findLinkByKey dbid k.lookupKey dbs).bind fun linkSet => linkSet.find? fun l => l.id2 = k.id2

/-- The condition on a link both passes of `getLinkList` test. -/
def inTimeRange (minTimestamp maxTimestamp : Int) (l : Link) : Bool :=
  l.visibility = visibilityDefault ∧ l.time ≥ minTimestamp ∧ l.time ≤ maxTimestamp

/-- The first pass of `getLinkList`: the size of the result. -/
def countPass (p : Link → Bool) (offset limit : Int) : List Link → Int → Int → Int
  | [], _, matching => matching
  | l :: ls, skipped, matching =>
    if p l then
      if skipped < offset then countPass p offset limit ls (skipped + 1) matching
      else if matching + 1 ≥ limit then matching + 1
      else countPass p offset limit ls skipped (matching + 1)
    else countPass p offset limit ls skipped matching

/-- The second pass: `res` holds the cells filled so far, `i` is their number. -/
def fillPass (p : Link → Bool) (offset limit : Int) : List Link → Int → List Link → List Link
  | [], _, res => res
  | l :: ls, skipped, res =>
    if p l then
      if skipped < offset then fillPass p offset limit ls (skipped + 1) res
      else if ((res ++ [l]).length : Int) ≥ limit then res ++ [l]
      else fillPass p offset limit ls skipped (res ++ [l])
    else fillPass p offset limit ls skipped res

/-- `getLinkList`; `none` is the source's `null`. -/
def getLinkList (id1 linkType minTimestamp maxTimestamp offset limit : Int) (dbs : Linkdbs) :
    Option (List Link) :=
  match findLinkByKey dbid ⟨id1, linkType⟩ dbs with
  | none => none
  | some linkSet =>
    if linkSet.length = 0 then none
    else if countPass (inTimeRange minTimestamp maxTimestamp) offset limit linkSet 0 0 = 0 then none
    else some (fillPass (inTimeRange minTimestamp maxTimestamp) offset limit linkSet 0 [])

/-- `countLinks`, with its `int` counter. -/
def countLinks (id1 linkType : Int) (dbs : Linkdbs) : Int :=
  match findLinkByKey dbid ⟨id1, linkType⟩ dbs with
  | none => 0
  | some linkSet =>
    linkSet.foldl
      (fun visible l => if l.visibility = visibilityDefault then wrap32 (visible + 1) else visible) 0

end

end Memory

end TokuQa.LinkBench
