import TokuQa.Lib.Deck
import TokuQa.Lib.JavaInt
import TokuQa.LinkBench.LinkStore

/-!
# Turning results into links in `LinkStoreRocksDb.java`

Two methods fill an array with the links of a service's results, with the same loop but for one
statement: `getLinkListImpl` counts `i` up in it, `multigetLinksImpl` does not. The services are
parameters; what the loops make of their answers holds for any answers.

A cell of the array that has not been written is `null`, here `none`. A store outside of it would
be an exception, which is `none` for the whole.
-/

set_option autoImplicit false

namespace TokuQa.LinkBench.Rocks

open TokuQa.Lib

/-- `TaoAssocGetResult.java`. -/
structure TaoAssocGetResult where
  id2 : Int
  time : Int
  dataVersion : Int
  data : List UInt8

/-- What `getAssocClient` answers: a service of `RocksService.java` for each method. -/
structure AssocClient where
  taoAssocGet : (dbid : String) → (assocType id1 : Int) → (id2s : List Int) → List TaoAssocGetResult
  taoAssocRangeGet : (dbid : String) → (assocType id1 startTime endTime offset limit : Int) →
    List TaoAssocGetResult

/-- The link of a result; the version is cast to `int`. -/
def newLink (id1 linkType : Int) (tar : TaoAssocGetResult) : Link :=
  ⟨id1, linkType, tar.id2, visibilityDefault, tar.data, wrap32 tar.dataVersion, tar.time⟩

/-- The loop of both methods; `next` is what it makes of `i`. -/
def fillResults (id1 linkType : Int) (next : Nat → Nat) :
    List TaoAssocGetResult → Nat → List (Option Link) → Option (List (Option Link))
  | [], _, results => some results
  | tar :: tr, i, results => do
    fillResults id1 linkType next tr (next i)
      (← setAt results i (some (newLink id1 linkType tar)))

variable (client : AssocClient) (dbid : String) (id1 linkType : Int)

def multigetLinksImpl (id2s : List Int) : Option (List (Option Link)) :=
  let tr := client.taoAssocGet (dbid ++ "assocs") linkType id1 id2s
  -- nothing is done to `i`
  fillResults id1 linkType (fun i => i) tr 0 (List.replicate tr.length none)

def getLinkListImpl (minTimestamp maxTimestamp offset limit : Int) : Option (List (Option Link)) :=
  let tr := client.taoAssocRangeGet (dbid ++ "assocs") linkType id1 maxTimestamp minTimestamp offset
    limit
  fillResults id1 linkType (fun i => i + 1) tr 0 (List.replicate tr.length none)

/-- The array has the link of each result at its index. -/
def Mirrors (tr : List TaoAssocGetResult) (results : Option (List (Option Link))) : Prop :=
  results = some (tr.map fun tar => some (newLink id1 linkType tar))

variable {client dbid id1 linkType}

/-- With the index counted up, the cells behind those that are written are filled in turn. -/
theorem fillResults_succ (written : List (Option Link)) (tr : List TaoAssocGetResult) :
    fillResults id1 linkType (fun i => i + 1) tr written.length
      (written ++ List.replicate tr.length none) =
      some (written ++ tr.map fun tar => some (newLink id1 linkType tar)) := by
  induction tr generalizing written with
  | nil => rfl
  | cons tar tr ih =>
    have hlt : written.length < (written ++ List.replicate (tr.length + 1) none).length := by simp
    have hset : (written ++ List.replicate (tr.length + 1) none).set written.length
        (some (newLink id1 linkType tar)) =
        (written ++ [some (newLink id1 linkType tar)]) ++ List.replicate tr.length none := by
      rw [List.set_append_right _ _ (Nat.le_refl _), Nat.sub_self, List.replicate_succ,
        List.set_cons_zero, List.append_assoc]
      rfl
    have hrest := ih (written ++ [some (newLink id1 linkType tar)])
    rw [List.length_append, List.length_singleton, List.append_assoc] at hrest
    rw [List.length_cons, fillResults, setAt_of_lt hlt, hset, List.append_assoc]
    exact hrest.trans (congrArg some (List.append_assoc _ _ _))

/-- Without, all of them are written to the first cell. -/
theorem fillResults_id (tr : List TaoAssocGetResult) (first : Option Link)
    (rest : List (Option Link)) :
    fillResults id1 linkType (fun i => i) tr 0 (first :: rest) =
      some (((tr.getLast?.map (newLink id1 linkType)).or first) :: rest) := by
  induction tr generalizing first with
  | nil => rfl
  | cons tar tr ih =>
    rw [fillResults, setAt_of_lt (Nat.succ_pos _), List.set_cons_zero]
    refine (ih (some (newLink id1 linkType tar))).trans ?_
    rw [List.getLast?_cons]
    cases tr.getLast? with
    | none => rfl
    | some last => rfl

/-- What the sibling does. -/
theorem getLinkListImpl_mirrors (minTimestamp maxTimestamp offset limit : Int) :
    Mirrors id1 linkType
      (client.taoAssocRangeGet (dbid ++ "assocs") linkType id1 maxTimestamp minTimestamp offset limit)
      (getLinkListImpl client dbid id1 linkType minTimestamp maxTimestamp offset limit) :=
  fillResults_succ [] _

/-- **The array is right if there is at most one result**: of more, only the last is in it. -/
theorem multigetLinksImpl_mirrors_iff (client : AssocClient) (dbid : String)
    (id1 linkType : Int) (id2s : List Int) :
    Mirrors id1 linkType (client.taoAssocGet (dbid ++ "assocs") linkType id1 id2s)
      (multigetLinksImpl client dbid id1 linkType id2s) ↔
    (client.taoAssocGet (dbid ++ "assocs") linkType id1 id2s).length ≤ 1 := by
  unfold Mirrors multigetLinksImpl
  cases client.taoAssocGet (dbid ++ "assocs") linkType id1 id2s with
  | nil => exact iff_of_true rfl (Nat.zero_le 1)
  | cons tar tr =>
    show fillResults _ _ _ _ _ (none :: List.replicate tr.length none) = _ ↔ _
    rw [fillResults_id]
    cases tr with
    | nil => exact iff_of_true rfl (Nat.le_refl 1)
    | cons tar' tr =>
      refine iff_of_false (fun h => ?_) (by simp)
      -- the second cell has not been written
      have hsecond := congrArg (fun results => results.map fun rs => rs[1]?) h
      cases hsecond

/-- A service that answers a result for each id, and two ids. -/
theorem multigetLinksImpl_two_ids :
    ¬ Mirrors 1 2 [⟨5, 10, 1, [120]⟩, ⟨6, 10, 1, [121]⟩]
      (multigetLinksImpl ⟨fun _ _ _ id2s => id2s.map fun id2 => ⟨id2, 10, 1,
        [UInt8.ofNat (id2 + 115).toNat]⟩, fun _ _ _ _ _ _ _ => []⟩ "linkdb" 1 2 [5, 6]) := by
  unfold Mirrors
  decide

end TokuQa.LinkBench.Rocks
