import Mathlib.Data.List.Nodup
import Mathlib.Data.Set.Card
import Mathlib.Logic.Function.Basic
import TokuQa.Lib.SortedSet

/-!
# Links, and what a link store is for

`Link.java`, `LinkCount.java` and the constants of `LinkStore.java`, followed by the contract
the abstract class documents for its three writing methods. `AbsStore` is that contract and
nothing more: a map from keys to links, with the answers the javadoc promises. The two
implementations are compared with it in `MemoryRefine` and `Contract`.

`dbid` and `noinverse` are not here: the first picks the database every other argument is
about, and no implementation reads the second.
-/

set_option autoImplicit false

namespace TokuQa.LinkBench

/-! ## `LinkStore.java`'s constants -/

def defaultLinkType : Int := 123456789

def visibilityHidden : Int := 0

def visibilityDefault : Int := 1

/-- What identifies a link: the primary key of the link table, and the key `getLink` takes. -/
structure LinkKey where
  id1 : Int
  linkType : Int
  id2 : Int
deriving DecidableEq

/-- `Link.java`. -/
structure Link where
  id1 : Int
  linkType : Int
  id2 : Int
  visibility : Int
  data : List UInt8
  version : Int
  time : Int
deriving DecidableEq

def Link.key (l : Link) : LinkKey := ⟨l.id1, l.linkType, l.id2⟩

/-- `LinkCount.java`. -/
structure LinkCount where
  id1 : Int
  linkType : Int
  time : Int
  version : Int
  count : Int
deriving DecidableEq

/-- The writing calls of the interface. -/
inductive LinkOp where
  | addLink (l : Link)
  | deleteLink (k : LinkKey) (expunge : Bool)
  | updateLink (l : Link)
deriving DecidableEq

/-! ## The documented contract -/

/-- The links of one database, by key. -/
abbrev AbsStore := LinkKey → Option Link

namespace AbsStore

def empty : AbsStore := fun _ => none

/-- "Add provided link to the store. If already exists, update with new data. Returns true
if new link added, false if updated." -/
def addLink (l : Link) (S : AbsStore) : Bool × AbsStore :=
  ((S l.key).isNone, Function.update S l.key (some l))

/-- "Returns true if row existed. If `expunge` is true, delete permanently; if false, hide
instead." -/
def deleteLink (k : LinkKey) (expunge : Bool) (S : AbsStore) : Bool × AbsStore :=
  match S k with
  | none => (false, S)
  | some l =>
    (true, Function.update S k
      (if expunge then none else some { l with visibility := visibilityHidden }))

/-- "Update a link in the database, or add if not found. Returns true if link found, false if
new link created." -/
def updateLink (l : Link) (S : AbsStore) : Bool × AbsStore :=
  ((S l.key).isSome, Function.update S l.key (some l))

/-- The contract, call by call. -/
def apply : LinkOp → AbsStore → Bool × AbsStore
  | .addLink l => addLink l
  | .deleteLink k expunge => deleteLink k expunge
  | .updateLink l => updateLink l

/-- Every link sits under its own key. -/
def Keyed (S : AbsStore) : Prop := ∀ k l, S k = some l → l.key = k

theorem keyed_empty : Keyed empty := fun _ _ h => by cases h

theorem Keyed.update {S : AbsStore} (hS : Keyed S) {k : LinkKey} {o : Option Link}
    (ho : ∀ l, o = some l → l.key = k) : Keyed (Function.update S k o) := by
  intro k' l h
  by_cases hk : k' = k
  · subst hk
    rw [Function.update_self] at h
    exact ho l h
  · rw [Function.update_of_ne hk] at h
    exact hS k' l h

/-- No call moves a link away from its key. -/
theorem Keyed.apply {S : AbsStore} (hS : Keyed S) (op : LinkOp) : Keyed (AbsStore.apply op S).2 := by
  cases op with
  | addLink l => exact hS.update fun l' h => by cases h; rfl
  | updateLink l => exact hS.update fun l' h => by cases h; rfl
  | deleteLink k expunge =>
    simp only [AbsStore.apply, deleteLink]
    cases hk : S k with
    | none => exact hS
    | some l =>
      refine hS.update fun l' h => ?_
      cases expunge with
      | true => cases h
      | false => cases h; exact hS k l hk

/-! ### What the queries answer -/

/-- "Does not return hidden links": the links `getLinkList` and `countLinks` are about. -/
def visible (S : AbsStore) (id1 linkType : Int) : Set Link :=
  {l | S l.key = some l ∧ l.id1 = id1 ∧ l.linkType = linkType ∧ l.visibility = visibilityDefault}

/-- The visible links with `minTimestamp <= time <= maxTimestamp`. -/
def inRange (S : AbsStore) (id1 linkType minTimestamp maxTimestamp : Int) : Set Link :=
  {l | l ∈ S.visible id1 linkType ∧ minTimestamp ≤ l.time ∧ l.time ≤ maxTimestamp}

/-- Descending time, then ascending `id2`. -/
def Newer (l l' : Link) : Prop := l'.time < l.time ∨ (l.time = l'.time ∧ l.id2 < l'.id2)

instance : IsTrans Link Newer where
  trans a b c hab hbc := by
    unfold Newer at *
    omega

theorem Newer.asymm {l l' : Link} (h : Newer l l') : ¬ Newer l' l := by
  unfold Newer at *
  omega

/-- `L` lists the links in range, newest first. -/
structure Listing (S : AbsStore) (id1 linkType minTimestamp maxTimestamp : Int)
    (L : List Link) : Prop where
  sorted : L.Pairwise Newer
  mem : ∀ l, l ∈ L ↔ l ∈ S.inRange id1 linkType minTimestamp maxTimestamp

/-- The slice `[offset, offset + limit)` of a list; `null` when it is empty. -/
def page (offset limit : Nat) (L : List Link) : Option (List Link) :=
  if (L.drop offset).take limit = [] then none else some ((L.drop offset).take limit)

theorem nodup_of_newer {L : List Link} (h : L.Pairwise Newer) : L.Nodup := by
  refine h.imp fun {l l'} hl he => ?_
  subst he
  exact hl.asymm hl

/-- A list without repetitions is as long as the set of its members is large. -/
theorem ncard_eq_length {s : Set Link} {L : List Link} (hL : L.Nodup) (hmem : ∀ l, l ∈ L ↔ l ∈ s) :
    s.ncard = L.length := by
  have hs : s = (L.toFinset : Set Link) := by
    ext l
    rw [Finset.mem_coe, List.mem_toFinset, hmem]
  rw [hs, Set.ncard_coe_finset, List.toFinset_card_of_nodup hL]

theorem Listing.length_eq {S : AbsStore} {id1 linkType minT maxT : Int} {L : List Link}
    (h : Listing S id1 linkType minT maxT L) :
    (S.inRange id1 linkType minT maxT).ncard = L.length :=
  ncard_eq_length (nodup_of_newer h.sorted) h.mem

/-- There is one listing, so "the slice" makes sense. -/
theorem Listing.unique {S : AbsStore} {id1 linkType minT maxT : Int} {L L' : List Link}
    (h : Listing S id1 linkType minT maxT L) (h' : Listing S id1 linkType minT maxT L') : L = L' :=
  Lib.eq_of_mem_iff (fun _ _ hn => hn.asymm) h.sorted h'.sorted fun l => (h.mem l).trans (h'.mem l).symm

end AbsStore

end TokuQa.LinkBench
