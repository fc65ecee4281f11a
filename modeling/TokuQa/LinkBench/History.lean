import TokuQa.Lib.JavaInt
import TokuQa.Lib.PositionIndex
import TokuQa.Lib.Run
import TokuQa.LinkBench.LinkStore

/-!
# The history cache of `LinkBenchRequest.java`

A requester remembers, for the link lists it did not read to the end, the last link it got.
The links are kept in `listTailHistory`, and `listTailHistoryIndex` says where the entry of
each list is, so that no list gets two entries.

The index is kept right by every change but one. `removeTailCacheEntry` takes the key of the
entry out of the index only if the entry is the last one of the cache; elsewhere the entry is
overwritten, and its key stays behind (`history_ok_iff`). From then on the list with that key
is taken for present, and never enters the cache again.

Links are values here, so `clone` is not seen; neither is trace output. A call that throws
(an index out of bounds, `nextInt(0)`, an exception of the store) throws before it changes
anything.
-/

set_option autoImplicit false

namespace TokuQa.LinkBench

open TokuQa.Lib

structure HistoryKey where
  id1 : Int
  linkType : Int
deriving DecidableEq

/-- The second constructor of `HistoryKey`. -/
def HistoryKey.ofLink (l : Link) : HistoryKey := ⟨l.id1, l.linkType⟩

/-- "Hardcoded limit for now". -/
def listTailHistoryLimit : Nat := 2048

/-- The fields of a requester that the cache is made of. -/
structure History where
  listTailHistory : List Link
  listTailHistoryIndex : Table HistoryKey Nat
  numHistoryQueries : Int

/-- How a query of the store ends; `returns none` is `null`. -/
inductive StoreResult where
  | throws
  | returns (links : Option (List Link))
deriving DecidableEq

namespace History

def empty : History := ⟨[], ∅, 0⟩

/-- The keys of the cache, in the order of its entries. -/
def keys (h : History) : List HistoryKey := h.listTailHistory.map HistoryKey.ofLink

/-! ## The methods -/

/-- `removeTailCacheEntry`; `none` where `get` throws. -/
def removeTailCacheEntry (pos : Nat) (repl : Option Link) (h : History) : Option History :=
  match h.listTailHistory[pos]? with
  | none => none
  | some entry =>
    let lastIx := h.listTailHistory.length - 1
    if pos = lastIx then
      -- removing from last position, don't need to fill gap
      let index := h.listTailHistoryIndex.erase (HistoryKey.ofLink entry)
      match repl with
      | none =>
        some { h with
          listTailHistory := h.listTailHistory.dropLast
          listTailHistoryIndex := index }
      | some repl =>
        some { h with
          listTailHistory := h.listTailHistory.set lastIx repl
          listTailHistoryIndex := index.insert (HistoryKey.ofLink repl) lastIx }
    else
      match repl with
      | none =>
        -- replace with last entry in cache to fill gap; there is one, the list is not empty
        let repl := h.listTailHistory.getLastD entry
        some { h with
          listTailHistory := h.listTailHistory.dropLast.set pos repl
          listTailHistoryIndex := h.listTailHistoryIndex.insert (HistoryKey.ofLink repl) pos }
      | some repl =>
        some { h with
          listTailHistory := h.listTailHistory.set pos repl
          listTailHistoryIndex := h.listTailHistoryIndex.insert (HistoryKey.ofLink repl) pos }

/-- `addTailCacheEntry`; `choice` is what `nextInt` returns if an entry has to go. -/
def addTailCacheEntry (lastLink : Link) (choice : Nat) (h : History) : Option History :=
  if (h.listTailHistoryIndex.lookup (HistoryKey.ofLink lastLink)).isSome then some h
  else if h.listTailHistory.length < listTailHistoryLimit then
    some { h with
      listTailHistory := h.listTailHistory ++ [lastLink]
      listTailHistoryIndex :=
        h.listTailHistoryIndex.insert (HistoryKey.ofLink lastLink) h.listTailHistory.length }
  else removeTailCacheEntry choice (some lastLink) h

end History

/-- `links != null && links.length >= linkStore.getRangeLimit()`. -/
def maybeMore (rangeLimit : Int) (links : Option (List Link)) : Bool :=
  links.any fun ls => (ls.length : Int) ≥ rangeLimit

/-- `links != null && links.length == linkStore.getRangeLimit()`. -/
def fullPage (rangeLimit : Int) (links : Option (List Link)) : Bool :=
  links.any fun ls => (ls.length : Int) = rangeLimit

namespace History

section

variable (ea : Bool) (rangeLimit : Int)

/-- `getLinkList(id1, link_type)`, with the result and the cache after it; `result` is what
the store answers. -/
def getLinkList (choice : Nat) (result : StoreResult) (h : History) :
    Option (Option (List Link) × History) :=
  match result with
  | .throws => none
  | .returns links =>
    -- if there were more links than limit, record
    if maybeMore rangeLimit links then
      (links.bind List.getLast?).bind fun lastLink =>
        (addTailCacheEntry lastLink choice h).map fun h' => (links, h')
    else some (links, h)

/-- `getLinkListTail`, with the result and the cache after it; `choice` is what `nextInt`
returns, `query` the store, asked for the links past the one it is given. `ea` says whether
the virtual machine looks at assertions. -/
def getLinkListTail (choice : Nat) (query : Link → StoreResult) (h : History) :
    Option (Option (List Link) × History) :=
  if ea ∧ (h.listTailHistoryIndex = ∅ ∨ h.listTailHistory = []) then none
  else
    match h.listTailHistory[choice]? with
    | none => none
    | some prevLast =>
      match query prevLast with
      | .throws => none
      | .returns links =>
        if fullPage rangeLimit links then
          -- there might be yet more history
          (links.bind List.getLast?).map fun last =>
            (links, { h with
              listTailHistory := h.listTailHistory.set choice last
              numHistoryQueries := wrap64 (h.numHistoryQueries + 1) })
        else
          (removeTailCacheEntry choice none h).map fun h' =>
            (links, { h' with numHistoryQueries := wrap64 (h'.numHistoryQueries + 1) })

end

end History

/-- A call of one of the three methods, with the choice it makes and the answer it gets. -/
inductive HistoryOp where
  | addTailCacheEntry (lastLink : Link) (choice : Nat)
  | getLinkListTail (choice : Nat) (result : StoreResult)
  | removeTailCacheEntry (pos : Nat) (repl : Option Link)

namespace History

section

variable (ea : Bool) (rangeLimit : Int)

def call (op : HistoryOp) (h : History) : Option History :=
  match op with
  | .addTailCacheEntry lastLink choice => addTailCacheEntry lastLink choice h
  | .getLinkListTail choice result =>
    (getLinkListTail ea rangeLimit choice (fun _ => result) h).map Prod.snd
  | .removeTailCacheEntry pos repl => removeTailCacheEntry pos repl h

/-- A call that throws leaves the cache as it was, and the requester goes on. -/
def step (op : HistoryOp) (h : History) : Option History :=
  some ((call ea rangeLimit op h).getD h)

end

/-! ## The invariant, and when a call keeps it -/

/-- The cache is not too large, has one entry for a list, and its index is right. -/
structure Ok (h : History) : Prop where
  size : h.listTailHistory.length ≤ listTailHistoryLimit
  nodup : h.keys.Nodup
  indexed : Indexed h.keys h.listTailHistoryIndex

theorem ok_empty : Ok empty := ⟨by simp [empty], List.nodup_nil, indexed_nil⟩

/-- The entry at `pos` may leave, or make room for `repl`: it is the last one of the cache, and
`repl` is new; or `repl` is for the same list. -/
def RemoveFine (pos : Nat) (repl : Option Link) (h : History) : Prop :=
  ∀ entry, h.listTailHistory[pos]? = some entry →
    match repl with
    | none => pos = h.listTailHistory.length - 1
    | some repl =>
      HistoryKey.ofLink repl = HistoryKey.ofLink entry ∨
        (pos = h.listTailHistory.length - 1 ∧
          h.listTailHistoryIndex.lookup (HistoryKey.ofLink repl) = none)

/-- **The calls that keep the index right.** What leaves the cache leaves from its end, and
what a full page puts into the place of an entry belongs to the same list. -/
def Fine (rangeLimit : Int) (op : HistoryOp) (h : History) : Prop :=
  match op with
  | .addTailCacheEntry lastLink choice =>
    h.listTailHistoryIndex.lookup (HistoryKey.ofLink lastLink) = none →
      listTailHistoryLimit ≤ h.listTailHistory.length → RemoveFine choice (some lastLink) h
  | .getLinkListTail choice result =>
    ∀ links, result = .returns links →
      if fullPage rangeLimit links then
        ∀ prevLast last, h.listTailHistory[choice]? = some prevLast →
          links.bind List.getLast? = some last →
          HistoryKey.ofLink last = HistoryKey.ofLink prevLast
      else RemoveFine choice none h
  | .removeTailCacheEntry pos repl => RemoveFine pos repl h

/-- A link of a list that has no entry yet, at the end of the cache. -/
theorem push_ok {rest : List Link} {index : Table HistoryKey Nat} {l : Link} {n : Int}
    (hrest : Indexed (rest.map HistoryKey.ofLink) index)
    (hnew : index.lookup (HistoryKey.ofLink l) = none)
    (hroom : rest.length < listTailHistoryLimit) :
    Ok ⟨rest ++ [l], index.insert (HistoryKey.ofLink l) rest.length, n⟩ := by
  have hpush := hrest.push hnew
  rw [List.length_map, ← List.map_singleton, ← List.map_append] at hpush
  refine ⟨?_, hpush.nodup, hpush⟩
  rw [List.length_append, List.length_singleton]
  exact hroom

/-! ### A removal -/

section

variable {h h' : History} {pos : Nat} {entry : Link}

/-- The entry at the last position, and what is in front of it. -/
theorem dropLast_append_of_last (hpos : h.listTailHistory[pos]? = some entry)
    (hlast : pos = h.listTailHistory.length - 1) :
    h.listTailHistory.dropLast ++ [entry] = h.listTailHistory := by
  rw [hlast, ← List.getLast?_eq_getElem?] at hpos
  exact List.dropLast_append_getLast? entry hpos

theorem getElem?_getLastD (hpos : h.listTailHistory[pos]? = some entry) :
    h.listTailHistory[h.listTailHistory.length - 1]? =
      some (h.listTailHistory.getLastD entry) := by
  rw [← List.getLast?_eq_getElem?, List.getLastD_eq_getLast?]
  cases hl : h.listTailHistory.getLast? with
  | none =>
    rw [List.getLast?_eq_none_iff] at hl
    rw [hl] at hpos
    cases hpos
  | some l => rfl

theorem lookup_entry (hok : h.Ok) (hpos : h.listTailHistory[pos]? = some entry) :
    h.listTailHistoryIndex.lookup (HistoryKey.ofLink entry) = some pos := by
  refine (hok.indexed _ _).mpr ?_
  rw [keys, List.getElem?_map, hpos, Option.map_some]

/-- An entry overwritten where it stands: that is right only for another link of its list. -/
theorem ok_set_iff (hok : h.Ok) (hpos : h.listTailHistory[pos]? = some entry) {repl : Link}
    {index : Table HistoryKey Nat} {n : Int}
    (hsame : HistoryKey.ofLink repl = HistoryKey.ofLink entry → index = h.listTailHistoryIndex)
    (hother : HistoryKey.ofLink repl ≠ HistoryKey.ofLink entry →
      index.lookup (HistoryKey.ofLink entry) =
        h.listTailHistoryIndex.lookup (HistoryKey.ofLink entry)) :
    Ok ⟨h.listTailHistory.set pos repl, index, n⟩ ↔
      HistoryKey.ofLink repl = HistoryKey.ofLink entry := by
  have hlt : pos < h.listTailHistory.length := (List.getElem?_eq_some_iff.mp hpos).1
  have hkeys : (h.listTailHistory.set pos repl).map HistoryKey.ofLink =
      h.keys.set pos (HistoryKey.ofLink repl) := List.map_set
  have hkey : h.keys[pos]? = some (HistoryKey.ofLink entry) := by
    rw [keys, List.getElem?_map, hpos, Option.map_some]
  constructor
  · intro hok'
    by_contra hne
    -- the index still finds the old key at `pos`, where the new one is
    have hfound : index.lookup (HistoryKey.ofLink entry) = some pos :=
      (hother hne).trans (lookup_entry hok hpos)
    have hat := (hok'.indexed _ _).mp hfound
    rw [keys, hkeys, List.getElem?_set_self (by simpa [keys] using hlt)] at hat
    exact hne (Option.some.inj hat)
  · intro he
    have hself : h.keys.set pos (HistoryKey.ofLink repl) = h.keys := by
      rw [he]
      refine List.ext_getElem? fun i => ?_
      by_cases hi : pos = i
      · subst hi
        rw [List.getElem?_set_self (by simpa [keys] using hlt), hkey]
      · rw [List.getElem?_set_ne hi]
    refine ⟨?_, ?_, ?_⟩
    · simpa using hok.size
    · rw [keys, hkeys, hself]
      exact hok.nodup
    · rw [keys, hkeys, hself, hsame he]
      exact hok.indexed

/-- At the end of the cache, the entry leaves with its key. -/
theorem removeLast_ok_iff (hok : h.Ok) (hpos : h.listTailHistory[pos]? = some entry)
    (hlast : pos = h.listTailHistory.length - 1) {repl : Option Link}
    (hr : removeTailCacheEntry pos repl h = some h') : h'.Ok ↔ RemoveFine pos repl h := by
  have hsplit := dropLast_append_of_last hpos hlast
  have hlen : h.listTailHistory.dropLast.length = pos := by rw [List.length_dropLast, hlast]
  have hlt : pos < h.listTailHistory.length := (List.getElem?_eq_some_iff.mp hpos).1
  have hroom : h.listTailHistory.dropLast.length < listTailHistoryLimit := by
    have := hok.size
    omega
  have hkeys : h.keys =
      h.listTailHistory.dropLast.map HistoryKey.ofLink ++ [HistoryKey.ofLink entry] := by
    rw [keys, ← List.map_singleton, ← List.map_append, hsplit]
  have hpop := (hkeys ▸ hok.indexed).pop
  simp only [removeTailCacheEntry, hpos, ← hlast, if_true] at hr
  simp only [RemoveFine, hpos, Option.some.injEq, forall_eq', ← hlast, true_and]
  cases repl with
  | none =>
    cases hr
    exact iff_of_true ⟨hroom.le, hpop.nodup, hpop⟩ trivial
  | some repl =>
    cases hr
    have hset : h.listTailHistory.set pos repl = h.listTailHistory.dropLast ++ [repl] := by
      conv_lhs => rw [← hsplit]
      rw [← hlen, List.set_append_right _ _ (Nat.le_refl _), Nat.sub_self]
      rfl
    rw [hset]
    constructor
    · intro hok'
      by_contra hbad
      push Not at hbad
      obtain ⟨hne, hin⟩ := hbad
      -- the list of `repl` has another entry, in front of the last one
      have hmem : HistoryKey.ofLink repl ∈ h.keys := by
        by_contra hnot
        exact hin (hok.indexed.lookup_eq_none_iff.mpr hnot)
      rw [hkeys, List.mem_append, List.mem_singleton] at hmem
      have hdup := hok'.nodup
      rw [keys, List.map_append, List.map_singleton, List.nodup_append] at hdup
      exact hdup.2.2 _ (hmem.resolve_right hne) _ (List.mem_singleton_self _) rfl
    · intro hfine
      rw [← hlen]
      refine push_ok hpop ?_ hroom
      rw [Table.lookup_erase_eq]
      by_cases he : HistoryKey.ofLink repl = HistoryKey.ofLink entry
      · rw [if_pos he]
      · rw [if_neg he]
        exact hfine.resolve_left he

/-- Elsewhere its key stays behind, and is right only for another link of the same list. -/
theorem removeInner_ok_iff (hok : h.Ok) (hpos : h.listTailHistory[pos]? = some entry)
    (hinner : pos ≠ h.listTailHistory.length - 1) {repl : Option Link}
    (hr : removeTailCacheEntry pos repl h = some h') : h'.Ok ↔ RemoveFine pos repl h := by
  have hlt : pos < h.listTailHistory.length := (List.getElem?_eq_some_iff.mp hpos).1
  have hfound := lookup_entry hok hpos
  simp only [removeTailCacheEntry, hpos, if_neg hinner] at hr
  simp only [RemoveFine, hpos, Option.some.injEq, forall_eq', hinner, false_and, or_false]
  cases repl with
  | none =>
    cases hr
    refine iff_of_false (fun hok' => ?_) id
    have hlast := getElem?_getLastD hpos
    have hne : HistoryKey.ofLink entry ≠ HistoryKey.ofLink (h.listTailHistory.getLastD entry) := by
      intro he
      have hfound' := lookup_entry hok hlast
      rw [← he, hfound] at hfound'
      exact hinner (Option.some.inj hfound')
    -- the index finds the old key where the former last entry is now
    have hat := (hok'.indexed (HistoryKey.ofLink entry) pos).mp (by
      rw [Table.lookup_insert_eq, if_neg hne]
      exact hfound)
    have hlt' : pos < h.listTailHistory.dropLast.length := by
      rw [List.length_dropLast]
      omega
    rw [keys, List.getElem?_map, List.getElem?_set_self hlt', Option.map_some] at hat
    exact hne (Option.some.inj hat).symm
  | some repl =>
    cases hr
    refine ok_set_iff hok hpos (fun he => ?_) fun hne => ?_
    · rw [he]
      exact Table.insert_self hfound
    · rw [Table.lookup_insert_eq, if_neg (Ne.symm hne)]

/-- **A removal keeps the index right** exactly when it is fine. -/
theorem remove_ok_iff (hok : h.Ok) {repl : Option Link}
    (hr : removeTailCacheEntry pos repl h = some h') : h'.Ok ↔ RemoveFine pos repl h := by
  cases hpos : h.listTailHistory[pos]? with
  | none =>
    rw [removeTailCacheEntry, hpos] at hr
    cases hr
  | some entry =>
    by_cases hlast : pos = h.listTailHistory.length - 1
    · exact removeLast_ok_iff hok hpos hlast hr
    · exact removeInner_ok_iff hok hpos hlast hr

/-- A removal that throws had nothing to remove. -/
theorem remove_eq_none_iff {repl : Option Link} :
    removeTailCacheEntry pos repl h = none ↔ h.listTailHistory[pos]? = none := by
  unfold removeTailCacheEntry
  cases h.listTailHistory[pos]? with
  | none => exact iff_of_true rfl rfl
  | some entry =>
    refine iff_of_false ?_ (by simp)
    by_cases hlast : pos = h.listTailHistory.length - 1
    · cases repl <;> simp [hlast]
    · cases repl <;> simp [hlast]

/-- A removal as the requester sees it, the exception included. -/
theorem remove_getD_ok_iff (hok : h.Ok) (repl : Option Link) :
    Ok ((removeTailCacheEntry pos repl h).getD h) ↔ RemoveFine pos repl h := by
  cases hr : removeTailCacheEntry pos repl h with
  | none =>
    have hnone := remove_eq_none_iff.mp hr
    refine iff_of_true hok fun entry hentry => ?_
    rw [hnone] at hentry
    cases hentry
  | some h' => exact remove_ok_iff hok hr

/-! ### A call -/

theorem add_ok_iff (hok : h.Ok) (lastLink : Link) (choice : Nat) :
    Ok ((addTailCacheEntry lastLink choice h).getD h) ↔
      (h.listTailHistoryIndex.lookup (HistoryKey.ofLink lastLink) = none →
        listTailHistoryLimit ≤ h.listTailHistory.length →
          RemoveFine choice (some lastLink) h) := by
  unfold addTailCacheEntry
  cases hnew : h.listTailHistoryIndex.lookup (HistoryKey.ofLink lastLink) with
  | some p => exact iff_of_true hok (by simp)
  | none =>
    simp only [Option.isSome_none, Bool.false_eq_true, if_false, true_implies]
    by_cases hroom : h.listTailHistory.length < listTailHistoryLimit
    · rw [if_pos hroom]
      refine iff_of_true ?_ fun hfull => absurd hroom (Nat.not_lt.mpr hfull)
      exact push_ok hok.indexed hnew hroom
    · rw [if_neg hroom, remove_getD_ok_iff hok]
      exact ⟨fun hfine _ => hfine, fun hfine => hfine (Nat.not_lt.mp hroom)⟩

/-- The counter of history queries is no part of the invariant. -/
theorem ok_count_iff {n : Int} : Ok { h with numHistoryQueries := n } ↔ h.Ok :=
  ⟨fun hok => ⟨hok.size, hok.nodup, hok.indexed⟩, fun hok => ⟨hok.size, hok.nodup, hok.indexed⟩⟩

theorem fine_of_empty {rangeLimit : Int} {choice : Nat} {result : StoreResult}
    (hpos : h.listTailHistory[choice]? = none) :
    Fine rangeLimit (.getLinkListTail choice result) h := by
  intro links _
  split
  · intro prevLast last hprev
    rw [hpos] at hprev
    cases hprev
  · intro entry hentry
    rw [hpos] at hentry
    cases hentry

theorem tail_ok_iff (hok : h.Ok) (ea : Bool) (rangeLimit : Int) (choice : Nat)
    (result : StoreResult) :
    Ok (((getLinkListTail ea rangeLimit choice (fun _ => result) h).map Prod.snd).getD h) ↔
      Fine rangeLimit (.getLinkListTail choice result) h := by
  unfold getLinkListTail
  by_cases hassert : ea = true ∧ (h.listTailHistoryIndex = ∅ ∨ h.listTailHistory = [])
  · -- the index is empty only if the cache is
    have hnil : h.listTailHistory = [] := by
      rcases hassert.2 with hindex | hnil
      · cases hl : h.listTailHistory with
        | nil => rfl
        | cons l ls =>
          have hfirst : h.listTailHistory[0]? = some l := by rw [hl]; rfl
          have hfound := lookup_entry hok hfirst
          rw [hindex, Finmap.lookup_empty] at hfound
          cases hfound
      · exact hnil
    rw [if_pos hassert]
    exact iff_of_true hok (fine_of_empty (by rw [hnil]; rfl))
  · rw [if_neg hassert]
    cases hpos : h.listTailHistory[choice]? with
    | none => exact iff_of_true hok (fine_of_empty hpos)
    | some prevLast =>
      cases result with
      | throws => exact iff_of_true hok fun links he => by cases he
      | returns links =>
        simp only [Fine, StoreResult.returns.injEq, forall_eq']
        by_cases hfull : fullPage rangeLimit links = true
        · simp only [hfull, if_true, hpos]
          cases hlast : links.bind List.getLast? with
          | none =>
            refine iff_of_true hok ?_
            intro _ last _ he
            cases he
          | some last =>
            refine (ok_set_iff hok hpos (fun _ => rfl) fun _ => rfl).trans ?_
            constructor
            · intro he prev last' hprev hlast'
              cases hprev
              cases hlast'
              exact he
            · intro hall
              exact hall prevLast last rfl rfl
        · simp only [hfull, if_false, Bool.false_eq_true]
          rw [← remove_getD_ok_iff hok]
          cases removeTailCacheEntry choice none h with
          | none => exact Iff.rfl
          | some h' => exact ok_count_iff

/-- **One call.** -/
theorem call_ok_iff (hok : h.Ok) (ea : Bool) (rangeLimit : Int) (op : HistoryOp) :
    Ok ((call ea rangeLimit op h).getD h) ↔ Fine rangeLimit op h := by
  cases op with
  | addTailCacheEntry lastLink choice => exact add_ok_iff hok lastLink choice
  | getLinkListTail choice result => exact tail_ok_iff hok ea rangeLimit choice result
  | removeTailCacheEntry pos repl => exact remove_getD_ok_iff hok repl

end

/-! ## Runs -/

/-- **The cache is right all along a run of calls** exactly when every call is fine: what
leaves, leaves from the end, and full pages are pages of the list they were asked for. -/
theorem history_ok_iff (ea : Bool) (rangeLimit : Int) (ops : List HistoryOp) :
    (∀ pre h, pre <+: ops → run (step ea rangeLimit) pre empty = some h → h.Ok) ↔
      AllSteps (step ea rangeLimit) (Fine rangeLimit) ops empty := by
  refine prefixes_iff (J := Ok) (W := fun _ => True) id ?_ ?_ ok_empty fun _ _ => trivial
  · intro op h h' hok _ hfine hstep
    cases hstep
    exact (call_ok_iff hok ea rangeLimit op).mpr hfine
  · intro op h hok _ hbad
    exact ⟨_, rfl, fun hok' => hbad ((call_ok_iff hok ea rangeLimit op).mp hok')⟩

/-- Two lists in the cache, and the first one is read to its end: its key stays in the index,
at the place of the other, and the list is not remembered again. -/
theorem removeTailCacheEntry_leaves_key :
    ∃ h, run (step false 10)
        [.addTailCacheEntry ⟨1, 1, 5, visibilityDefault, [], 0, 7⟩ 0,
         .addTailCacheEntry ⟨2, 1, 5, visibilityDefault, [], 0, 7⟩ 0,
         .getLinkListTail 0 (.returns none)] empty = some h ∧
      h.listTailHistoryIndex.lookup ⟨1, 1⟩ = some 0 ∧ h.keys = [⟨2, 1⟩] ∧
      addTailCacheEntry ⟨1, 1, 6, visibilityDefault, [], 0, 8⟩ 0 h = some h ∧ ¬ h.Ok := by
  refine ⟨_, rfl, by decide, by decide, rfl, fun hok => ?_⟩
  have hfound := (hok.indexed ⟨1, 1⟩ 0).mp (by decide)
  revert hfound
  decide

end History

end TokuQa.LinkBench
