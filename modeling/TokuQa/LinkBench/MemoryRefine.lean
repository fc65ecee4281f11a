import TokuQa.Lib.Run
import TokuQa.LinkBench.Memory

/-!
# `MemoryLinkStore` against the contract

`Refines dbs S` says that every set of the store is sorted, holds one link per `id2`, and
finds by `id2` what the abstract store has under the key. Each writing call keeps it and gives
the documented answer (`call_refines`); the one exception is `updateLink` of a missing link,
which throws.

The queries are then functions of the sorted set. `getLinkList` cuts the page
`[offset, offset + max 1 limit)` out of the visible links: its loops test the limit after they
have taken a link, so a limit of zero still takes one.
-/

set_option autoImplicit false

namespace TokuQa.LinkBench.Memory

open TokuQa.Lib AbsStore

/-- What holds of the set kept under `key`. -/
structure SetOk (key : LinkLookupKey) (links : List Link) : Prop where
  keyed : ∀ l ∈ links, l.lookupKey = key
  sorted : links.Pairwise Newer
  ids : links.Pairwise fun l l' => l.id2 ≠ l'.id2

theorem SetOk.nil (key : LinkLookupKey) : SetOk key [] :=
  ⟨by simp, List.Pairwise.nil, List.Pairwise.nil⟩

/-- The links under a key, none if there is no set yet. -/
def linksOf (dbs : Linkdbs) (dbid : String) (key : LinkLookupKey) : List Link :=
  (findLinkByKey dbid key dbs).getD []

/-- Looking for an `id2` in a set. -/
def findId (id2 : Int) (links : List Link) : Option Link := links.find? fun l => l.id2 = id2

/-! ## Sets of links with distinct `id2` -/

section

variable {links : List Link} {i j : Int}

theorem findId_eq_some_iff (h : links.Pairwise fun l l' => l.id2 ≠ l'.id2) {l : Link} :
    findId i links = some l ↔ l ∈ links ∧ l.id2 = i := by
  unfold findId
  induction links with
  | nil => simp
  | cons x xs ih =>
    rw [List.pairwise_cons] at h
    by_cases hx : x.id2 = i
    · rw [List.find?_cons_of_pos (by simpa using hx)]
      constructor
      · rintro ⟨⟩
        exact ⟨by simp, hx⟩
      · rintro ⟨hl, hi⟩
        rcases List.mem_cons.mp hl with rfl | hl
        · rfl
        · exact absurd (hx.trans hi.symm) (h.1 l hl)
    · rw [List.find?_cons_of_neg (by simpa using hx), ih h.2]
      constructor
      · rintro ⟨hl, hi⟩
        exact ⟨by simp [hl], hi⟩
      · rintro ⟨hl, hi⟩
        rcases List.mem_cons.mp hl with rfl | hl
        · exact absurd hi hx
        · exact ⟨hl, hi⟩

theorem any_eq_isSome_findId : (links.any fun l => l.id2 = i) = (findId i links).isSome := by
  unfold findId
  rw [Bool.eq_iff_iff, List.find?_isSome, List.any_eq_true]

/-- `id2` occurs nowhere in the set. -/
theorem findId_eq_none_iff : findId i links = none ↔ ∀ l ∈ links, l.id2 ≠ i := by
  simp [findId]

def hideAt (i : Int) (l : Link) : Link :=
  if l.id2 = i then { l with visibility := visibilityHidden } else l

@[simp] theorem hideAt_id2 (i : Int) (l : Link) : (hideAt i l).id2 = l.id2 := by
  unfold hideAt
  split <;> rfl

@[simp] theorem hideAt_time (i : Int) (l : Link) : (hideAt i l).time = l.time := by
  unfold hideAt
  split <;> rfl

@[simp] theorem hideAt_lookupKey (i : Int) (l : Link) :
    (hideAt i l).lookupKey = l.lookupKey := by
  unfold hideAt
  split <;> rfl

/-- Behind a link with an `id2` there is no other. -/
theorem filter_tail_eq {x : Link} (h : ∀ l ∈ links, x.id2 ≠ l.id2) (hx : x.id2 = i) :
    links.filter (fun l => l.id2 ≠ i) = links := by
  refine List.filter_eq_self.mpr fun l hl => ?_
  have hne := h l hl
  simp [← hx, Ne.symm hne]

/-- Taking out the first link with an `id2` takes out all of them. -/
theorem removeFirst_eq (h : links.Pairwise fun l l' => l.id2 ≠ l'.id2) :
    removeFirst i links = (findId i links).map fun _ => links.filter fun l => l.id2 ≠ i := by
  unfold findId
  induction links with
  | nil => rfl
  | cons x xs ih =>
    rw [List.pairwise_cons] at h
    by_cases hx : x.id2 = i
    · simpa [removeFirst, hx] using (filter_tail_eq h.1 hx).symm
    · simp only [removeFirst, hx, if_false, ih h.2]
      rw [List.find?_cons_of_neg (by simpa using hx),
        List.filter_cons_of_pos (by simpa using hx), Option.map_map]
      rfl

theorem deleteFrom_eq (h : links.Pairwise fun l l' => l.id2 ≠ l'.id2) (expunge : Bool) :
    deleteFrom i expunge links = (findId i links).map fun _ =>
      if expunge then links.filter fun l => l.id2 ≠ i else links.map (hideAt i) := by
  unfold findId
  induction links with
  | nil => rfl
  | cons x xs ih =>
    rw [List.pairwise_cons] at h
    by_cases hx : x.id2 = i
    · have hmap : xs.map (hideAt i) = xs := by
        refine (List.map_congr_left fun l hl => ?_).trans (List.map_id xs)
        have := h.1 l hl
        simp [hideAt, ← hx, Ne.symm this]
      cases expunge with
      | true => simpa [deleteFrom, hx] using (filter_tail_eq h.1 hx).symm
      | false => simp [deleteFrom, hx, hmap, hideAt]
    · simp only [deleteFrom, hx, if_false, ih h.2]
      rw [List.find?_cons_of_neg (by simpa using hx), Option.map_map]
      cases expunge with
      | true =>
        rw [if_pos rfl, if_pos rfl, List.filter_cons_of_pos (by simpa using hx)]
        rfl
      | false =>
        have hself : hideAt i x = x := by simp [hideAt, hx]
        rw [if_neg (by simp), if_neg (by simp), List.map_cons, hself]
        rfl

theorem findId_filter : findId j (links.filter fun l => l.id2 ≠ i) =
    if j = i then none else findId j links := by
  by_cases hj : j = i
  · rw [if_pos hj, findId_eq_none_iff]
    intro l hl
    rw [hj]
    simpa using (List.mem_filter.mp hl).2
  · rw [if_neg hj]
    unfold findId
    induction links with
    | nil => rfl
    | cons x xs ih =>
      by_cases hx : x.id2 = i
      · have hne : x.id2 ≠ j := fun e => hj (e.symm.trans hx)
        rw [List.filter_cons_of_neg (by simpa using hx), ih,
          List.find?_cons_of_neg (by simpa using hne)]
      · rw [List.filter_cons_of_pos (by simpa using hx), List.find?_cons, List.find?_cons, ih]

theorem findId_map_hideAt : findId j (links.map (hideAt i)) = (findId j links).map (hideAt i) := by
  unfold findId
  induction links with
  | nil => rfl
  | cons x xs ih =>
    rw [List.map_cons, List.find?_cons, List.find?_cons, ih, hideAt_id2]
    cases decide (x.id2 = j) <;> rfl

end

/-! ## The set after a call -/

/-- Inside one set the comparator is the documented order: the `id1` branch is not taken. -/
theorem compare_sorts {l l' : Link} (hid1 : l.id1 = l'.id1) (hne : l.id2 ≠ l'.id2) :
    Sorts compare Newer l l' := by
  unfold Sorts compare Newer
  rw [if_neg (by simpa using hid1)]
  rcases lt_trichotomy l.time l'.time with h | h | h
  · rw [if_pos (by omega), if_pos h]
    omega
  · rw [if_neg (by simpa using h), if_neg hne]
    rcases lt_or_gt_of_ne hne with h' | h'
    · rw [if_pos h']
      omega
    · rw [if_neg (by omega)]
      omega
  · rw [if_pos (by omega), if_neg (by omega)]
    omega

namespace SetOk

variable {key : LinkLookupKey} {links : List Link}

theorem filter (h : SetOk key links) (p : Link → Bool) : SetOk key (links.filter p) :=
  ⟨fun l hl => h.keyed l (List.mem_of_mem_filter hl), h.sorted.filter p, h.ids.filter p⟩

theorem map_hideAt (h : SetOk key links) (i : Int) : SetOk key (links.map (hideAt i)) := by
  refine ⟨fun l hl => ?_, ?_, ?_⟩
  · obtain ⟨l₀, hl₀, rfl⟩ := List.mem_map.mp hl
    rw [hideAt_lookupKey]
    exact h.keyed l₀ hl₀
  · rw [List.pairwise_map]
    exact h.sorted.imp fun {l l'} hl => by simpa [Newer] using hl
  · rw [List.pairwise_map]
    exact h.ids.imp fun {l l'} hl => by simpa using hl

theorem treeAdd (h : SetOk key links) {a : Link} (ha : a.lookupKey = key)
    (hnew : ∀ l ∈ links, l.id2 ≠ a.id2) : SetOk key (treeAdd compare a links) := by
  have hsorts : ∀ l ∈ links, Sorts compare Newer a l := by
    intro l hl
    have hid1 : a.id1 = l.id1 := congrArg LinkLookupKey.id1 (ha.trans (h.keyed l hl).symm)
    exact compare_sorts hid1 (Ne.symm (hnew l hl))
  have hperm := perm_treeAdd fun l hl => (hsorts l hl).ne_zero
  refine ⟨fun l hl => ?_, pairwise_treeAdd hsorts h.sorted, ?_⟩
  · rcases (mem_treeAdd hsorts).mp hl with rfl | hl
    · exact ha
    · exact h.keyed l hl
  · refine (hperm.pairwise_iff fun {l l'} hne => Ne.symm hne).mpr ?_
    exact List.pairwise_cons.mpr ⟨fun l hl => Ne.symm (hnew l hl), h.ids⟩

theorem findId_treeAdd (h : SetOk key links) {a : Link} (ha : a.lookupKey = key)
    (hnew : ∀ l ∈ links, l.id2 ≠ a.id2) (i : Int) :
    findId i (Lib.treeAdd compare a links) = if i = a.id2 then some a else findId i links := by
  have hperm : (Lib.treeAdd compare a links).Perm (a :: links) :=
    perm_treeAdd fun l hl => (compare_sorts
      (congrArg LinkLookupKey.id1 (ha.trans (h.keyed l hl).symm)) (Ne.symm (hnew l hl))).ne_zero
  refine Option.ext fun l => ?_
  rw [findId_eq_some_iff (h.treeAdd ha hnew).ids, hperm.mem_iff, List.mem_cons]
  by_cases hi : i = a.id2
  · rw [if_pos hi, hi]
    constructor
    · rintro ⟨rfl | hl, hid⟩
      · rfl
      · exact absurd hid (hnew l hl)
    · rintro ⟨⟩
      exact ⟨Or.inl rfl, rfl⟩
  · rw [if_neg hi, findId_eq_some_iff h.ids]
    constructor
    · rintro ⟨rfl | hl, hid⟩
      · exact absurd hid.symm hi
      · exact ⟨hl, hid⟩
    · rintro ⟨hl, hid⟩
      exact ⟨Or.inr hl, hid⟩

/-- What `addLink` and `updateLink` leave: the link replaces whatever had its `id2`. -/
theorem replace (h : SetOk key links) {a : Link} (ha : a.lookupKey = key) :
    SetOk key (Lib.treeAdd compare a (links.filter fun l => l.id2 ≠ a.id2)) ∧
      ∀ i, findId i (Lib.treeAdd compare a (links.filter fun l => l.id2 ≠ a.id2)) =
        if i = a.id2 then some a else findId i links := by
  have hnew : ∀ l ∈ links.filter (fun l => l.id2 ≠ a.id2), l.id2 ≠ a.id2 := by
    intro l hl
    simpa using (List.mem_filter.mp hl).2
  have hkept := h.filter fun l => l.id2 ≠ a.id2
  refine ⟨hkept.treeAdd ha hnew, fun i => ?_⟩
  rw [hkept.findId_treeAdd ha hnew, findId_filter]
  by_cases hi : i = a.id2
  · rw [if_pos hi, if_pos hi]
  · rw [if_neg hi, if_neg hi, if_neg hi]

end SetOk

/-! ## The store after a call -/

theorem linksOf_putLinks (dbs : Linkdbs) (dbid dbid' : String) (key key' : LinkLookupKey)
    (links : List Link) :
    linksOf (putLinks dbid key links dbs) dbid' key' =
      if dbid' = dbid ∧ key' = key then links else linksOf dbs dbid' key' := by
  unfold linksOf findLinkByKey putLinks
  rw [Table.lookup_insert_eq]
  by_cases hd : dbid' = dbid
  · subst hd
    rw [if_pos rfl, Option.bind_some, Table.lookup_insert_eq]
    by_cases hk : key' = key
    · rw [if_pos hk, if_pos ⟨rfl, hk⟩]
      rfl
    · rw [if_neg hk, if_neg (by simp [hk])]
      cases dbs.lookup dbid' <;> rfl
  · rw [if_neg hd, if_neg (by simp [hd])]

/-- The refinement: sets in order, each finding what the abstract store has. -/
def Refines (dbs : Linkdbs) (S : String → AbsStore) : Prop :=
  ∀ dbid key, SetOk key (linksOf dbs dbid key) ∧
    ∀ id2, findId id2 (linksOf dbs dbid key) = S dbid ⟨key.id1, key.linkType, id2⟩

theorem refines_empty : Refines ∅ fun _ => AbsStore.empty := by
  intro dbid key
  have hnil : linksOf ∅ dbid key = [] := rfl
  rw [hnil]
  exact ⟨SetOk.nil key, fun _ => rfl⟩

section

variable {dbs : Linkdbs} {S : String → AbsStore} {dbid : String}

/-- One set written back, for one key written in the abstract store. -/
theorem Refines.put (h : Refines dbs S) {k : LinkKey} {o : Option Link} {links : List Link}
    (hset : SetOk k.lookupKey links)
    (hfind : ∀ i, findId i links =
      if i = k.id2 then o else findId i (linksOf dbs dbid k.lookupKey)) :
    Refines (putLinks dbid k.lookupKey links dbs)
      (Function.update S dbid (Function.update (S dbid) k o)) := by
  intro dbid' key
  rw [linksOf_putLinks]
  by_cases hd : dbid' = dbid
  · subst hd
    rw [Function.update_self]
    by_cases hk : key = k.lookupKey
    · -- the set that was written
      subst hk
      rw [if_pos ⟨rfl, rfl⟩]
      refine ⟨hset, fun i => ?_⟩
      rw [hfind i]
      by_cases hi : i = k.id2
      · subst hi
        rw [if_pos rfl]
        exact (Function.update_self k o (S dbid')).symm
      · have hne : (⟨k.lookupKey.id1, k.lookupKey.linkType, i⟩ : LinkKey) ≠ k := by
          intro he
          exact hi (congrArg LinkKey.id2 he)
        rw [if_neg hi, Function.update_of_ne hne]
        exact (h dbid' k.lookupKey).2 i
    · -- another set of the same database: `k` does not belong to it
      rw [if_neg (by simp [hk])]
      refine ⟨(h dbid' key).1, fun i => ?_⟩
      have hne : (⟨key.id1, key.linkType, i⟩ : LinkKey) ≠ k := by
        rintro rfl
        exact hk rfl
      rw [Function.update_of_ne hne]
      exact (h dbid' key).2 i
  · rw [if_neg (by simp [hd]), Function.update_of_ne hd]
    exact h dbid' key

theorem Refines.find (h : Refines dbs S) (k : LinkKey) :
    findId k.id2 (linksOf dbs dbid k.lookupKey) = S dbid k := (h dbid k.lookupKey).2 k.id2

theorem addLink_refines (h : Refines dbs S) (dbid : String) (a : Link) :
    (addLink dbid a dbs).1 = (AbsStore.addLink a (S dbid)).1 ∧
      Refines (addLink dbid a dbs).2
        (Function.update S dbid (AbsStore.addLink a (S dbid)).2) := by
  obtain ⟨hset, hfind⟩ := (h dbid a.lookupKey).1.replace (a := a) rfl
  refine ⟨?_, h.put (k := a.key) hset hfind⟩
  have hany : ((linksOf dbs dbid a.lookupKey).any fun l => l.id2 = a.id2) = (S dbid a.key).isSome :=
    any_eq_isSome_findId.trans (congrArg Option.isSome (h.find a.key))
  have hanswer : (addLink dbid a dbs).1 = !(linksOf dbs dbid a.lookupKey).any fun l => l.id2 = a.id2 :=
    rfl
  rw [hanswer, hany]
  exact Option.not_isSome _

/-- The set the loop of `deleteLink` leaves. -/
theorem deleteFrom_refines (h : Refines dbs S) (dbid : String) (k : LinkKey) (expunge : Bool) :
    (S dbid k = none ∧ deleteFrom k.id2 expunge (linksOf dbs dbid k.lookupKey) = none) ∨
    ∃ l links, S dbid k = some l ∧
      deleteFrom k.id2 expunge (linksOf dbs dbid k.lookupKey) = some links ∧
      SetOk k.lookupKey links ∧ ∀ i, findId i links =
        if i = k.id2 then (if expunge then none else some { l with visibility := visibilityHidden })
        else findId i (linksOf dbs dbid k.lookupKey) := by
  have hset := (h dbid k.lookupKey).1
  rw [deleteFrom_eq hset.ids, h.find]
  cases hk : S dbid k with
  | none => exact Or.inl ⟨rfl, rfl⟩
  | some l =>
    refine Or.inr ⟨l, _, rfl, rfl, ?_⟩
    have hfind : findId k.id2 (linksOf dbs dbid k.lookupKey) = some l := (h.find k).trans hk
    cases expunge with
    | true => exact ⟨hset.filter _, fun i => findId_filter⟩
    | false =>
      refine ⟨hset.map_hideAt k.id2, fun i => ?_⟩
      rw [if_neg (by simp), findId_map_hideAt]
      by_cases hi : i = k.id2
      · have hid : l.id2 = k.id2 := ((findId_eq_some_iff hset.ids).mp hfind).2
        rw [if_pos hi, hi, hfind]
        simp [hideAt, hid]
      · rw [if_neg hi]
        cases hf : findId i (linksOf dbs dbid k.lookupKey) with
        | none => rfl
        | some l' =>
          have hid : l'.id2 = i := ((findId_eq_some_iff hset.ids).mp hf).2
          have hne : l'.id2 ≠ k.id2 := fun e => hi (hid.symm.trans e)
          simp [hideAt, hne]

theorem deleteLink_refines (h : Refines dbs S) (dbid : String) (k : LinkKey) (expunge : Bool) :
    (deleteLink dbid k expunge dbs).1 = (AbsStore.deleteLink k expunge (S dbid)).1 ∧
      Refines (deleteLink dbid k expunge dbs).2
        (Function.update S dbid (AbsStore.deleteLink k expunge (S dbid)).2) := by
  have hsame : Refines dbs (Function.update S dbid (S dbid)) := by
    rw [Function.update_eq_self]
    exact h
  unfold deleteLink
  rcases deleteFrom_refines h dbid k expunge with ⟨hk, hd⟩ | ⟨l, links, hk, hd, hset, hfind⟩
  · have hspec : AbsStore.deleteLink k expunge (S dbid) = (false, S dbid) := by
      simp [AbsStore.deleteLink, hk]
    rw [hspec]
    cases hf : findLinkByKey dbid k.lookupKey dbs with
    | none => exact ⟨rfl, hsame⟩
    | some linkSet =>
      have hlinks : linksOf dbs dbid k.lookupKey = linkSet := by simp [linksOf, hf]
      rw [hlinks] at hd
      simp only [hd]
      exact ⟨trivial, hsame⟩
  · have hspec : AbsStore.deleteLink k expunge (S dbid) =
        (true, Function.update (S dbid) k
          (if expunge then none else some { l with visibility := visibilityHidden })) := by
      simp [AbsStore.deleteLink, hk]
    rw [hspec]
    cases hf : findLinkByKey dbid k.lookupKey dbs with
    | none =>
      have hlinks : linksOf dbs dbid k.lookupKey = [] := by simp [linksOf, hf]
      rw [hlinks] at hd
      cases hd
    | some linkSet =>
      have hlinks : linksOf dbs dbid k.lookupKey = linkSet := by simp [linksOf, hf]
      have hput := h.put hset hfind
      rw [hlinks] at hd
      simp only [hd]
      exact ⟨trivial, hput⟩

/-- `updateLink` does what the contract says to a link that is there, and throws otherwise. -/
theorem updateLink_refines (h : Refines dbs S) (dbid : String) (a : Link) :
    (S dbid a.key = none ∧ updateLink dbid a dbs = .error (linkNotFound a)) ∨
    ∃ dbs', (S dbid a.key).isSome ∧ updateLink dbid a dbs = .ok (true, dbs') ∧
      Refines dbs' (Function.update S dbid (AbsStore.updateLink a (S dbid)).2) := by
  have hset := (h dbid a.lookupKey).1
  have hfirst : (findLinkByKey dbid a.lookupKey dbs).bind (removeFirst a.id2) =
      removeFirst a.id2 (linksOf dbs dbid a.lookupKey) := by
    unfold linksOf
    cases findLinkByKey dbid a.lookupKey dbs <;> rfl
  have hk : findId a.id2 (linksOf dbs dbid a.lookupKey) = S dbid a.key := h.find a.key
  unfold updateLink
  rw [hfirst, removeFirst_eq hset.ids, hk]
  cases S dbid a.key with
  | none => exact Or.inl ⟨rfl, rfl⟩
  | some l =>
    obtain ⟨hset', hfind⟩ := hset.replace (a := a) rfl
    exact Or.inr ⟨_, rfl, rfl, h.put (k := a.key) hset' hfind⟩

/-- **One call.** It throws exactly for `updateLink` of a missing link, and otherwise gives
the documented answer and keeps the refinement. -/
theorem call_refines (h : Refines dbs S) (dbid : String) (op : LinkOp) :
    (∃ l, op = .updateLink l ∧ S dbid l.key = none ∧
      call dbid op dbs = .error (linkNotFound l)) ∨
    ∃ dbs', call dbid op dbs = .ok ((AbsStore.apply op (S dbid)).1, dbs') ∧
      Refines dbs' (Function.update S dbid (AbsStore.apply op (S dbid)).2) := by
  cases op with
  | addLink l =>
    obtain ⟨hb, hr⟩ := addLink_refines h dbid l
    exact Or.inr ⟨(addLink dbid l dbs).2, congrArg Except.ok (Prod.ext hb rfl), hr⟩
  | deleteLink k expunge =>
    obtain ⟨hb, hr⟩ := deleteLink_refines h dbid k expunge
    exact Or.inr ⟨(deleteLink dbid k expunge dbs).2, congrArg Except.ok (Prod.ext hb rfl), hr⟩
  | updateLink l =>
    rcases updateLink_refines h dbid l with ⟨hk, he⟩ | ⟨dbs', hk, he, hr⟩
    · exact Or.inl ⟨l, rfl, hk, he⟩
    · refine Or.inr ⟨dbs', ?_, hr⟩
      -- the link was there, and both sides say so
      have hanswer : (AbsStore.apply (.updateLink l) (S dbid)).1 = true := hk
      rw [hanswer]
      exact he

end

/-! ## The queries as functions of the set -/

section

variable (p : Link → Bool) (offset limit : Int)

/-- Where the second pass stands in the list of matching links: `skipped` are behind, and at
least one more is taken before the limit is looked at. -/
theorem fillPass_eq (links : List Link) (skipped : Int) (res : List Link) :
    fillPass p offset limit links skipped res =
      res ++ ((links.filter p).drop (offset - skipped).toNat).take
        (max 1 (limit - res.length).toNat) := by
  induction links generalizing skipped res with
  | nil => simp [fillPass]
  | cons l ls ih =>
    unfold fillPass
    by_cases hp : p l
    · rw [if_pos hp, List.filter_cons_of_pos hp]
      by_cases hs : skipped < offset
      · have hdrop : (offset - skipped).toNat = (offset - (skipped + 1)).toNat + 1 := by omega
        rw [if_pos hs, ih, hdrop, List.drop_succ_cons]
      · have hdrop : (offset - skipped).toNat = 0 := by omega
        have hlen : ((res ++ [l]).length : Int) = res.length + 1 := by simp
        rw [if_neg hs, hdrop, List.drop_zero, hlen]
        by_cases hl : (res.length : Int) + 1 ≥ limit
        · have htake : max 1 (limit - res.length).toNat = 1 := by omega
          rw [if_pos hl, htake]
          rfl
        · have htake : max 1 (limit - res.length).toNat =
              max 1 (limit - (res.length + 1)).toNat + 1 := by omega
          rw [if_neg hl, ih, hdrop, List.drop_zero, htake, List.take_succ_cons, hlen,
            List.append_assoc]
          rfl
    · rw [if_neg hp, List.filter_cons_of_neg hp, ih]

/-- The two passes go on and stop at the same links. -/
theorem length_fillPass_eq (links : List Link) (skipped : Int) (res : List Link) :
    ((fillPass p offset limit links skipped res).length : Int) =
      countPass p offset limit links skipped res.length := by
  induction links generalizing skipped res with
  | nil => rfl
  | cons l ls ih =>
    have hlen : ((res ++ [l]).length : Int) = res.length + 1 := by simp
    rw [fillPass, countPass, hlen]
    split
    · split
      · exact ih (skipped + 1) res
      · split
        · exact hlen
        · rw [ih skipped (res ++ [l]), hlen]
    · exact ih skipped res

/-- **The array of `getLinkList` is filled exactly**: the second pass writes as many cells as
the first one counted. -/
theorem length_fillPass (links : List Link) :
    ((fillPass p offset limit links 0 []).length : Int) = countPass p offset limit links 0 0 :=
  length_fillPass_eq p offset limit links 0 []

end

/-- `getLinkList` is a page of the matching links, of one link at least. -/
theorem getLinkList_eq (dbs : Linkdbs) (dbid : String) (id1 linkType minT maxT : Int)
    (offset limit : Nat) :
    getLinkList dbid id1 linkType minT maxT offset limit dbs =
      page offset (max 1 limit)
        ((linksOf dbs dbid ⟨id1, linkType⟩).filter (inTimeRange minT maxT)) := by
  unfold getLinkList linksOf page
  cases findLinkByKey dbid ⟨id1, linkType⟩ dbs with
  | none => simp
  | some linkSet =>
    simp only [Option.getD_some]
    have hfill := fillPass_eq (inTimeRange minT maxT) offset limit linkSet 0 []
    have hlen := length_fillPass (inTimeRange minT maxT) offset limit linkSet
    simp only [List.nil_append, List.length_nil, sub_zero, Int.toNat_natCast, Nat.cast_zero]
      at hfill
    rw [hfill] at hlen ⊢
    by_cases he : linkSet.length = 0
    · rw [List.length_eq_zero_iff.mp he]
      simp
    · rw [if_neg he, ← hlen]
      simp only [Nat.cast_eq_zero, List.length_eq_zero_iff]

theorem countLinks_eq (dbs : Linkdbs) (dbid : String) (id1 linkType : Int) :
    countLinks dbid id1 linkType dbs =
      wrap32 ((linksOf dbs dbid ⟨id1, linkType⟩).filter
        fun l => l.visibility = visibilityDefault).length := by
  have hloop : ∀ (links : List Link) (n : Int), wrap32 n = n →
      links.foldl (fun visible l =>
        if l.visibility = visibilityDefault then wrap32 (visible + 1) else visible) n =
      wrap32 (n + (links.filter fun l => l.visibility = visibilityDefault).length) := by
    intro links
    induction links with
    | nil =>
      intro n hn
      simpa using hn.symm
    | cons l ls ih =>
      intro n hn
      by_cases hv : l.visibility = visibilityDefault
      · have hwrapped : wrap32 (wrap32 (n + 1)) = wrap32 (n + 1) :=
          wrap_eq_self (le_wrap 31 _) (wrap_lt 31 _)
        have hadd : ∀ m : Int, wrap32 (wrap32 (n + 1) + m) = wrap32 (n + 1 + m) := wrap_add_wrap
        rw [List.foldl_cons, if_pos hv, ih _ hwrapped, hadd,
          List.filter_cons_of_pos (by simpa using hv), List.length_cons]
        congr 1
        push_cast
        omega
      · rw [List.foldl_cons, if_neg hv, ih n hn, List.filter_cons_of_neg (by simpa using hv)]
  unfold countLinks linksOf
  cases findLinkByKey dbid ⟨id1, linkType⟩ dbs with
  | none => rfl
  | some linkSet => simpa using hloop linkSet 0 (by decide)

/-! ## What a query gets -/

/-- The queries of the interface, with the offsets and limits a caller may give. -/
inductive Query where
  | getLink (k : LinkKey)
  | countLinks (id1 linkType : Int)
  | getLinkList (id1 linkType minTimestamp maxTimestamp : Int) (offset limit : Nat)

/-- The store answers the query as the contract does. -/
def Query.Right (dbs : Linkdbs) (dbid : String) (S : AbsStore) : Query → Prop
  | .getLink k => Memory.getLink dbid k dbs = S k
  | .countLinks id1 linkType =>
    Memory.countLinks dbid id1 linkType dbs = (S.visible id1 linkType).ncard
  | .getLinkList id1 linkType minT maxT offset limit =>
    ∃ L, Listing S id1 linkType minT maxT L ∧
      Memory.getLinkList dbid id1 linkType minT maxT offset limit dbs = page offset limit L

/-- The queries the store gets right: the page asked for is not the empty page in front of
links that are there, and the count fits an `int`. -/
def Query.Answerable (S : AbsStore) : Query → Prop
  | .getLink _ => True
  | .countLinks id1 linkType => (S.visible id1 linkType).ncard < 2 ^ 31
  | .getLinkList id1 linkType minT maxT offset limit =>
    limit ≠ 0 ∨ (S.inRange id1 linkType minT maxT).ncard ≤ offset

/-- At most one link per `(dbid, id1, link_type, id2)`. -/
def OneLinkPerKey (dbs : Linkdbs) (dbid : String) : Prop :=
  ∀ key, (∀ l ∈ linksOf dbs dbid key, l.lookupKey = key) ∧
    (linksOf dbs dbid key).Pairwise fun l l' => l.id2 ≠ l'.id2

section

variable {dbs : Linkdbs} {S : String → AbsStore} {dbid : String}

theorem Refines.mem_linksOf (h : Refines dbs S) {id1 linkType : Int} {l : Link} :
    l ∈ linksOf dbs dbid ⟨id1, linkType⟩ ↔
      S dbid l.key = some l ∧ l.id1 = id1 ∧ l.linkType = linkType := by
  obtain ⟨hset, hfind⟩ := h dbid ⟨id1, linkType⟩
  constructor
  · intro hl
    have hkey : l.lookupKey = ⟨id1, linkType⟩ := hset.keyed l hl
    have hid1 : l.id1 = id1 := congrArg LinkLookupKey.id1 hkey
    have htype : l.linkType = linkType := congrArg LinkLookupKey.linkType hkey
    refine ⟨?_, hid1, htype⟩
    have hfound := (findId_eq_some_iff hset.ids).mpr ⟨hl, rfl⟩
    rw [hfind l.id2, ← hid1, ← htype] at hfound
    exact hfound
  · rintro ⟨hl, rfl, rfl⟩
    exact ((findId_eq_some_iff hset.ids).mp ((hfind l.id2).trans hl)).1

theorem Refines.listing (h : Refines dbs S) (dbid : String) (id1 linkType minT maxT : Int) :
    Listing (S dbid) id1 linkType minT maxT
      ((linksOf dbs dbid ⟨id1, linkType⟩).filter (inTimeRange minT maxT)) := by
  refine ⟨(h dbid ⟨id1, linkType⟩).1.sorted.filter _, fun l => ?_⟩
  rw [List.mem_filter, h.mem_linksOf]
  simp only [inTimeRange, inRange, AbsStore.visible, Set.mem_ofPred_eq, decide_eq_true_eq]
  tauto

/-- A page of one link at least is the page asked for, unless that is empty and the other is
not. -/
theorem page_max_one_iff (offset limit : Nat) (L : List Link) :
    page offset (max 1 limit) L = page offset limit L ↔ limit ≠ 0 ∨ L.length ≤ offset := by
  by_cases hl : limit = 0
  · subst hl
    by_cases ho : L.length ≤ offset
    · simp [page, List.drop_eq_nil_of_le ho, ho]
    · have hne : L.drop offset ≠ [] := by simpa using ho
      simp [page, ho]
  · have hmax : max 1 limit = limit := by omega
    simp [hmax, hl]

theorem Refines.right_iff (h : Refines dbs S) (q : Query) :
    q.Right dbs dbid (S dbid) ↔ q.Answerable (S dbid) := by
  cases q with
  | getLink k =>
    have hfind : Memory.getLink dbid k dbs = findId k.id2 (linksOf dbs dbid k.lookupKey) := by
      unfold Memory.getLink linksOf findId
      cases findLinkByKey dbid k.lookupKey dbs <;> rfl
    exact iff_of_true (hfind.trans (h.find k)) trivial
  | countLinks id1 linkType =>
    have hset := (h dbid ⟨id1, linkType⟩).1
    have hcard : ((S dbid).visible id1 linkType).ncard =
        ((linksOf dbs dbid ⟨id1, linkType⟩).filter
          fun l => l.visibility = visibilityDefault).length := by
      refine ncard_eq_length (nodup_of_newer (hset.sorted.filter _)) fun l => ?_
      rw [List.mem_filter, h.mem_linksOf]
      simp only [AbsStore.visible, Set.mem_ofPred_eq, decide_eq_true_eq]
      tauto
    simp only [Query.Right, Query.Answerable]
    rw [countLinks_eq, ← hcard]
    have hwrap := wrap_eq_self_iff (w := 31) (x := (((S dbid).visible id1 linkType).ncard : Int))
    refine hwrap.trans ?_
    omega
  | getLinkList id1 linkType minT maxT offset limit =>
    have hlist := h.listing dbid id1 linkType minT maxT
    simp only [Query.Right, Query.Answerable]
    rw [hlist.length_eq, ← page_max_one_iff, getLinkList_eq]
    constructor
    · rintro ⟨L, hL, he⟩
      rw [hL.unique hlist] at he
      exact he
    · exact fun he => ⟨_, hlist, he⟩

end

/-! ## Runs -/

/-- A call on one of the databases; a call that throws has no next state. -/
def callStep (x : String × LinkOp) (dbs : Linkdbs) : Option Linkdbs :=
  match call x.1 x.2 dbs with
  | .ok r => some r.2
  | .error _ => none

/-- The contract, call by call. -/
def specStep (S : String → AbsStore) (x : String × LinkOp) : String → AbsStore :=
  Function.update S x.1 (AbsStore.apply x.2 (S x.1)).2

/-- What the contract says is stored after the calls. -/
def stored (ops : List (String × LinkOp)) : String → AbsStore :=
  ops.foldl specStep fun _ => AbsStore.empty

theorem callStep_refines {dbs dbs' : Linkdbs} {S : String → AbsStore} {x : String × LinkOp}
    (h : Refines dbs S) (hstep : callStep x dbs = some dbs') : Refines dbs' (specStep S x) := by
  unfold callStep at hstep
  rcases call_refines h x.1 x.2 with ⟨l, -, -, he⟩ | ⟨dbs₁, he, hr⟩
  · rw [he] at hstep
    cases hstep
  · rw [he] at hstep
    cases hstep
    exact hr

theorem run_refines {dbs dbs' : Linkdbs} {S : String → AbsStore} {ops : List (String × LinkOp)}
    (h : Refines dbs S) (hrun : run callStep ops dbs = some dbs') :
    Refines dbs' (ops.foldl specStep S) :=
  run_simulates callStep_refines h hrun

/-- Every link is stored under its own key, so the queries of the contract leave none out. -/
theorem stored_keyed (ops : List (String × LinkOp)) (dbid : String) :
    AbsStore.Keyed (stored ops dbid) := by
  unfold stored
  induction ops using List.reverseRecOn with
  | nil => exact AbsStore.keyed_empty
  | append_singleton ops x ih =>
    rw [List.foldl_append, List.foldl_cons, List.foldl_nil, specStep]
    by_cases hd : dbid = x.1
    · subst hd
      rw [Function.update_self]
      exact ih.apply x.2
    · rw [Function.update_of_ne hd]
      exact ih

/-- **The store answers queries by the contract**, after any calls that did not throw: it
holds one link per key, and it gets a query right exactly when that does not ask for an empty
page where links are left, and does not count past an `int`. -/
theorem memory_query_right_iff (ops : List (String × LinkOp)) {dbs : Linkdbs}
    (hrun : run callStep ops ∅ = some dbs) (dbid : String) (q : Query) :
    (OneLinkPerKey dbs dbid ∧ q.Right dbs dbid (stored ops dbid)) ↔
      q.Answerable (stored ops dbid) := by
  have href := run_refines refines_empty hrun
  have hone : OneLinkPerKey dbs dbid := fun key =>
    ⟨(href dbid key).1.keyed, (href dbid key).1.ids⟩
  exact (and_iff_right hone).trans (href.right_iff q)

theorem memory_query_right_addLink :
    (OneLinkPerKey (addLink "linkdb" ⟨1, 2, 3, visibilityDefault, [], 0, 7⟩ ∅).2 "linkdb" ∧
        (Query.getLinkList 1 2 0 100 0 10).Right
          (addLink "linkdb" ⟨1, 2, 3, visibilityDefault, [], 0, 7⟩ ∅).2 "linkdb"
          (stored [("linkdb", .addLink ⟨1, 2, 3, visibilityDefault, [], 0, 7⟩)] "linkdb")) ↔
      (Query.getLinkList 1 2 0 100 0 10).Answerable
        (stored [("linkdb", .addLink ⟨1, 2, 3, visibilityDefault, [], 0, 7⟩)] "linkdb") :=
  memory_query_right_iff
    [("linkdb", .addLink ⟨1, 2, 3, visibilityDefault, [], 0, 7⟩)] rfl "linkdb"
    (.getLinkList 1 2 0 100 0 10)

/-- One visible link, and a limit of zero: the link is returned where the page is empty. -/
theorem getLinkList_limit_zero :
    ∃ dbs, run callStep [("linkdb", .addLink ⟨1, 2, 3, visibilityDefault, [], 0, 7⟩)] ∅ = some dbs ∧
      getLinkList "linkdb" 1 2 0 100 0 0 dbs = some [⟨1, 2, 3, visibilityDefault, [], 0, 7⟩] ∧
      ¬ (Query.getLinkList 1 2 0 100 0 0).Right dbs "linkdb"
        (stored [("linkdb", .addLink ⟨1, 2, 3, visibilityDefault, [], 0, 7⟩)] "linkdb") := by
  have hlist : getLinkList "linkdb" 1 2 0 100 0 0
      (addLink "linkdb" ⟨1, 2, 3, visibilityDefault, [], 0, 7⟩ ∅).2 =
        some [⟨1, 2, 3, visibilityDefault, [], 0, 7⟩] := by decide
  refine ⟨_, rfl, hlist, ?_⟩
  rintro ⟨L, -, he⟩
  have hpage : page 0 0 L = none := by simp [page]
  have hsome := hlist.symm.trans (he.trans hpage)
  cases hsome

end TokuQa.LinkBench.Memory
