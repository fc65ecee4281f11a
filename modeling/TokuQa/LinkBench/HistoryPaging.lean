import TokuQa.Lib.Paging
import TokuQa.LinkBench.History
import TokuQa.LinkBench.MemoryRefine

/-!
# Reading a link list page by page

A requester that got a full page of a list asks, later on, for "links past the oldest last
retrieved": those whose time is at most the time of the last link it got, without the first of
them. The link left out is meant to be the one it has, and is some other link with the same
time whenever the page broke off inside a group of equal times. `readAll_eq_visible_iff` says
when reading a list from its first page to its last gives the list.

Both queries start at time 0, and `Link.time` "can be used as a arbitrary user-defined sort
key", so a link with a negative time is on no page at all.
-/

set_option autoImplicit false

namespace TokuQa.LinkBench

open TokuQa.Lib Memory

/-- `Long.MAX_VALUE`. -/
def longMax : Int := 2 ^ 63 - 1

namespace HistoryPaging

section

variable (ea : Bool) (dbid : String) (rangeLimit : Nat) (dbs : Linkdbs) (key : HistoryKey)

/-- What `MemoryLinkStore` answers to `getLinkList(dbid, id1, link_type)`. -/
def newest : StoreResult :=
  .returns (Memory.getLinkList dbid key.id1 key.linkType 0 longMax 0 rangeLimit dbs)

/-- What it answers to the query of `getLinkListTail`. -/
def older (prevLast : Link) : StoreResult :=
  .returns (Memory.getLinkList dbid prevLast.id1 prevLast.linkType 0 prevLast.time 1 rangeLimit dbs)

/-- `getLinkListTail` on the entry of the list, again and again until the entry is gone; `none`
when it is still there after `fuel` calls. -/
def readTail : Nat → History → Option (List Link)
  | 0, _ => none
  | fuel + 1, h =>
    match h.listTailHistory.findIdx? fun l => HistoryKey.ofLink l = key with
    | none => some []
    | some choice =>
      (h.getLinkListTail ea rangeLimit choice (older dbid rangeLimit dbs)).bind fun r =>
        (readTail fuel r.2).map (r.1.getD [] ++ ·)

/-- `getLinkList` and then the tail: all links the calls return, in their order. -/
def readAll (choice fuel : Nat) (h : History) : Option (List Link) :=
  (h.getLinkList rangeLimit choice (newest dbid rangeLimit dbs key)).bind fun r =>
    (readTail ea dbid rangeLimit dbs key fuel r.2).map (r.1.getD [] ++ ·)

/-- The visible links of the list, in the order of the set. -/
def visible : List Link :=
  (linksOf dbs dbid ⟨key.id1, key.linkType⟩).filter fun l => l.visibility = visibilityDefault

/-- What a query without a limit returns. -/
def listed : List Link :=
  (linksOf dbs dbid ⟨key.id1, key.linkType⟩).filter (inTimeRange 0 longMax)

end

/-! ## The entry of a list -/

/-- The cache has one entry for the list, at `p`, and the index knows the list. -/
structure EntryAt (key : HistoryKey) (p : Nat) (l : Link) (h : History) : Prop where
  entry : h.listTailHistory[p]? = some l
  ofList : HistoryKey.ofLink l = key
  only : ∀ i l', h.listTailHistory[i]? = some l' → HistoryKey.ofLink l' = key → i = p
  known : h.listTailHistoryIndex.lookup key ≠ none

/-- The cache has no entry for the list. -/
def NoEntry (key : HistoryKey) (h : History) : Prop :=
  ∀ l ∈ h.listTailHistory, HistoryKey.ofLink l ≠ key

section

variable {key : HistoryKey} {p : Nat} {l : Link} {h : History}

theorem EntryAt.findIdx?_eq (he : EntryAt key p l h) :
    (h.listTailHistory.findIdx? fun l => HistoryKey.ofLink l = key) = some p := by
  rw [List.findIdx?_eq_some_iff_getElem]
  obtain ⟨hlt, hget⟩ := List.getElem?_eq_some_iff.mp he.entry
  refine ⟨hlt, ?_, ?_⟩
  · rw [hget]
    exact decide_eq_true he.ofList
  · intro i hi hkey
    have hi' : i < h.listTailHistory.length := Nat.lt_trans hi hlt
    have := he.only i _ (List.getElem?_eq_getElem hi') (of_decide_eq_true hkey)
    omega

theorem NoEntry.findIdx?_eq (hno : NoEntry key h) :
    (h.listTailHistory.findIdx? fun l => HistoryKey.ofLink l = key) = none := by
  rw [List.findIdx?_eq_none_iff]
  intro l hl
  exact decide_eq_false (hno l hl)

/-- The entry overwritten by a link of the same list. -/
theorem EntryAt.set (he : EntryAt key p l h) {last : Link} (hlast : HistoryKey.ofLink last = key)
    (n : Int) : EntryAt key p last ⟨h.listTailHistory.set p last, h.listTailHistoryIndex, n⟩ := by
  have hlt := (List.getElem?_eq_some_iff.mp he.entry).1
  refine ⟨List.getElem?_set_self hlt, hlast, ?_, he.known⟩
  intro i l' hl' hkey
  by_contra hne
  rw [List.getElem?_set_ne (Ne.symm hne)] at hl'
  exact hne (he.only i l' hl' hkey)

/-- The entry removed: the list has none any more. -/
theorem EntryAt.remove (he : EntryAt key p l h) :
    ∃ h', h.removeTailCacheEntry p none = some h' ∧ NoEntry key h' := by
  have hlt := (List.getElem?_eq_some_iff.mp he.entry).1
  -- what is in front of the last entry, and not at `p`, belongs to other lists
  have hother : ∀ i l', h.listTailHistory.dropLast[i]? = some l' → i ≠ p →
      HistoryKey.ofLink l' ≠ key := by
    intro i l' hl' hne hkey
    rw [List.getElem?_dropLast] at hl'
    split at hl'
    · exact hne (he.only i l' hl' hkey)
    · cases hl'
  unfold History.removeTailCacheEntry
  rw [he.entry]
  by_cases hlast : p = h.listTailHistory.length - 1
  · simp only [hlast, if_true]
    refine ⟨_, rfl, fun l' hl' => ?_⟩
    obtain ⟨i, hi⟩ := List.mem_iff_getElem?.mp hl'
    refine hother i l' hi ?_
    have hilt := (List.getElem?_eq_some_iff.mp hi).1
    rw [List.length_dropLast] at hilt
    omega
  · simp only [hlast, if_false]
    refine ⟨_, rfl, fun l' hl' => ?_⟩
    obtain ⟨i, hi⟩ := List.mem_iff_getElem?.mp hl'
    by_cases hip : i = p
    · -- the former last entry
      subst hip
      have hlt' : i < h.listTailHistory.dropLast.length := by
        rw [List.length_dropLast]
        omega
      rw [List.getElem?_set_self hlt'] at hi
      cases hi
      intro hkey
      exact hlast (he.only _ _ (History.getElem?_getLastD he.entry) hkey).symm
    · rw [List.getElem?_set_ne (Ne.symm hip)] at hi
      exact hother i l' hi hip

/-- The entry a first page leaves. -/
theorem NoEntry.add (hno : NoEntry key h) (hnew : h.listTailHistoryIndex.lookup key = none)
    {choice : Nat}
    (hchoice : h.listTailHistory.length < listTailHistoryLimit ∨
      choice < h.listTailHistory.length) (hl : HistoryKey.ofLink l = key) :
    ∃ p h', h.addTailCacheEntry l choice = some h' ∧ EntryAt key p l h' := by
  -- an entry put into the place of another, or at the end
  have hset : ∀ {q : Nat} {index : Table HistoryKey Nat}, q < h.listTailHistory.length →
      EntryAt key q l
        ⟨h.listTailHistory.set q l, index.insert key q, h.numHistoryQueries⟩ := by
    intro q index hq
    refine ⟨List.getElem?_set_self hq, hl, ?_, by simp⟩
    intro i l' hl' hkey
    by_contra hne
    rw [List.getElem?_set_ne (Ne.symm hne)] at hl'
    exact hno l' (List.mem_of_getElem? hl') hkey
  unfold History.addTailCacheEntry
  rw [hl, hnew]
  simp only [Option.isSome_none, Bool.false_eq_true, if_false]
  by_cases hroom : h.listTailHistory.length < listTailHistoryLimit
  · rw [if_pos hroom]
    refine ⟨h.listTailHistory.length, _, rfl, by simp, hl, ?_, by simp⟩
    intro i l' hl' hkey
    by_contra hne
    have hi : i < h.listTailHistory.length := by
      have := (List.getElem?_eq_some_iff.mp hl').1
      simp only [List.length_append, List.length_singleton] at this
      omega
    simp only [List.getElem?_append_left hi] at hl'
    exact hno l' (List.mem_of_getElem? hl') hkey
  · rw [if_neg hroom]
    have hlt : choice < h.listTailHistory.length := hchoice.resolve_left hroom
    unfold History.removeTailCacheEntry
    rw [List.getElem?_eq_getElem hlt]
    simp only [hl]
    by_cases hlast : choice = h.listTailHistory.length - 1
    · rw [if_pos hlast]
      exact ⟨_, _, rfl, hset (by omega)⟩
    · rw [if_neg hlast]
      exact ⟨_, _, rfl, hset hlt⟩

end

/-! ## The queries -/

section

open AbsStore

/-! A page as the requester looks at it. -/

variable {offset limit : Nat} {links : List Link}

theorem getD_page : (page offset limit links).getD [] = (links.drop offset).take limit := by
  unfold page
  split
  · rename_i hnil
    exact hnil.symm
  · rfl

theorem getLast?_page :
    (page offset limit links).bind List.getLast? = ((links.drop offset).take limit).getLast? := by
  unfold page
  split
  · rename_i hnil
    rw [hnil]
    rfl
  · rfl

theorem fullPage_page (hlimit : 0 < limit) :
    fullPage limit (page offset limit links) = true ↔
      ((links.drop offset).take limit).length = limit := by
  unfold fullPage page
  split
  · rename_i hnil
    rw [hnil]
    simp only [Option.any_none, Bool.false_eq_true, List.length_nil, false_iff]
    omega
  · simp

theorem maybeMore_page (hlimit : 0 < limit) :
    maybeMore limit (page offset limit links) = true ↔
      ((links.drop offset).take limit).length = limit := by
  have hle : ((links.drop offset).take limit).length ≤ limit := List.length_take_le _ _
  unfold maybeMore page
  split
  · rename_i hnil
    rw [hnil]
    simp only [Option.any_none, Bool.false_eq_true, List.length_nil, false_iff]
    omega
  · simp only [Option.any_some, decide_eq_true_eq]
    omega

end

section

variable {dbid : String} {rangeLimit : Nat} {dbs : Linkdbs} {key : HistoryKey}

theorem newest_eq (hlimit : 0 < rangeLimit) :
    newest dbid rangeLimit dbs key =
      .returns (AbsStore.page 0 rangeLimit (listed dbid dbs key)) := by
  have hmax : max 1 rangeLimit = rangeLimit := by omega
  have hquery := getLinkList_eq dbs dbid key.id1 key.linkType 0 longMax 0 rangeLimit
  rw [hmax] at hquery
  exact congrArg StoreResult.returns hquery

/-- The links up to a time, out of those a query without a limit returns. -/
theorem filter_listed {t : Int} (ht : t ≤ longMax) :
    (listed dbid dbs key).filter (fun l => l.time ≤ t) =
      (linksOf dbs dbid ⟨key.id1, key.linkType⟩).filter (inTimeRange 0 t) := by
  rw [listed, List.filter_filter]
  refine List.filter_congr fun l _ => ?_
  rw [Bool.eq_iff_iff]
  simp only [inTimeRange, Bool.and_eq_true, decide_eq_true_eq]
  constructor
  · rintro ⟨hle, hvis, hlow, _⟩
    exact ⟨hvis, hlow, hle⟩
  · rintro ⟨hvis, hlow, hle⟩
    exact ⟨hle, hvis, hlow, hle.trans ht⟩

section

variable (hset : SetOk ⟨key.id1, key.linkType⟩ (linksOf dbs dbid ⟨key.id1, key.linkType⟩))

include hset

theorem ofLink_of_listed {l : Link} (hl : l ∈ listed dbid dbs key) : HistoryKey.ofLink l = key := by
  have hkeyed := hset.keyed l (List.mem_filter.mp hl).1
  cases key
  cases hkeyed
  rfl

theorem older_eq (hlimit : 0 < rangeLimit) {l : Link} (hl : l ∈ listed dbid dbs key) :
    older dbid rangeLimit dbs l =
      .returns (AbsStore.page 1 rangeLimit
        ((listed dbid dbs key).filter fun l' => l'.time ≤ l.time)) := by
  have hmax : max 1 rangeLimit = rangeLimit := by omega
  have hkey := ofLink_of_listed hset hl
  have htime : l.time ≤ longMax := by
    have hrange := (List.mem_filter.mp hl).2
    simp only [inTimeRange, decide_eq_true_eq] at hrange
    exact hrange.2.2
  have hquery := getLinkList_eq dbs dbid key.id1 key.linkType 0 l.time 1 rangeLimit
  rw [hmax, ← filter_listed htime, ← hkey] at hquery
  rw [← hkey]
  exact congrArg StoreResult.returns hquery

/-- **The tail of a list is paged by time**: the calls of `getLinkListTail` on its entry return
the pages that follow the time of the link in it. -/
theorem readTail_eq_pages (ea : Bool) (hlimit : 0 < rangeLimit) {p : Nat} {l : Link} {h : History}
    (he : EntryAt key p l h) (hl : l ∈ listed dbid dbs key) (fuel : Nat) :
    readTail ea dbid rangeLimit dbs key (fuel + 1) h =
      Paging.pages Link.time rangeLimit (listed dbid dbs key) fuel l.time := by
  induction fuel generalizing l h with
  | zero =>
    rw [readTail, he.findIdx?_eq]
    simp [readTail, Paging.pages]
  | succ fuel ih =>
    have hassert : ¬ (ea = true ∧ (h.listTailHistoryIndex = ∅ ∨ h.listTailHistory = [])) := by
      rintro ⟨-, hindex | hnil⟩
      · exact he.known (by rw [hindex, Finmap.lookup_empty])
      · have hentry := he.entry
        rw [hnil] at hentry
        cases hentry
    have hfull : fullPage rangeLimit
          (AbsStore.page 1 rangeLimit ((listed dbid dbs key).filter fun l' => l'.time ≤ l.time)) = true ↔
        ((((listed dbid dbs key).filter fun l' => l'.time ≤ l.time).drop 1).take
          rangeLimit).length = rangeLimit := fullPage_page hlimit
    have hafter : (((listed dbid dbs key).filter fun l' => l'.time ≤ l.time).drop 1).take
        rangeLimit = Paging.after Link.time rangeLimit (listed dbid dbs key) l.time := rfl
    rw [hafter] at hfull
    rw [readTail, he.findIdx?_eq, Paging.pages]
    simp only [History.getLinkListTail, if_neg hassert, he.entry, older_eq hset hlimit hl,
      getLast?_page, hafter]
    by_cases hpage : (Paging.after Link.time rangeLimit (listed dbid dbs key) l.time).length =
        rangeLimit
    · rw [if_pos (hfull.mpr hpage), if_pos hpage]
      cases hlast : (Paging.after Link.time rangeLimit (listed dbid dbs key) l.time).getLast? with
      | none => rfl
      | some last =>
        have hmem := Paging.after_subset (List.mem_of_getLast? hlast)
        have hnext := ih (he.set (ofLink_of_listed hset hmem) (wrap64 (h.numHistoryQueries + 1))) hmem
        simp only [Option.map_some, Option.bind_some, getD_page, hafter, hnext]
    · rw [if_neg (fun hf => hpage (hfull.mp hf)), if_neg hpage]
      obtain ⟨h', hremove, hgone⟩ := he.remove
      have hend : NoEntry key { h' with
          numHistoryQueries := wrap64 (h'.numHistoryQueries + 1) } := hgone
      simp only [hremove, Option.map_some, Option.bind_some, getD_page, hafter, readTail,
        hend.findIdx?_eq, List.append_nil]

/-! ## All calls together -/

omit hset in
/-- A list that does not fill the first page: there is no second call. -/
theorem readAll_of_short (ea : Bool) (hlimit : 0 < rangeLimit) {h : History} (hno : NoEntry key h)
    (choice : Nat) (hshort : (listed dbid dbs key).length < rangeLimit) {out : List Link} :
    (∃ fuel, readAll ea dbid rangeLimit dbs key choice fuel h = some out) ↔
      out = listed dbid dbs key := by
  have htake : ((listed dbid dbs key).drop 0).take rangeLimit = listed dbid dbs key :=
    List.take_of_length_le hshort.le
  have hmore : ¬ maybeMore rangeLimit (AbsStore.page 0 rangeLimit (listed dbid dbs key)) = true := by
    rw [maybeMore_page hlimit, htake]
    omega
  have hread : ∀ fuel, readAll ea dbid rangeLimit dbs key choice fuel h =
      (readTail ea dbid rangeLimit dbs key fuel h).map (listed dbid dbs key ++ ·) := by
    intro fuel
    rw [readAll, newest_eq hlimit, History.getLinkList, if_neg hmore, Option.bind_some, getD_page,
      htake]
  constructor
  · rintro ⟨fuel, hout⟩
    cases fuel with
    | zero =>
      rw [hread] at hout
      cases hout
    | succ fuel =>
      rw [hread, readTail, hno.findIdx?_eq, Option.map_some, List.append_nil] at hout
      exact (Option.some.inj hout).symm
  · intro hout
    refine ⟨1, ?_⟩
    rw [hread, readTail, hno.findIdx?_eq, Option.map_some, List.append_nil, hout]

/-- A list that does: the first page, and the pages after its last link. -/
theorem readAll_of_full (ea : Bool) (hlimit : 0 < rangeLimit) {h : History} (hno : NoEntry key h)
    (hnew : h.listTailHistoryIndex.lookup key = none) {choice : Nat}
    (hchoice : h.listTailHistory.length < listTailHistoryLimit ∨
      choice < h.listTailHistory.length) {last : Link}
    (hlast : (listed dbid dbs key)[rangeLimit - 1]? = some last) {out : List Link} :
    (∃ fuel, readAll ea dbid rangeLimit dbs key choice fuel h = some out) ↔
      ∃ fuel rest, Paging.pages Link.time rangeLimit (listed dbid dbs key) fuel last.time =
        some rest ∧ (listed dbid dbs key).take rangeLimit ++ rest = out := by
  have hlen : rangeLimit - 1 < (listed dbid dbs key).length :=
    (List.getElem?_eq_some_iff.mp hlast).1
  have hmem := List.mem_of_getElem? hlast
  obtain ⟨p, h', hadd, he⟩ := hno.add hnew hchoice (ofLink_of_listed hset hmem)
  have hpage : ((listed dbid dbs key).drop 0).take rangeLimit =
      (listed dbid dbs key).take rangeLimit := rfl
  have hmore : maybeMore rangeLimit (AbsStore.page 0 rangeLimit (listed dbid dbs key)) = true := by
    rw [maybeMore_page hlimit, hpage, List.length_take]
    omega
  have hend : ((listed dbid dbs key).take rangeLimit).getLast? = some last := by
    rw [List.getLast?_eq_getElem?, List.length_take, ← hlast, List.getElem?_take_of_lt (by omega)]
    congr 1
    omega
  have hread : ∀ fuel, readAll ea dbid rangeLimit dbs key choice fuel h =
      (readTail ea dbid rangeLimit dbs key fuel h').map
        ((listed dbid dbs key).take rangeLimit ++ ·) := by
    intro fuel
    rw [readAll, newest_eq hlimit, History.getLinkList, if_pos hmore, getLast?_page, hpage, hend,
      Option.bind_some, hadd, Option.map_some, Option.bind_some, getD_page, hpage]
  constructor
  · rintro ⟨fuel, hout⟩
    cases fuel with
    | zero =>
      rw [hread] at hout
      cases hout
    | succ fuel =>
      rw [hread, readTail_eq_pages hset ea hlimit he hmem] at hout
      obtain ⟨rest, hrest, hsplit⟩ := Option.map_eq_some_iff.mp hout
      exact ⟨fuel, rest, hrest, hsplit⟩
  · rintro ⟨fuel, rest, hrest, hsplit⟩
    refine ⟨fuel + 1, ?_⟩
    rw [hread, readTail_eq_pages hset ea hlimit he hmem]
    exact Option.map_eq_some_iff.mpr ⟨rest, hrest, hsplit⟩

end

/-- Every link a page of the list can end with is the first one with its time. -/
def PagesEndFirst (rangeLimit : Nat) (links : List Link) : Prop :=
  ∀ k, 0 < k → Paging.FirstWithKey Link.time links (k * rangeLimit - 1)

theorem pagesEndFirst_iff {rangeLimit : Nat} (hlimit : 0 < rangeLimit) {links : List Link} :
    PagesEndFirst rangeLimit links ↔
      ∀ k, Paging.FirstWithKey Link.time links (rangeLimit - 1 + k * rangeLimit) := by
  have hindex : ∀ k, (k + 1) * rangeLimit - 1 = rangeLimit - 1 + k * rangeLimit := by
    intro k
    rw [Nat.succ_mul]
    omega
  constructor
  · intro hends k
    rw [← hindex]
    exact hends (k + 1) (Nat.succ_pos k)
  · intro hends k hk
    obtain ⟨k, rfl⟩ := Nat.exists_eq_succ_of_ne_zero hk.ne'
    rw [Nat.succ_eq_add_one, hindex]
    exact hends k

/-- The queries cover the times of the links. Nothing is asked of the upper bound: every
`long` meets it. -/
def TimesCovered (links : List Link) : Prop := ∀ l ∈ links, 0 ≤ l.time ∧ l.time ≤ longMax

theorem listed_eq_visible_iff :
    listed dbid dbs key = visible dbid dbs key ↔ TimesCovered (visible dbid dbs key) := by
  have hfilter : listed dbid dbs key =
      (visible dbid dbs key).filter fun l => 0 ≤ l.time ∧ l.time ≤ longMax := by
    rw [listed, visible, List.filter_filter]
    refine List.filter_congr fun l _ => ?_
    rw [Bool.eq_iff_iff]
    simp only [inTimeRange, Bool.and_eq_true, decide_eq_true_eq]
    tauto
  rw [hfilter, List.filter_eq_self]
  simp only [decide_eq_true_eq]
  rfl

end

/-- **A list is read from end to end** exactly when its times are covered and every page ends
with the first link of its time: then, and only then, the calls come to an end and return each
visible link once, in the order of the list. -/
theorem readAll_eq_visible_iff (ea : Bool) {ops : List (String × LinkOp)} {dbs : Linkdbs}
    (hrun : run callStep ops ∅ = some dbs) (dbid : String) {rangeLimit : Nat}
    (hlimit : 0 < rangeLimit) {key : HistoryKey} {h : History} (hno : NoEntry key h)
    (hnew : h.listTailHistoryIndex.lookup key = none) {choice : Nat}
    (hchoice : h.listTailHistory.length < listTailHistoryLimit ∨
      choice < h.listTailHistory.length) :
    (∃ fuel, readAll ea dbid rangeLimit dbs key choice fuel h = some (visible dbid dbs key)) ↔
      TimesCovered (visible dbid dbs key) ∧ PagesEndFirst rangeLimit (visible dbid dbs key) := by
  have hset := (run_refines refines_empty hrun dbid ⟨key.id1, key.linkType⟩).1
  have hnewer : (listed dbid dbs key).Pairwise AbsStore.Newer := hset.sorted.filter _
  have hsorted : (listed dbid dbs key).Pairwise fun l l' => l'.time ≤ l.time := by
    refine hnewer.imp fun {l l'} hl => ?_
    unfold AbsStore.Newer at hl
    omega
  have hnodup := AbsStore.nodup_of_newer hnewer
  rw [← listed_eq_visible_iff]
  by_cases hshort : (listed dbid dbs key).length < rangeLimit
  · rw [readAll_of_short ea hlimit hno choice hshort]
    refine ⟨fun he => ⟨he.symm, ?_⟩, fun he => he.1.symm⟩
    -- no page is full, so none has an end
    intro k hk j a b _ _ hb
    have hlt := (List.getElem?_eq_some_iff.mp hb).1
    rw [he] at hlt
    have hmul : rangeLimit ≤ k * rangeLimit := Nat.le_mul_of_pos_left _ hk
    omega
  · obtain ⟨last, hlast⟩ : ∃ last, (listed dbid dbs key)[rangeLimit - 1]? = some last :=
      ⟨_, List.getElem?_eq_getElem (by omega)⟩
    have hpages := Paging.pages_eq_drop_iff hsorted hnodup hlimit hlast
    rw [Nat.sub_add_cancel hlimit] at hpages
    rw [readAll_of_full hset ea hlimit hno hnew hchoice hlast, pagesEndFirst_iff hlimit]
    constructor
    · rintro ⟨fuel, rest, hrest, hsplit⟩
      have hcovered : listed dbid dbs key = visible dbid dbs key := by
        rw [listed_eq_visible_iff]
        intro l hl
        -- only listed links are ever returned
        have hmem : l ∈ listed dbid dbs key := by
          rw [← hsplit] at hl
          rcases List.mem_append.mp hl with hl | hl
          · exact List.mem_of_mem_take hl
          · exact Paging.pages_subset hrest hl
        have hrange := (List.mem_filter.mp hmem).2
        simp only [inTimeRange, decide_eq_true_eq] at hrange
        exact hrange.2
      refine ⟨hcovered, ?_⟩
      have hdrop : rest = (listed dbid dbs key).drop rangeLimit := by
        have hwhole := List.take_append_drop rangeLimit (listed dbid dbs key)
        exact List.append_cancel_left (hsplit.trans (hcovered.symm.trans hwhole.symm))
      rw [hdrop] at hrest
      rw [← hcovered]
      exact hpages.mp ⟨fuel, hrest⟩
    · rintro ⟨hcovered, hends⟩
      rw [← hcovered] at hends ⊢
      obtain ⟨fuel, hrest⟩ := hpages.mpr hends
      exact ⟨fuel, _, hrest, List.take_append_drop _ _⟩

/-- Two links of different times, one a page. -/
theorem readAll_two_pages :
    (∃ fuel, readAll true "linkdb" 1
        (addLink "linkdb" ⟨1, 2, 4, visibilityDefault, [], 0, 8⟩
          (addLink "linkdb" ⟨1, 2, 3, visibilityDefault, [], 0, 7⟩ ∅).2).2
        ⟨1, 2⟩ 0 fuel History.empty =
      some (visible "linkdb" (addLink "linkdb" ⟨1, 2, 4, visibilityDefault, [], 0, 8⟩
        (addLink "linkdb" ⟨1, 2, 3, visibilityDefault, [], 0, 7⟩ ∅).2).2 ⟨1, 2⟩)) ↔
    TimesCovered (visible "linkdb" (addLink "linkdb" ⟨1, 2, 4, visibilityDefault, [], 0, 8⟩
        (addLink "linkdb" ⟨1, 2, 3, visibilityDefault, [], 0, 7⟩ ∅).2).2 ⟨1, 2⟩) ∧
      PagesEndFirst 1 (visible "linkdb" (addLink "linkdb" ⟨1, 2, 4, visibilityDefault, [], 0, 8⟩
        (addLink "linkdb" ⟨1, 2, 3, visibilityDefault, [], 0, 7⟩ ∅).2).2 ⟨1, 2⟩) :=
  have hrun : run callStep [("linkdb", .addLink ⟨1, 2, 3, visibilityDefault, [], 0, 7⟩),
      ("linkdb", .addLink ⟨1, 2, 4, visibilityDefault, [], 0, 8⟩)] ∅ = some _ := rfl
  readAll_eq_visible_iff true hrun "linkdb" (by decide) (fun l hl => by cases hl) rfl
    (Or.inl (by decide))

/-- Two links of one time on the first page: the second query leaves out the first of them,
and returns the other one again. -/
theorem readAll_returns_twice :
    ∃ dbs, run callStep
        [("linkdb", .addLink ⟨1, 2, 3, visibilityDefault, [], 0, 7⟩),
         ("linkdb", .addLink ⟨1, 2, 4, visibilityDefault, [], 0, 7⟩)] ∅ = some dbs ∧
      visible "linkdb" dbs ⟨1, 2⟩ =
        [⟨1, 2, 3, visibilityDefault, [], 0, 7⟩, ⟨1, 2, 4, visibilityDefault, [], 0, 7⟩] ∧
      (readAll true "linkdb" 2 dbs ⟨1, 2⟩ 0 2 History.empty = some
        [⟨1, 2, 3, visibilityDefault, [], 0, 7⟩, ⟨1, 2, 4, visibilityDefault, [], 0, 7⟩,
         ⟨1, 2, 4, visibilityDefault, [], 0, 7⟩]) ∧
      ¬ ∃ fuel, readAll true "linkdb" 2 dbs ⟨1, 2⟩ 0 fuel History.empty =
        some (visible "linkdb" dbs ⟨1, 2⟩) := by
  refine ⟨_, rfl, by decide, by decide, ?_⟩
  rintro ⟨fuel, hread⟩
  cases fuel with
  | zero => cases hread
  | succ fuel =>
    cases fuel with
    | zero => cases hread
    | succ fuel => cases hread

end HistoryPaging

end TokuQa.LinkBench
