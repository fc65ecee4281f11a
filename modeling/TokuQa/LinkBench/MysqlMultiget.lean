import TokuQa.LinkBench.Mysql

/-!
# Looking up links in `LinkStoreMysql.java`

`multigetLinks` of this class sends one query, with the ids written out between the brackets
of `id2 in (..)`; `getLink` is the same with one id. The default of `LinkStore` calls `getLink`
id by id. The two find the same links wherever the query is one: SQL wants at least one
expression between the brackets, so for no ids at all the first throws where the second
answers no links (`multigetLinks_agrees_iff`).

The query text is modelled from the bracket on, as the tokens the server's parser sees. Reads
go through `conn_ro`, which sees the committed tables. The order of the rows is the server's.
-/

set_option autoImplicit false

namespace TokuQa.LinkBench

open TokuQa.Lib

/-- `LinkStore.multigetLinks`, over a store's own `getLink`: the default implementation. -/
def LinkStore.multigetLinks {ε : Type} (getLink : Int → Except ε (Option Link)) :
    List Int → Except ε (List Link)
  | [] => .ok []
  | id2 :: id2s => do
    let l ← getLink id2
    let res ← LinkStore.multigetLinks getLink id2s
    return l.toList ++ res

/-- What the default implementation collects when no call throws. -/
theorem LinkStore.multigetLinks_eq {ε : Type} {getLink : Int → Except ε (Option Link)}
    {found : Int → Option Link} (h : ∀ id2, getLink id2 = .ok (found id2)) (id2s : List Int) :
    LinkStore.multigetLinks getLink id2s = .ok (id2s.filterMap found) := by
  induction id2s with
  | nil => rfl
  | cons id2 id2s ih =>
    rw [LinkStore.multigetLinks, h, ih, List.filterMap_cons]
    cases found id2 <;> rfl

namespace Mysql

/-! ## `id2 in (..)` -/

inductive Token where
  | lparen
  | number (n : Int)
  | comma
  | rparen
  | semicolon
deriving DecidableEq

/-- The loop over `id2s`, with its flag `first`. -/
def appendIds : Bool → List Int → List Token
  | _, [] => []
  | first, id2 :: id2s =>
    (if first then [] else [.comma]) ++ [.number id2] ++ appendIds false id2s

/-- What is appended behind "and id2 in ". -/
def inList (id2s : List Int) : List Token :=
  [.lparen] ++ appendIds true id2s ++ [.rparen, .semicolon]

/-- `expr_list`: expressions with commas between them, at least one. -/
def parseExprs : List Token → Option (List Int × List Token)
  | .number n :: .comma :: rest => (parseExprs rest).map fun r => (n :: r.1, r.2)
  | .number n :: rest => some ([n], rest)
  | _ => none

/-- `'(' expr_list ')'` at the end of a statement; `none` is a syntax error. -/
def parseIn : List Token → Option (List Int)
  | .lparen :: rest =>
    match parseExprs rest with
    | some (ns, [.rparen, .semicolon]) => some ns
    | _ => none
  | _ => none

theorem parseExprs_appendIds (id2 : Int) (id2s : List Int) (rest : List Token) :
    parseExprs (.number id2 :: (appendIds false id2s ++ .rparen :: rest)) =
      some (id2 :: id2s, .rparen :: rest) := by
  induction id2s generalizing id2 with
  | nil => rfl
  | cons next id2s ih =>
    have hnext := ih next
    simp only [appendIds, Bool.false_eq_true, if_false, List.cons_append, List.nil_append,
      parseExprs, hnext, Option.map_some]

/-- **The list reads back** as the ids, unless there are none. -/
theorem parseIn_inList (id2s : List Int) :
    parseIn (inList id2s) = if id2s = [] then none else some id2s := by
  cases id2s with
  | nil => rfl
  | cons id2 id2s =>
    have hexprs := parseExprs_appendIds id2 id2s [.semicolon]
    simp only [inList, appendIds, if_true, List.cons_append, List.nil_append, parseIn, hexprs]
    rw [if_neg (List.cons_ne_nil id2 id2s)]

/-! ## The query -/

/-- `createLinkFromRow`. -/
def createLinkFromRow (k : LinkKey) (r : LinkRow) : Link :=
  ⟨k.id1, k.linkType, k.id2, r.visibility, r.data, r.version, r.time⟩

/-- The rows with `id1 = .. and link_type = .. and id2 in (..)`, as links. -/
def selectLinks (t : Tables) (id1 linkType : Int) (id2s : List Int) : Multiset Link :=
  (t.linktable.entries.filter fun e =>
    e.1.id1 = id1 ∧ e.1.linkType = linkType ∧ e.1.id2 ∈ id2s).map fun e =>
      createLinkFromRow e.1 e.2

/-- The order in which a server sends the rows of a result. -/
structure RowOrder where
  rows : Multiset Link → List Link
  coe_rows : ∀ ls, (rows ls : Multiset Link) = ls

/-! ## The methods -/

/-- SQLState of `ER_PARSE_ERROR`. -/
def syntaxError : Exn := .sql "42000"

/-- `multigetLinksImpl`. The array has a cell for each row of the result and is filled in their
order. -/
def multigetLinksImpl (srv : RowOrder) (id1 linkType : Int) (id2s : List Int) :
    Body (List Link) := do
  let rs ← statement .selectLink fun t =>
    ((parseIn (inList id2s)).map fun ids => srv.rows (selectLinks t id1 linkType ids), t)
  match rs with
  | some results => pure results
  | none => throw syntaxError

/-- `multigetLinks`, on `conn_ro`. -/
def multigetLinks (srv : RowOrder) (id1 linkType : Int) (id2s : List Int)
    (strikes : List Strike) (db : Db) : Except Exn (List Link) :=
  (retrying (multigetLinksImpl srv id1 linkType id2s) strikes (Conn.idle db.committed)).toExcept

/-- `getLink`. Its own loop has nothing left to retry behind that of `multigetLinks`. -/
def getLink (srv : RowOrder) (id1 linkType id2 : Int) (strikes : List Strike) (db : Db) :
    Except Exn (Option Link) := do
  let res ← multigetLinks srv id1 linkType [id2] strikes db
  if res.length ≤ 1 then return res.head?
  else throw (.exception "assert(res.length <= 1)")

/-! ## What is found -/

theorem mem_selectLinks {t : Tables} {id1 linkType : Int} {id2s : List Int} {l : Link} :
    l ∈ selectLinks t id1 linkType id2s ↔
      ∃ id2 ∈ id2s, linkSet t ⟨id1, linkType, id2⟩ = some l := by
  unfold selectLinks linkSet
  rw [Multiset.mem_map]
  constructor
  · rintro ⟨⟨k, r⟩, he, rfl⟩
    obtain ⟨hrow, rfl, rfl, hid2⟩ := Multiset.mem_filter.mp he
    refine ⟨k.id2, hid2, ?_⟩
    rw [Finmap.mem_lookup_iff.mpr hrow]
    rfl
  · rintro ⟨id2, hid2, h⟩
    obtain ⟨r, hrow, rfl⟩ := Option.map_eq_some_iff.mp h
    exact ⟨⟨⟨id1, linkType, id2⟩, r⟩,
      Multiset.mem_filter.mpr ⟨Finmap.mem_lookup_iff.mp hrow, rfl, rfl, hid2⟩, rfl⟩

/-- A key has one row at most. -/
theorem nodup_selectLinks (t : Tables) (id1 linkType : Int) (id2s : List Int) :
    (selectLinks t id1 linkType id2s).Nodup := by
  unfold selectLinks
  refine Multiset.Nodup.map_on ?_ (t.linktable.nodup_entries.filter _)
  rintro ⟨k, r⟩ - ⟨k', r'⟩ - h
  obtain ⟨id1, linkType, id2⟩ := k
  obtain ⟨id1', linkType', id2'⟩ := k'
  obtain ⟨visibility, data, time, version⟩ := r
  obtain ⟨visibility', data', time', version'⟩ := r'
  simp only [createLinkFromRow, Link.mk.injEq] at h
  obtain ⟨rfl, rfl, rfl, rfl, rfl, rfl, rfl⟩ := h
  rfl

section

variable (srv : RowOrder) (id1 linkType : Int) (strikes : List Strike) (db : Db)

/-- An attempt that is left alone. -/
theorem attempt_multigetLinksImpl (id2s : List Int) (c : Db) :
    attempt (multigetLinksImpl srv id1 linkType id2s) none c =
      if id2s = [] then .thrown syntaxError c
      else .returned (srv.rows (selectLinks c.working id1 linkType id2s)) c := by
  unfold attempt multigetLinksImpl
  rw [parseIn_inList]
  by_cases h : id2s = []
  · rw [if_pos h, if_pos h]
    rfl
  · rw [if_neg h, if_neg h]
    rfl

/-- An attempt on an idle connection that an error waits for: it strikes the query or nothing,
and leaves the connection idle. -/
theorem attempt_multigetLinksImpl_fault (id2s : List Int) (x : Fault Site Exn) (t : Tables) :
    attempt (multigetLinksImpl srv id1 linkType id2s) (some x) (Conn.idle t) =
      if x.site = .selectLink then .thrown x.error (Conn.idle t)
      else attempt (multigetLinksImpl srv id1 linkType id2s) none (Conn.idle t) := by
  have hundo : (Conn.idle t).undo x.undo = Conn.idle t := by
    cases x.undo <;> rfl
  rw [attempt_multigetLinksImpl]
  unfold attempt multigetLinksImpl
  simp only [EStateM.run, bind, EStateM.bind, statement, parseIn_inList]
  by_cases hsite : x.site = .selectLink
  · rw [if_pos hsite, if_pos hsite, hundo]
  · rw [if_neg hsite, if_neg hsite]
    by_cases h : id2s = []
    · rw [if_pos h, if_pos h]
      rfl
    · rw [if_neg h, if_neg h]
      rfl

/-- **A read is tried again** until no error strikes it, and nothing has changed by then. -/
theorem multigetLinks_eq (id2s : List Int) :
    multigetLinks srv id1 linkType id2s strikes db =
      if id2s = [] then .error syntaxError
      else .ok (srv.rows (selectLinks db.committed id1 linkType id2s)) := by
  have hlast : (attempt (multigetLinksImpl srv id1 linkType id2s) none
      (Conn.idle db.committed)).toExcept =
      if id2s = [] then .error syntaxError
      else .ok (srv.rows (selectLinks db.committed id1 linkType id2s)) := by
    rw [attempt_multigetLinksImpl]
    split <;> rfl
  unfold multigetLinks retrying
  induction strikes with
  | nil => exact hlast
  | cons strike strikes ih =>
    rw [List.map_cons, retry, attempt_multigetLinksImpl_fault]
    by_cases hsite : strike.fault.site = .selectLink
    · have htransient : processSQLException strike.fault.error = true := by
        obtain ⟨site, error⟩ := strike
        cases error <;> rfl
      rw [if_pos hsite]
      dsimp only
      rw [if_pos htransient]
      exact ih
    · rw [if_neg hsite, ← hlast, attempt_multigetLinksImpl]
      by_cases h : id2s = []
      · rw [if_pos h]
        rfl
      · rw [if_neg h]

/-- One id is never a syntax error, and finds one row at most. -/
theorem getLink_eq (id2 : Int) :
    getLink srv id1 linkType id2 strikes db =
      .ok (linkSet db.committed ⟨id1, linkType, id2⟩) := by
  have hmem : ∀ l, l ∈ srv.rows (selectLinks db.committed id1 linkType [id2]) ↔
      linkSet db.committed ⟨id1, linkType, id2⟩ = some l := by
    intro l
    rw [← Multiset.mem_coe, srv.coe_rows, mem_selectLinks]
    simp
  have hnodup : (srv.rows (selectLinks db.committed id1 linkType [id2])).Nodup := by
    rw [← Multiset.coe_nodup, srv.coe_rows]
    exact nodup_selectLinks ..
  have hrows : srv.rows (selectLinks db.committed id1 linkType [id2]) =
      (linkSet db.committed ⟨id1, linkType, id2⟩).toList := by
    rcases hlist : srv.rows (selectLinks db.committed id1 linkType [id2]) with _ | ⟨l, _ | ⟨l', ls⟩⟩
    · cases hfound : linkSet db.committed ⟨id1, linkType, id2⟩ with
      | none => rfl
      | some l =>
        have hl := (hmem l).mpr hfound
        rw [hlist] at hl
        cases hl
    · have hfound := (hmem l).mp (by simp [hlist])
      rw [hfound]
      rfl
    · -- two rows of one key
      have hl := (hmem l).mp (by simp [hlist])
      have hl' := (hmem l').mp (by simp [hlist])
      rw [hl, Option.some.injEq] at hl'
      rw [hlist, hl'] at hnodup
      simp at hnodup
  unfold getLink
  rw [multigetLinks_eq, if_neg (List.cons_ne_nil id2 []), hrows]
  cases linkSet db.committed ⟨id1, linkType, id2⟩ <;> rfl

end

/-- **The bulk lookup and the default one agree** exactly where an id is asked for. -/
theorem multigetLinks_agrees_iff (srv : RowOrder) (id1 linkType : Int) (id2s : List Int)
    (strikes : List Strike) (getStrikes : Int → List Strike) (db : Db) :
    (∃ res defaultRes, multigetLinks srv id1 linkType id2s strikes db = .ok res ∧
        LinkStore.multigetLinks (fun id2 => getLink srv id1 linkType id2 (getStrikes id2) db) id2s =
          .ok defaultRes ∧
        ∀ l, l ∈ res ↔ l ∈ defaultRes) ↔
      id2s ≠ [] := by
  have hdefault := LinkStore.multigetLinks_eq
    (fun id2 => getLink_eq srv id1 linkType (getStrikes id2) db id2) id2s
  constructor
  · rintro ⟨res, defaultRes, hres, -⟩ rfl
    rw [multigetLinks_eq, if_pos rfl] at hres
    cases hres
  · intro hne
    refine ⟨srv.rows (selectLinks db.committed id1 linkType id2s), _,
      by rw [multigetLinks_eq, if_neg hne], hdefault, fun l => ?_⟩
    rw [← Multiset.mem_coe, srv.coe_rows, mem_selectLinks, List.mem_filterMap]

/-- No ids at all: the query is a syntax error, and the default answers no links. -/
theorem multigetLinks_of_no_ids :
    ¬ ∀ id2s : List Int, ∃ res defaultRes,
      multigetLinks ⟨Multiset.toList, Multiset.coe_toList⟩ 1 defaultLinkType id2s []
        (Conn.idle Tables.empty) = .ok res ∧
      LinkStore.multigetLinks (fun id2 => getLink ⟨Multiset.toList, Multiset.coe_toList⟩ 1
        defaultLinkType id2 [] (Conn.idle Tables.empty)) id2s = .ok defaultRes ∧
      ∀ l, l ∈ res ↔ l ∈ defaultRes := by
  intro h
  obtain ⟨res, defaultRes, hres, -⟩ := h []
  cases hres

end Mysql

end TokuQa.LinkBench
