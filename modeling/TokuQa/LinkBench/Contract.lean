import TokuQa.LinkBench.MemoryRefine
import TokuQa.LinkBench.MysqlCounts

/-!
# The two stores against one contract

Both stores are simulated by `AbsStore`: `LinkStoreMysql` by `linkSet` of its working tables,
`MemoryLinkStore` by `Refines`. Their link sets follow the contract, so the booleans are what
can tell them apart. `addLinkImpl` returns `row_found`, which is the negation of what the
contract promises, and `updateLink` negates it once more, as if it had been told the promised
answer.
-/

set_option autoImplicit false

namespace TokuQa.LinkBench

open TokuQa.Lib

namespace Mysql

/-! ## `LinkStoreMysql` -/

/-- What a call answers when nothing goes wrong: `row_found`, or its negation. -/
def answer (op : LinkOp) (t : Tables) : Bool :=
  match op with
  | .addLink l => (t.linktable.lookup l.key).isSome
  | .deleteLink k _ => (t.linktable.lookup k).isSome
  | .updateLink l => !(t.linktable.lookup l.key).isSome

theorem call_undisturbed (now : Int) (op : LinkOp) (db : Db) :
    call now op [] db = .returned (answer op db.working) (op.request.finish now db) := by
  have hrun := Request.attempt_spared now op.request db none fun f hf => by cases hf
  cases op with
  | addLink l => exact hrun
  | deleteLink k expunge => exact hrun
  | updateLink l =>
    have hadd : addLink now l [] db = _ := hrun
    simp only [call, updateLink, hadd]
    rfl

theorem working_finish (now : Int) (q : Request) (db : Db) :
    (q.finish now db).working = q.effect now db.working := by
  unfold Request.finish
  split <;> rfl

theorem isSome_linkSet (t : Tables) (k : LinkKey) :
    (linkSet t k).isSome = (t.linktable.lookup k).isSome := by
  unfold linkSet
  rw [Option.isSome_map]

/-- **The link table follows the contract.** -/
theorem linkSet_effect (now : Int) (op : LinkOp) (t : Tables) :
    linkSet (op.request.effect now t) = (AbsStore.apply op (linkSet t)).2 := by
  have hadd : ∀ l : Link, linkSet ((Request.add l).effect now t) =
      Function.update (linkSet t) l.key (some l) := by
    intro l
    funext k
    by_cases hk : k = l.key
    · subst hk
      have hrow : ((Request.add l).effect now t).linktable.lookup l.key = some l.row :=
        Request.row_effect
      rw [Function.update_self]
      unfold linkSet
      rw [hrow]
      rfl
    · have hrow : ((Request.add l).effect now t).linktable.lookup k = t.linktable.lookup k :=
        Request.lookup_effect_ne hk t
      rw [Function.update_of_ne hk]
      unfold linkSet
      rw [hrow]
  cases op with
  | addLink l => exact hadd l
  | updateLink l => exact hadd l
  | deleteLink k expunge =>
    have hrow : ((Request.delete k expunge).effect now t).linktable.lookup k =
        (Request.delete k expunge).rowAfter (t.linktable.lookup k) := Request.row_effect
    -- both kinds of delete write the one row
    have hother : ∀ k', k' ≠ k → linkSet ((Request.delete k expunge).effect now t) k' =
        linkSet t k' := by
      intro k' hk
      unfold linkSet
      rw [Request.lookup_effect_ne (q := .delete k expunge) hk]
    have hown : linkSet ((Request.delete k expunge).effect now t) k = (linkSet t k).bind fun l =>
        if expunge then none else some { l with visibility := visibilityHidden } := by
      unfold linkSet
      rw [hrow]
      cases t.linktable.lookup k <;> cases expunge <;> rfl
    have hreq : (LinkOp.deleteLink k expunge).request = .delete k expunge := rfl
    rw [hreq]
    funext k'
    by_cases hk : k' = k
    · subst hk
      rw [hown]
      cases hl : linkSet t k' <;> simp [AbsStore.apply, AbsStore.deleteLink, hl]
    · rw [hother k' hk]
      cases hl : linkSet t k <;> simp [AbsStore.apply, AbsStore.deleteLink, hl, hk]

end Mysql

namespace Memory

/-- The links of one database, by key: what `getLink` finds. -/
def linkSet (dbid : String) (dbs : Linkdbs) : AbsStore := fun k => getLink dbid k dbs

theorem getLink_eq (dbid : String) (k : LinkKey) (dbs : Linkdbs) :
    getLink dbid k dbs = findId k.id2 (linksOf dbs dbid k.lookupKey) := by
  unfold getLink linksOf findId
  cases findLinkByKey dbid k.lookupKey dbs <;> rfl

theorem Refines.linkSet_eq {dbs : Linkdbs} {S : String → AbsStore} (h : Refines dbs S)
    (dbid : String) : linkSet dbid dbs = S dbid :=
  funext fun k => (getLink_eq dbid k dbs).trans (h.find k)

end Memory

/-! ## Both -/

/-- Both stores return from the call with the documented boolean, and are left with the
documented links. -/
def Agrees (now : Int) (op : LinkOp) (db : Mysql.Db) (dbid : String) (dbs : Memory.Linkdbs) :
    Prop :=
  ∃ db' dbs',
    Mysql.call now op [] db = .returned (AbsStore.apply op (Mysql.linkSet db.working)).1 db' ∧
    Memory.call dbid op dbs = .ok ((AbsStore.apply op (Mysql.linkSet db.working)).1, dbs') ∧
    Mysql.linkSet db'.working = (AbsStore.apply op (Mysql.linkSet db.working)).2 ∧
    Mysql.linkSet db'.working = Memory.linkSet dbid dbs'

/-- `LinkStoreMysql` gives the documented boolean for `deleteLink` and never otherwise. -/
theorem answer_documented_iff (op : LinkOp) (t : Mysql.Tables) :
    Mysql.answer op t = (AbsStore.apply op (Mysql.linkSet t)).1 ↔
      ∃ k expunge, op = .deleteLink k expunge := by
  cases op with
  | addLink l =>
    have hsome := Mysql.isSome_linkSet t l.key
    refine iff_of_false ?_ (by simp)
    simp only [Mysql.answer, AbsStore.apply, AbsStore.addLink, ← hsome]
    cases Mysql.linkSet t l.key <;> simp
  | updateLink l =>
    have hsome := Mysql.isSome_linkSet t l.key
    refine iff_of_false ?_ (by simp)
    simp only [Mysql.answer, AbsStore.apply, AbsStore.updateLink, ← hsome]
    cases Mysql.linkSet t l.key <;> simp
  | deleteLink k expunge =>
    have hsome := Mysql.isSome_linkSet t k
    refine iff_of_true ?_ ⟨k, expunge, rfl⟩
    simp only [Mysql.answer, AbsStore.apply, AbsStore.deleteLink, ← hsome]
    cases Mysql.linkSet t k <;> rfl

/-- **The two stores agree on `deleteLink` and on nothing else**, from any tables and any
memory store with the same links. -/
theorem stores_agree_iff (ops : List (String × LinkOp)) {dbs : Memory.Linkdbs} {db : Mysql.Db}
    {dbid : String} (hrun : run Memory.callStep ops ∅ = some dbs)
    (hsame : Mysql.linkSet db.working = Memory.linkSet dbid dbs) (now : Int) (op : LinkOp) :
    Agrees now op db dbid dbs ↔ ∃ k expunge, op = .deleteLink k expunge := by
  have hcall := Mysql.call_undisturbed now op db
  have hspec := answer_documented_iff op db.working
  constructor
  · rintro ⟨db', -, hret, -⟩
    rw [hcall] at hret
    exact hspec.mp (Outcome.returned.inj hret).1
  · intro hdelete
    have hlinks : Mysql.linkSet (op.request.finish now db).working =
        (AbsStore.apply op (Mysql.linkSet db.working)).2 := by
      rw [Mysql.working_finish, Mysql.linkSet_effect]
    have href := Memory.run_refines Memory.refines_empty hrun
    have hstored := hsame.trans (href.linkSet_eq dbid)
    rcases Memory.call_refines href dbid op with ⟨l, hop, -, -⟩ | ⟨dbs', hok, href'⟩
    · obtain ⟨k, expunge, hd⟩ := hdelete
      rw [hd] at hop
      cases hop
    · have hmem : Memory.linkSet dbid dbs' = (AbsStore.apply op (Mysql.linkSet db.working)).2 := by
        rw [href'.linkSet_eq, Function.update_self, hstored]
      refine ⟨_, dbs', hcall.trans ?_, ?_, hlinks, hlinks.trans hmem.symm⟩
      · rw [hspec.mpr hdelete]
      · rw [hstored]
        exact hok

theorem stores_agree_empty :
    Agrees 5 (.deleteLink ⟨1, 2, 3⟩ true) (Conn.idle Mysql.Tables.empty) "linkdb" ∅ ↔
      ∃ k expunge, LinkOp.deleteLink ⟨1, 2, 3⟩ true = .deleteLink k expunge :=
  stores_agree_iff [] rfl (funext fun _ => rfl) 5 (.deleteLink ⟨1, 2, 3⟩ true)

/-- A new link, added to both stores while they are empty: `LinkStoreMysql` says it was
there. -/
theorem addLink_answers_differ :
    Mysql.linkSet Mysql.Tables.empty = Memory.linkSet "linkdb" ∅ ∧
      (Memory.call "linkdb" (.addLink (Mysql.oneLink visibilityDefault)) ∅).toOption.map Prod.fst =
        some true ∧
      (Mysql.call 5 (.addLink (Mysql.oneLink visibilityDefault)) []
        (Conn.idle Mysql.Tables.empty)).value? = some false ∧
      ¬ Agrees 5 (.addLink (Mysql.oneLink visibilityDefault)) (Conn.idle Mysql.Tables.empty)
        "linkdb" ∅ := by
  refine ⟨rfl, by decide, by decide, ?_⟩
  rintro ⟨db', -, hret, -⟩
  have hvalue : some false = some true := congrArg Outcome.value? hret
  cases hvalue

end TokuQa.LinkBench
