import Mathlib.Data.List.Chain
import Mathlib.Data.List.Nodup
import Mathlib.Logic.Function.Basic

/-!
# Rings of items

Lists whose items carry the links themselves: each has a pointer to the next item and one to the
item before it, and a head without a value closes the ring. Memory is a partial map from the
addresses of items to their links; a null pointer, or one to memory that is not there, cannot be
followed.

`Through m head items` says that the ring of a head goes through these items, in both directions.
The operations are sequences of loads and stores, and each has a lemma that says what ring it
leaves (`init_through`, `addTail_through`, `delete_through`) and which links it leaves alone. A
ring sees only its own items (`Through.congr`), so operations on one ring leave every other one as
it is.
-/

set_option autoImplicit false

namespace TokuQa.Lib.Ring

/-- A pointer to an item, or null. -/
abbrev Ptr (α : Type) := Option α

/-- The links of an item. -/
structure Links (α : Type) where
  next : Ptr α
  prev : Ptr α

/-- The items that are there. -/
abbrev Mem (α : Type) := α → Option (Links α)

section

variable {α : Type}

/-! ## Loads and stores -/

def loadNext (p : Ptr α) (m : Mem α) : Option (Ptr α) := (p.bind m).map Links.next

def loadPrev (p : Ptr α) (m : Mem α) : Option (Ptr α) := (p.bind m).map Links.prev

section

variable [DecidableEq α]

def setNext (a : α) (q : Ptr α) (m : Mem α) : Mem α :=
  Function.update m a ((m a).map fun links => { links with next := q })

def setPrev (a : α) (q : Ptr α) (m : Mem α) : Mem α :=
  Function.update m a ((m a).map fun links => { links with prev := q })

def storeNext (p q : Ptr α) (m : Mem α) : Option (Mem α) := do
  let a ← p
  if (m a).isSome then some (setNext a q m) else none

def storePrev (p q : Ptr α) (m : Mem α) : Option (Mem α) := do
  let a ← p
  if (m a).isSome then some (setPrev a q m) else none

/-! ## Operations -/

/-- A head without items. -/
def init (head : Ptr α) (m : Mem α) : Option (Mem α) := do
  let m ← storeNext head head m
  storePrev head head m

def addTail (item head : Ptr α) (m : Mem α) : Option (Mem α) := do
  let m ← storePrev item (← loadPrev head m) m
  let m ← storeNext item head m
  let m ← storePrev head item m
  storeNext (← loadPrev item m) item m

def delete (item : Ptr α) (m : Mem α) : Option (Mem α) := do
  let m ← storePrev (← loadNext item m) (← loadPrev item m) m
  storeNext (← loadPrev item m) (← loadNext item m) m

/-- Goes from item to item up to the first on which `body` returns something; `none` when a
pointer cannot be followed or the turns do not suffice. -/
def forEachFrom {β : Type} (head : Ptr α) (body : Ptr α → Option (Option β)) (m : Mem α) :
    Nat → Ptr α → Option (Option β)
  | 0, pos => if pos = head then some none else none
  | turns + 1, pos =>
    if pos = head then some none
    else do
      match ← body pos with
      | some result => return some result
      | none => forEachFrom head body m turns (← loadNext pos m)

def forEach {β : Type} (head : Ptr α) (body : Ptr α → Option (Option β)) (m : Mem α)
    (turns : Nat) : Option (Option β) := do
  forEachFrom head body m turns (← loadNext head m)

/-- The same with a body that may take the item away: the pointer to the one after it is loaded
before. -/
def forEachSafeFrom {σ : Type} (links : σ → Mem α) (head : Ptr α) (body : Ptr α → σ → Option σ) :
    Nat → Ptr α → Ptr α → σ → Option σ
  | 0, pos, _, s => if pos = head then some s else none
  | turns + 1, pos, temp, s =>
    if pos = head then some s
    else do
      let s ← body pos s
      forEachSafeFrom links head body turns temp (← loadNext temp (links s)) s

def forEachSafe {σ : Type} (links : σ → Mem α) (head : Ptr α) (body : Ptr α → σ → Option σ)
    (turns : Nat) (s : σ) : Option σ := do
  let pos ← loadNext head (links s)
  forEachSafeFrom links head body turns pos (← loadNext pos (links s)) s

end

/-! ## Rings -/

/-- Each of two items knows the other. -/
def Linked (m : Mem α) (a b : α) : Prop :=
  loadNext (some a) m = some (some b) ∧ loadPrev (some b) m = some (some a)

/-- The ring of `head` goes through `items`. -/
structure Through (m : Mem α) (head : α) (items : List α) : Prop where
  nodup : (head :: items).Nodup
  linked : List.IsChain (Linked m) (head :: items ++ [head])

variable {m m' : Mem α} {a b head x : α} {p q : Ptr α} {items : List α}

/-! ## What a ring sees -/

theorem Linked.isSome (h : Linked m a b) : (m a).isSome := by
  have hnext := h.1
  rw [loadNext, Option.map_eq_some_iff] at hnext
  obtain ⟨links, hlinks, -⟩ := hnext
  exact Option.isSome_of_eq_some hlinks

/-- A chain sees the next items of all but its last one, and the items before all but its
first. -/
theorem isChain_congr {l : List α}
    (hnext : ∀ a ∈ l.dropLast, loadNext (some a) m' = loadNext (some a) m)
    (hprev : ∀ b ∈ l.tail, loadPrev (some b) m' = loadPrev (some b) m)
    (h : l.IsChain (Linked m)) : l.IsChain (Linked m') := by
  induction l with
  | nil => exact List.isChain_nil
  | cons a l ih =>
    cases l with
    | nil => exact List.isChain_singleton a
    | cons b l =>
      rw [List.isChain_cons_cons] at h ⊢
      refine ⟨⟨?_, ?_⟩, ih (fun c hc => hnext c (by simp [hc])) (fun c hc => ?_) h.2⟩
      · rw [hnext a (by simp)]
        exact h.1.1
      · rw [hprev b (by simp)]
        exact h.1.2
      · exact hprev c (List.mem_cons_of_mem _ hc)

/-- **A ring sees only its own links.** -/
theorem Through.congr (h : Through m head items) (hlinks : ∀ a ∈ head :: items, m' a = m a) :
    Through m' head items := by
  refine ⟨h.nodup, isChain_congr (fun a ha => ?_) (fun b hb => ?_) h.linked⟩
  · rw [List.dropLast_concat] at ha
    simp [loadNext, hlinks a ha]
  · have hmem : b ∈ head :: items := by
      simpa [or_comm] using hb
    simp [loadPrev, hlinks b hmem]

/-- An item knows the one after it, or the head. -/
theorem Through.loadNext_mem (h : Through m head items) (before : List α) {after : List α}
    (hsplit : head :: items = before ++ a :: after) :
    loadNext (some a) m = some (some ((after ++ [head]).head (by simp))) := by
  have hchain := h.linked
  rw [hsplit, List.append_assoc, List.cons_append] at hchain
  have hright := hchain.right_of_append
  rw [List.isChain_cons] at hright
  exact (hright.1 _ (List.head?_eq_some_head _)).1

theorem Through.isSome (h : Through m head items) : ∀ a ∈ head :: items, (m a).isSome := by
  intro a ha
  obtain ⟨before, after, hsplit⟩ := List.append_of_mem ha
  have hnext := h.loadNext_mem before hsplit
  rw [loadNext, Option.map_eq_some_iff] at hnext
  obtain ⟨links, hlinks, -⟩ := hnext
  exact Option.isSome_of_eq_some hlinks

/-- The head knows its last item, or itself. -/
theorem Through.loadPrev_head (h : Through m head items) :
    loadPrev (some head) m = some (some ((head :: items).getLast (by simp))) := by
  have hchain := h.linked
  conv at hchain => rw [← List.dropLast_append_getLast (l := head :: items) (by simp)]
  rw [List.append_assoc, List.singleton_append, List.isChain_append_cons_cons] at hchain
  exact hchain.2.1.2

section

variable [DecidableEq α]

/-! ## Walks -/

/-- **A walk meets the items in order.** -/
theorem Through.forEach_eq {β : Type} {body : Ptr α → Option (Option β)}
    (h : Through m head items) {turns : Nat} (hturns : items.length ≤ turns) :
    forEach (some head) body m turns = items.findSomeM? fun a => body (some a) := by
  have hfrom : ∀ (first : α) (rest : List α) (turns : Nat), rest.length ≤ turns →
      head ∉ rest → (first :: rest ++ [head]).IsChain (Linked m) →
      (loadNext (some first) m).bind (forEachFrom (some head) body m turns) =
        rest.findSomeM? fun a => body (some a) := by
    intro first rest
    induction rest generalizing first with
    | nil =>
      intro turns _ _ hchain
      have hlinked : Linked m first head := List.isChain_pair.mp hchain
      rw [hlinked.1]
      cases turns <;> simp [forEachFrom]
    | cons second rest ih =>
      intro turns hturns hhead hchain
      rw [List.cons_append, List.cons_append, List.isChain_cons_cons] at hchain
      cases turns with
      | zero => simp at hturns
      | succ turns =>
        rw [List.mem_cons, not_or] at hhead
        have hrest := ih second turns (Nat.le_of_succ_le_succ hturns) hhead.2 hchain.2
        rw [hchain.1.1, Option.bind_some, forEachFrom, if_neg (by simpa using Ne.symm hhead.1),
          List.findSomeM?_cons, ← hrest]
        rfl
  exact hfrom head items turns hturns (List.nodup_cons.mp h.nodup).1 h.linked

/-- **A walk that takes its items away**: the body keeps what holds of the items to come, and
that tells where the next one is. -/
theorem forEachSafe_run {σ : Type} {links : σ → Mem α} {body : Ptr α → σ → Option σ}
    (Inv : σ → List α → Prop)
    (hhead : ∀ s items, Inv s items → (loadNext (some head) (links s)).isSome)
    (hnext : ∀ s a after, Inv s (a :: after) → a ≠ head ∧
      loadNext (some a) (links s) = some (some ((after ++ [head]).head (by simp))))
    (hbody : ∀ s a after, Inv s (a :: after) → ∃ s', body (some a) s = some s' ∧ Inv s' after)
    {s : σ} {turns : Nat} (h : Inv s items) (hturns : items.length ≤ turns)
    (hfirst : loadNext (some head) (links s) = some (some ((items ++ [head]).head (by simp)))) :
    ∃ s', forEachSafe links (some head) body turns s = some s' ∧ Inv s' [] := by
  have hfrom : ∀ (items : List α) (turns : Nat) (s : σ), items.length ≤ turns → Inv s items →
      ∃ temp, loadNext (some ((items ++ [head]).head (by simp))) (links s) = some temp ∧
        ∃ s', forEachSafeFrom links (some head) body turns
          (some ((items ++ [head]).head (by simp))) temp s = some s' ∧ Inv s' [] := by
    intro items
    induction items with
    | nil =>
      intro turns s _ hinv
      obtain ⟨temp, htemp⟩ := Option.isSome_iff_exists.mp (hhead s [] hinv)
      refine ⟨temp, htemp, s, ?_, hinv⟩
      cases turns <;> simp [forEachSafeFrom]
    | cons a after ih =>
      intro turns s hturns hinv
      cases turns with
      | zero => simp at hturns
      | succ turns =>
        obtain ⟨hne, hload⟩ := hnext s a after hinv
        obtain ⟨s', hrun, hafter⟩ := hbody s a after hinv
        obtain ⟨temp, htemp, last, hlast, hdone⟩ :=
          ih turns s' (Nat.le_of_succ_le_succ hturns) hafter
        refine ⟨_, hload, last, ?_, hdone⟩
        rw [forEachSafeFrom, if_neg (by simpa using hne)]
        simp only [List.cons_append, List.head_cons, hrun, Option.bind_eq_bind, Option.bind_some]
        rw [htemp, Option.bind_some, hlast]
  obtain ⟨temp, htemp, s', hrun, hdone⟩ := hfrom items turns s hturns h
  refine ⟨s', ?_, hdone⟩
  simp only [forEachSafe, hfirst, Option.bind_eq_bind, Option.bind_some, htemp, hrun]

/-! ## What stores change -/

@[simp]
theorem isSome_setNext : (setNext a q m b).isSome = (m b).isSome := by
  by_cases h : b = a
  · subst h
    simp [setNext]
  · simp [setNext, Function.update_of_ne h]

@[simp]
theorem isSome_setPrev : (setPrev a q m b).isSome = (m b).isSome := by
  by_cases h : b = a
  · subst h
    simp [setPrev]
  · simp [setPrev, Function.update_of_ne h]

theorem setNext_of_ne (h : b ≠ a) : setNext a q m b = m b := Function.update_of_ne h _ _

theorem setPrev_of_ne (h : b ≠ a) : setPrev a q m b = m b := Function.update_of_ne h _ _

@[simp]
theorem loadNext_setPrev : loadNext p (setPrev a q m) = loadNext p m := by
  cases p with
  | none => rfl
  | some b =>
    by_cases h : b = a
    · subst h
      cases hm : m b <;> simp [loadNext, setPrev, hm]
    · simp [loadNext, setPrev_of_ne h]

@[simp]
theorem loadPrev_setNext : loadPrev p (setNext a q m) = loadPrev p m := by
  cases p with
  | none => rfl
  | some b =>
    by_cases h : b = a
    · subst h
      cases hm : m b <;> simp [loadPrev, setNext, hm]
    · simp [loadPrev, setNext_of_ne h]

theorem loadNext_setNext_self (h : (m a).isSome) : loadNext (some a) (setNext a q m) = some q := by
  obtain ⟨links, hlinks⟩ := Option.isSome_iff_exists.mp h
  simp [loadNext, setNext, hlinks]

theorem loadPrev_setPrev_self (h : (m a).isSome) : loadPrev (some a) (setPrev a q m) = some q := by
  obtain ⟨links, hlinks⟩ := Option.isSome_iff_exists.mp h
  simp [loadPrev, setPrev, hlinks]

theorem loadNext_setNext_of_ne (h : b ≠ a) :
    loadNext (some b) (setNext a q m) = loadNext (some b) m := by
  simp [loadNext, setNext_of_ne h]

theorem loadPrev_setPrev_of_ne (h : b ≠ a) :
    loadPrev (some b) (setPrev a q m) = loadPrev (some b) m := by
  simp [loadPrev, setPrev_of_ne h]

theorem storeNext_some (h : (m a).isSome) : storeNext (some a) q m = some (setNext a q m) := by
  simp [storeNext, h]

theorem storePrev_some (h : (m a).isSome) : storePrev (some a) q m = some (setPrev a q m) := by
  simp [storePrev, h]

/-! ## What the operations leave -/

/-- **A new head** has no items. -/
theorem init_through (h : (m head).isSome) : ∃ m', init (some head) m = some m' ∧
    Through m' head [] ∧ (∀ a, (m' a).isSome = (m a).isSome) ∧ ∀ a, a ≠ head → m' a = m a := by
  refine ⟨setPrev head (some head) (setNext head (some head) m), ?_, ⟨by simp, ?_⟩, by simp, ?_⟩
  · simp [init, storeNext_some h, storePrev, h]
  · refine List.isChain_pair.mpr ⟨?_, ?_⟩
    · rw [loadNext_setPrev, loadNext_setNext_self h]
    · rw [loadPrev_setPrev_self (by simpa using h)]
  · intro a ha
    rw [setPrev_of_ne ha, setNext_of_ne ha]

/-- **An item added at the tail** is the last one. -/
theorem addTail_through (h : Through m head items) (hx : (m x).isSome)
    (hnew : x ∉ head :: items) : ∃ m', addTail (some x) (some head) m = some m' ∧
    Through m' head (items ++ [x]) ∧ (∀ a, (m' a).isSome = (m a).isSome) ∧
    ∀ a, a ≠ x → a ∉ head :: items → m' a = m a := by
  set last := (head :: items).getLast (by simp) with hlast
  have hmem : last ∈ head :: items := List.getLast_mem _
  have hhead : (m head).isSome := h.isSome head (by simp)
  have hne : x ≠ head := fun heq => hnew (by simp [heq])
  have hlastne : last ≠ x := fun heq => hnew (heq ▸ hmem)
  set m' := setNext last (some x) (setPrev head (some x) (setNext x (some head)
    (setPrev x (some last) m))) with hm'
  have hprev : ∀ b, b ≠ head → b ≠ x → loadPrev (some b) m' = loadPrev (some b) m := by
    intro b hb hbx
    rw [hm', loadPrev_setNext, loadPrev_setPrev_of_ne hb, loadPrev_setNext,
      loadPrev_setPrev_of_ne hbx]
  have hnext : ∀ a, a ≠ last → a ≠ x → loadNext (some a) m' = loadNext (some a) m := by
    intro a ha hax
    rw [hm', loadNext_setNext_of_ne ha, loadNext_setPrev, loadNext_setNext_of_ne hax,
      loadNext_setPrev]
  have hback : loadPrev (some x) (setPrev head (some x) (setNext x (some head)
      (setPrev x (some last) m))) = some (some last) := by
    rw [loadPrev_setPrev_of_ne hne, loadPrev_setNext, loadPrev_setPrev_self hx]
  refine ⟨m', ?_, ⟨?_, ?_⟩, by simp [hm'], ?_⟩
  · have hload := h.loadPrev_head
    rw [← hlast] at hload
    simp only [addTail, hload, storePrev_some hx, Option.bind_eq_bind, Option.bind_some]
    rw [storeNext_some (by simpa using hx)]
    simp only [Option.bind_some]
    rw [storePrev_some (by simpa using hhead)]
    simp only [Option.bind_some, hback]
    rw [storeNext_some (by simpa using h.isSome last hmem)]
  · have hnodup := h.nodup
    rw [List.nodup_cons] at hnodup ⊢
    refine ⟨by simpa using ⟨hnodup.1, Ne.symm hne⟩, ?_⟩
    exact List.nodup_append_comm.mp (List.nodup_cons.mpr
      ⟨fun hmem => hnew (List.mem_cons_of_mem _ hmem), hnodup.2⟩)
  · have hsplit : head :: (items ++ [x]) ++ [head] =
        (head :: items).dropLast ++ last :: x :: [head] := by
      have hconcat : (head :: items).dropLast ++ [last] = head :: items :=
        List.dropLast_append_getLast (by simp)
      calc head :: (items ++ [x]) ++ [head] = head :: items ++ [x, head] := by simp
        _ = (head :: items).dropLast ++ [last] ++ [x, head] := by rw [hconcat]
        _ = _ := by simp
    have hchain : ((head :: items).dropLast ++ [last]).IsChain (Linked m) := by
      rw [hlast, List.dropLast_append_getLast]
      exact h.linked.left_of_append
    rw [hsplit, List.isChain_append_cons_cons, List.isChain_pair]
    refine ⟨isChain_congr (fun a ha => hnext a ?_ ?_) (fun b hb => hprev b ?_ ?_) hchain,
      ⟨?_, ?_⟩, ⟨?_, ?_⟩⟩
    · rw [List.dropLast_concat] at ha
      have hnodup := h.nodup
      rw [← List.dropLast_append_getLast (l := head :: items) (by simp)] at hnodup
      rintro rfl
      exact (List.nodup_append.mp hnodup).2.2 _ ha _ (by simp [hlast]) rfl
    · rw [List.dropLast_concat] at ha
      rintro rfl
      exact hnew ((List.dropLast_sublist _).mem ha)
    · rw [hlast, List.dropLast_append_getLast, List.tail_cons] at hb
      rintro rfl
      exact (List.nodup_cons.mp h.nodup).1 hb
    · rw [hlast, List.dropLast_append_getLast, List.tail_cons] at hb
      rintro rfl
      exact hnew (List.mem_cons_of_mem _ hb)
    · exact loadNext_setNext_self (by simpa using h.isSome last hmem)
    · rw [hm', loadPrev_setNext, hback]
    · rw [hm', loadNext_setNext_of_ne (Ne.symm hlastne), loadNext_setPrev, loadNext_setNext_self]
      simpa using hx
    · rw [hm', loadPrev_setNext, loadPrev_setPrev_self]
      simpa using hhead
  · intro a hax ha
    have haLast : a ≠ last := fun heq => ha (heq ▸ hmem)
    have haHead : a ≠ head := fun heq => ha (by simp [heq])
    rw [hm', setNext_of_ne haLast, setPrev_of_ne haHead, setNext_of_ne hax, setPrev_of_ne hax]

/-- **An item taken out**: the one before it and the one after it know each other. -/
theorem delete_through (before : List α) {after : List α}
    (h : Through m head (before ++ x :: after)) : ∃ m', delete (some x) m = some m' ∧
    Through m' head (before ++ after) ∧ (∀ a, (m' a).isSome = (m a).isSome) ∧
    ∀ a, a ∉ head :: (before ++ x :: after) → m' a = m a := by
  obtain ⟨front, pred, hfront⟩ : ∃ front pred, head :: before = front ++ [pred] :=
    ⟨_, _, (List.dropLast_append_getLast (l := head :: before) (by simp)).symm⟩
  obtain ⟨succ, back, hback⟩ : ∃ succ back, after ++ [head] = succ :: back :=
    List.exists_cons_of_ne_nil (by simp)
  have hchain := h.linked
  rw [← List.cons_append, hfront, List.append_assoc, List.append_assoc, List.singleton_append,
    List.cons_append, hback, List.isChain_append_cons_cons, List.isChain_cons_cons] at hchain
  obtain ⟨hleft, hpred, hsucc, hright⟩ := hchain
  have hnodup : (head :: before ++ x :: after).Nodup := h.nodup
  obtain ⟨hbefore, hafter, hapart⟩ := List.nodup_append.mp hnodup
  have hpredmem : pred ∈ head :: before := by
    rw [hfront]
    simp
  have hsuccmem : succ ∈ after ++ [head] := by
    rw [hback]
    simp
  have hsuccne : ∀ c ∈ before, c ≠ succ := by
    rintro c hc rfl
    obtain hmem | hmem := List.mem_append.mp hsuccmem
    · exact hapart c (List.mem_cons_of_mem _ hc) c (List.mem_cons_of_mem _ hmem) rfl
    · rw [List.mem_singleton.mp hmem] at hc
      exact (List.nodup_cons.mp hbefore).1 hc
  have hsuccx : x ≠ succ := by
    rintro rfl
    obtain hmem | hmem := List.mem_append.mp hsuccmem
    · exact (List.nodup_cons.mp hafter).1 hmem
    · exact hapart head (by simp) x (by simp) (List.mem_singleton.mp hmem).symm
  have hpredsome : (m pred).isSome := hpred.isSome
  have hsuccsome : (m succ).isSome := by
    refine h.isSome succ ?_
    obtain hmem | hmem := List.mem_append.mp hsuccmem
    · simp [hmem]
    · simp [List.mem_singleton.mp hmem]
  set m' := setNext pred (some succ) (setPrev succ (some pred) m) with hm'
  have hnext : ∀ c, c ≠ pred → loadNext (some c) m' = loadNext (some c) m := by
    intro c hc
    rw [hm', loadNext_setNext_of_ne hc, loadNext_setPrev]
  have hprev : ∀ c, c ≠ succ → loadPrev (some c) m' = loadPrev (some c) m := by
    intro c hc
    rw [hm', loadPrev_setNext, loadPrev_setPrev_of_ne hc]
  refine ⟨m', ?_, ⟨?_, ?_⟩, by simp [hm'], ?_⟩
  · simp only [delete, hsucc.1, hpred.2, Option.bind_eq_bind, Option.bind_some,
      storePrev_some hsuccsome, loadPrev_setPrev_of_ne hsuccx, loadNext_setPrev]
    rw [storeNext_some (by simpa using hpredsome)]
  · exact hnodup.sublist (by simp)
  · have hsplit : head :: (before ++ after) ++ [head] = front ++ pred :: succ :: back := by
      calc head :: (before ++ after) ++ [head] = head :: before ++ (after ++ [head]) := by simp
        _ = front ++ [pred] ++ succ :: back := by rw [hfront, hback]
        _ = _ := by simp
    rw [hsplit, List.isChain_append_cons_cons]
    refine ⟨isChain_congr (fun c hc => hnext c ?_) (fun c hc => hprev c ?_) hleft, ⟨?_, ?_⟩,
      isChain_congr (fun c hc => hnext c ?_) (fun c hc => hprev c ?_) hright⟩
    · rw [List.dropLast_concat] at hc
      rw [hfront] at hbefore
      exact (List.nodup_append.mp hbefore).2.2 c hc pred (by simp)
    · rw [← hfront, List.tail_cons] at hc
      exact hsuccne c hc
    · exact loadNext_setNext_self (by simpa using hpredsome)
    · rw [hm', loadPrev_setNext, loadPrev_setPrev_self hsuccsome]
    · rw [← hback, List.dropLast_concat] at hc
      exact fun heq => hapart pred hpredmem c (List.mem_cons_of_mem _ hc) heq.symm
    · rw [List.tail_cons] at hc
      have hends : (after ++ [head]).Nodup := List.nodup_append_comm.mp
        (List.nodup_cons.mpr
          ⟨fun hmem => hapart head (by simp) head (List.mem_cons_of_mem _ hmem) rfl,
            (List.nodup_cons.mp hafter).2⟩)
      rw [hback] at hends
      rintro rfl
      exact (List.nodup_cons.mp hends).1 hc
  · intro c hc
    have hcpred : c ≠ pred := by
      rintro rfl
      exact hc (List.mem_append_left (x :: after) hpredmem)
    have hcsucc : c ≠ succ := by
      rintro rfl
      refine hc ?_
      obtain hmem | hmem := List.mem_append.mp hsuccmem
      · simp [hmem]
      · simp [List.mem_singleton.mp hmem]
    rw [hm', setNext_of_ne hcpred, setPrev_of_ne hcsucc]

end

end

end TokuQa.Lib.Ring
