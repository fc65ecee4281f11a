import Mathlib.Data.List.Nodup
import Mathlib.Order.Lattice

/-!
# Paging by a sort key

A list sorted by a key, largest first, is read in pages: the next page starts behind the
first element whose key is not above the key of the last element that was read. Such a reader
keeps a key where it would need a position. It finds its place again only if the last element
it read is the first one with its key; otherwise it reads elements a second time, or turns in
a circle. `pages_eq_drop_iff` says that nothing else goes wrong.
-/

set_option autoImplicit false

namespace TokuQa.Lib.Paging

variable {α κ : Type} [LinearOrder κ] (key : α → κ) (limit : Nat) (v : List α)

/-- The page that follows the key `t`. -/
def after (t : κ) : List α := ((v.filter fun a => key a ≤ t).drop 1).take limit

/-- The pages that follow the key `t`, one after another, until one is not full. -/
def pages : Nat → κ → Option (List α)
  | 0, _ => none
  | fuel + 1, t =>
    if (after key limit v t).length = limit then
      match (after key limit v t).getLast? with
      | none => none
      | some last => (pages fuel (key last)).map (after key limit v t ++ ·)
    else some (after key limit v t)

/-- The element at `i`, if there is one, is the first with its key. -/
def FirstWithKey (i : Nat) : Prop :=
  ∀ j a b, j < i → v[j]? = some a → v[i]? = some b → key a ≠ key b

variable {key limit v}

omit [LinearOrder κ] in
/-- Behind the end nothing is wrong. -/
theorem firstWithKey_of_le {i : Nat} (h : v.length ≤ i) : FirstWithKey key v i := by
  intro j a b _ _ hb
  have hlt := (List.getElem?_eq_some_iff.mp hb).1
  omega

omit [LinearOrder κ] in
/-- The ends of the pages after the element at `m`: that one, and those of the pages after the next
page's last element. -/
theorem forall_firstWithKey_iff {m : Nat} : (∀ k, FirstWithKey key v (m + k * limit)) ↔
    FirstWithKey key v m ∧ ∀ k, FirstWithKey key v (m + limit + k * limit) := by
  have hnext : ∀ k, m + (k + 1) * limit = m + limit + k * limit := by
    intro k
    rw [Nat.succ_mul, Nat.add_comm (k * limit), Nat.add_assoc]
  constructor
  · intro hall
    refine ⟨?_, fun k => hnext k ▸ hall (k + 1)⟩
    have hzero := hall 0
    rwa [Nat.zero_mul] at hzero
  · rintro ⟨hfirst, hrest⟩ k
    cases k with
    | zero => rwa [Nat.zero_mul]
    | succ k => exact hnext k ▸ hrest k

theorem after_subset {t : κ} {a : α} (h : a ∈ after key limit v t) : a ∈ v :=
  (List.mem_filter.mp (List.mem_of_mem_drop (List.mem_of_mem_take h))).1

/-- What is read is the first page, and what follows it. -/
theorem pages_eq_some {fuel : Nat} {t : κ} {out : List α}
    (h : pages key limit v (fuel + 1) t = some out) :
    ∃ rest, out = after key limit v t ++ rest ∧
      (rest = [] ∨ ∃ t', pages key limit v fuel t' = some rest) := by
  rw [pages] at h
  by_cases hfull : (after key limit v t).length = limit
  · rw [if_pos hfull] at h
    cases hlast : (after key limit v t).getLast? with
    | none =>
      rw [hlast] at h
      cases h
    | some last =>
      rw [hlast] at h
      obtain ⟨rest, hrest, rfl⟩ := Option.map_eq_some_iff.mp h
      exact ⟨rest, rfl, .inr ⟨_, hrest⟩⟩
  · rw [if_neg hfull] at h
    cases h
    exact ⟨[], (List.append_nil _).symm, .inl rfl⟩

theorem pages_subset {fuel : Nat} {t : κ} {out : List α}
    (h : pages key limit v fuel t = some out) {a : α} (ha : a ∈ out) : a ∈ v := by
  induction fuel generalizing t out with
  | zero => cases h
  | succ fuel ih =>
    obtain ⟨rest, rfl, hrest⟩ := pages_eq_some h
    rcases List.mem_append.mp ha with ha | ha
    · exact after_subset ha
    · rcases hrest with rfl | ⟨t', hrest⟩
      · cases ha
      · exact ih hrest ha

/-- The first page is part of what is read. -/
theorem mem_pages_of_mem_after {fuel : Nat} {t : κ} {out : List α}
    (h : pages key limit v fuel t = some out) {a : α} (ha : a ∈ after key limit v t) : a ∈ out := by
  cases fuel with
  | zero => cases h
  | succ fuel =>
    obtain ⟨rest, rfl, -⟩ := pages_eq_some h
    exact List.mem_append_left _ ha

/-- A full page, and the pages that follow the key it ends with. -/
theorem pages_append_iff {t : κ} {b : α} {rest : List α}
    (hlen : (after key limit v t).length = limit)
    (hlast : (after key limit v t).getLast? = some b) :
    (∃ fuel, pages key limit v fuel t = some (after key limit v t ++ rest)) ↔
      ∃ fuel, pages key limit v fuel (key b) = some rest := by
  constructor
  · rintro ⟨fuel, h⟩
    cases fuel with
    | zero => cases h
    | succ fuel =>
      rw [pages, if_pos hlen, hlast] at h
      obtain ⟨rest', hpages, happend⟩ := Option.map_eq_some_iff.mp h
      rw [List.append_cancel_left happend] at hpages
      exact ⟨fuel, hpages⟩
  · rintro ⟨fuel, h⟩
    refine ⟨fuel + 1, ?_⟩
    rw [pages, if_pos hlen, hlast]
    exact Option.map_eq_some_iff.mpr ⟨_, h, rfl⟩

/-- What is not above a key is what comes from some position on. -/
theorem filter_le_eq_drop (hsorted : v.Pairwise fun a b => key b ≤ key a) (t : κ) :
    v.filter (fun a => key a ≤ t) = v.drop (v.findIdx fun a => key a ≤ t) := by
  induction v with
  | nil => rfl
  | cons x xs ih =>
    obtain ⟨hx, hxs⟩ := List.pairwise_cons.mp hsorted
    by_cases hle : key x ≤ t
    · have hall : ∀ a ∈ x :: xs, decide (key a ≤ t) = true := by
        intro a ha
        rcases List.mem_cons.mp ha with rfl | ha
        · exact decide_eq_true hle
        · exact decide_eq_true (le_trans (hx a ha) hle)
      rw [List.filter_eq_self.mpr hall, List.findIdx_cons, decide_eq_true hle]
      rfl
    · rw [List.filter_cons_of_neg (by simpa using hle), ih hxs, List.findIdx_cons,
        decide_eq_false hle]
      rfl

section

variable (hsorted : v.Pairwise fun a b => key b ≤ key a) {m : Nat} {a : α}

include hsorted

/-- Where the page after the element at `m` starts: behind the first with its key. -/
theorem exists_after_eq (ha : v[m]? = some a) :
    ∃ j, j ≤ m ∧ after key limit v (key a) = (v.drop (j + 1)).take limit ∧
      (FirstWithKey key v m ↔ j = m) := by
  have hlt : m < v.length := (List.getElem?_eq_some_iff.mp ha).1
  have hfind : v.findIdx (fun b => key b ≤ key a) ≤ m := by
    by_contra hgt
    have hnot := List.not_of_lt_findIdx (Nat.lt_of_not_le hgt)
    rw [(List.getElem?_eq_some_iff.mp ha).2] at hnot
    simp at hnot
  refine ⟨v.findIdx fun b => key b ≤ key a, hfind, ?_, ?_⟩
  · rw [after, filter_le_eq_drop hsorted, List.drop_drop]
  · constructor
    · intro hfirst
      by_contra hne
      have hj : v.findIdx (fun b => key b ≤ key a) < m := by omega
      have hjlt : v.findIdx (fun b => key b ≤ key a) < v.length := Nat.lt_trans hj hlt
      have hget := List.getElem?_eq_getElem hjlt
      have hle := of_decide_eq_true (List.findIdx_getElem (w := hjlt))
      -- between equal keys nothing else fits
      have hge : key a ≤ key v[v.findIdx fun b => key b ≤ key a] := by
        have hpair := List.pairwise_iff_getElem.mp hsorted _ m hjlt hlt hj
        rwa [(List.getElem?_eq_some_iff.mp ha).2] at hpair
      exact hfirst _ _ a hj hget ha (le_antisymm hle hge)
    · intro hj i b c hi hb hc heq
      rw [hc] at ha
      cases ha
      rw [← hj] at hi
      have hnot := List.not_of_lt_findIdx hi
      rw [(List.getElem?_eq_some_iff.mp hb).2] at hnot
      simp [heq] at hnot

omit [LinearOrder κ] hsorted in
/-- A page of `limit` elements ends `limit` elements further on. -/
theorem take_drop_full {m : Nat} {b : α} (hlimit : 0 < limit) (hb : v[m + limit]? = some b) :
    ((v.drop (m + 1)).take limit).length = limit ∧
      ((v.drop (m + 1)).take limit).getLast? = some b ∧
      v.drop (m + 1) = (v.drop (m + 1)).take limit ++ v.drop (m + limit + 1) := by
  have hlt := (List.getElem?_eq_some_iff.mp hb).1
  have hlen : ((v.drop (m + 1)).take limit).length = limit := by
    rw [List.length_take, List.length_drop]
    omega
  refine ⟨hlen, ?_, ?_⟩
  · rw [List.getLast?_eq_getElem?, hlen, List.getElem?_take_of_lt (by omega), List.getElem?_drop,
      ← hb]
    congr 1
    omega
  · have hdrop : v.drop (m + limit + 1) = (v.drop (m + 1)).drop limit := by
      rw [List.drop_drop]
      congr 1
      omega
    rw [hdrop, List.take_append_drop]

/-- **Paging finds its place** exactly when every page ends with the first element of its
key: then, and only then, the pages after the element at `m` are the elements after it. -/
theorem pages_eq_drop_iff (hnodup : v.Nodup) (hlimit : 0 < limit) (ha : v[m]? = some a) :
    (∃ fuel, pages key limit v fuel (key a) = some (v.drop (m + 1))) ↔
      ∀ k, FirstWithKey key v (m + k * limit) := by
  induction hn : v.length - m using Nat.strongRecOn generalizing m a with
  | ind n ih =>
    obtain ⟨j, hjm, hafter, hfirst⟩ :
        ∃ j, j ≤ m ∧ after key limit v (key a) = (v.drop (j + 1)).take limit ∧
          (FirstWithKey key v m ↔ j = m) := exists_after_eq hsorted ha
    have hlt : m < v.length := (List.getElem?_eq_some_iff.mp ha).1
    by_cases hplace : j = m
    · subst hplace
      rw [forall_firstWithKey_iff, and_iff_right (hfirst.mpr rfl)]
      by_cases hfull : j + limit < v.length
      · -- a full page, which ends `limit` elements further on
        obtain ⟨b, hb⟩ : ∃ b, v[j + limit]? = some b := ⟨_, List.getElem?_eq_getElem hfull⟩
        obtain ⟨hlen, hlast, hsplit⟩ := take_drop_full hlimit hb
        rw [← hafter] at hlen hlast hsplit
        rw [hsplit, pages_append_iff hlen hlast]
        exact ih (v.length - (j + limit)) (by omega) hb rfl
      · -- the last page: nothing ends behind it
        have hshort : (v.drop (j + 1)).length < limit := by
          rw [List.length_drop]
          omega
        rw [List.take_of_length_le (Nat.le_of_lt hshort)] at hafter
        refine iff_of_true ⟨1, ?_⟩ fun k => firstWithKey_of_le (by omega)
        rw [pages, hafter, if_neg (Nat.ne_of_lt hshort)]
    · -- the next page starts with an element that was read already
      have hnot : ¬ ∀ k, FirstWithKey key v (m + k * limit) := fun hall =>
        hplace (hfirst.mp (forall_firstWithKey_iff.mp hall).1)
      refine iff_of_false ?_ hnot
      rintro ⟨fuel, hpages⟩
      have hj : j + 1 < v.length := by omega
      have hmem : v[j + 1] ∈ after key limit v (key a) := by
        rw [hafter, List.drop_eq_getElem_cons hj]
        cases limit with
        | zero => omega
        | succ n => exact List.mem_cons_self
      have hread : v[j + 1] ∈ v.take (m + 1) :=
        List.mem_take_iff_getElem.mpr ⟨j + 1, by omega, rfl⟩
      exact List.disjoint_take_drop hnodup (Nat.le_refl _) hread
        (mem_pages_of_mem_after hpages hmem)

end

end TokuQa.Lib.Paging
