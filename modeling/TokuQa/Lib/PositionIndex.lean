import TokuQa.Lib.Table

/-!
# A list with an index of its positions

A cache keeps its entries in a list, and next to the list a table from key to position. The
table is **right** when it finds exactly the keys of the list, each at its place. The lemmas
say which changes of the two keep it right: an entry at the end comes or goes.
-/

set_option autoImplicit false

namespace TokuQa.Lib

variable {κ : Type} [DecidableEq κ]

/-- The table finds the keys of the list, each at its position, and no other key. -/
def Indexed (keys : List κ) (index : Table κ Nat) : Prop :=
  ∀ k p, index.lookup k = some p ↔ keys[p]? = some k

theorem indexed_nil : Indexed ([] : List κ) ∅ := by
  intro k p
  simp

omit [DecidableEq κ] in
/-- A key other than the one at the end is where it was. -/
theorem getElem?_push_eq_some {keys : List κ} {k k' : κ} (hne : k' ≠ k) (p : Nat) :
    (keys ++ [k])[p]? = some k' ↔ keys[p]? = some k' := by
  constructor
  · intro hp
    rcases Nat.lt_or_ge p keys.length with hlt | hge
    · rwa [List.getElem?_append_left hlt] at hp
    · rw [List.getElem?_append_right hge] at hp
      exact absurd (List.mem_singleton.mp (List.mem_of_getElem? hp)) hne
  · intro hp
    rw [List.getElem?_append_left (List.getElem?_eq_some_iff.mp hp).1]
    exact hp

namespace Indexed

variable {keys : List κ} {index : Table κ Nat} {k : κ} {p : Nat}

/-- A key has one position, so the list does not repeat it. -/
theorem nodup (h : Indexed keys index) : keys.Nodup := by
  rw [List.nodup_iff_getElem?_ne_getElem?]
  intro i j hij hj heq
  have hget : keys[j]? = some keys[j] := List.getElem?_eq_getElem hj
  have hi := (h keys[j] i).mpr (heq.trans hget)
  have hj' := (h keys[j] j).mpr hget
  rw [hi] at hj'
  cases hj'
  omega

theorem lookup_eq_none_iff (h : Indexed keys index) : index.lookup k = none ↔ k ∉ keys := by
  constructor
  · intro hnone hk
    obtain ⟨p, hp⟩ := List.mem_iff_getElem?.mp hk
    rw [(h k p).mpr hp] at hnone
    cases hnone
  · intro hk
    cases hl : index.lookup k with
    | none => rfl
    | some p => exact absurd (List.mem_of_getElem? ((h k p).mp hl)) hk

/-- A new key at the end. -/
theorem push (h : Indexed keys index) (hk : index.lookup k = none) :
    Indexed (keys ++ [k]) (index.insert k keys.length) := by
  have hnew : k ∉ keys := h.lookup_eq_none_iff.mp hk
  intro k' p
  rw [Table.lookup_insert_eq]
  by_cases hk' : k' = k
  · subst hk'
    rw [if_pos rfl, Option.some.injEq]
    constructor
    · intro he
      rw [← he]
      simp
    · intro hp
      rcases Nat.lt_or_ge p keys.length with hlt | hge
      · rw [List.getElem?_append_left hlt] at hp
        exact absurd (List.mem_of_getElem? hp) hnew
      · have hin := (List.getElem?_eq_some_iff.mp hp).1
        rw [List.length_append, List.length_singleton] at hin
        omega
  · rw [if_neg hk', h, getElem?_push_eq_some hk']

/-- The key at the end leaves. -/
theorem pop (h : Indexed (keys ++ [k]) index) : Indexed keys (index.erase k) := by
  have hnew : k ∉ keys := fun hk =>
    (List.nodup_append.mp h.nodup).2.2 k hk k (List.mem_singleton_self k) rfl
  intro k' p
  rw [Table.lookup_erase_eq]
  by_cases hk' : k' = k
  · subst hk'
    rw [if_pos rfl]
    constructor
    · intro he
      cases he
    · intro hp
      exact absurd (List.mem_of_getElem? hp) hnew
  · rw [if_neg hk', h, getElem?_push_eq_some hk']

end Indexed

end TokuQa.Lib
