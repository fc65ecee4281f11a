import Mathlib.Algebra.Order.Monoid.Defs
import Mathlib.Data.List.Infix

/-!
# Writers that are throttled

A writer keeps a reference, the number of rows it had added when it last looked at the clock for
this purpose, and adds no more rows once it is a limit ahead of it, until it has reset the
reference. What it does is a list of `Event`s; a reset lies between two readings of a clock.

`Throttled` is what this achieves: each reset comes a given time after all those before it, and
wherever there is no reset, fewer rows are added than a bound. `Throttle` is the invariant: it also
says when the last reset was and how many rows are behind it, so that a writer has to show the two
rules `Throttle.reset` and `Throttle.rows` only.
-/

set_option autoImplicit false

namespace TokuQa.Lib

variable {τ : Type}

inductive Event (τ : Type) where
  | reset (first last : τ)
  | rows (n : Nat)
deriving DecidableEq

namespace Event

/-- The resets, each with its two readings. -/
def resets : List (Event τ) → List (τ × τ)
  | [] => []
  | .reset first last :: es => (first, last) :: resets es
  | .rows _ :: es => resets es

def added : List (Event τ) → Nat
  | [] => 0
  | .reset _ _ :: es => added es
  | .rows n :: es => n + added es

/-- What an event makes of the number of rows behind the last reset. -/
def count (ahead : Nat) : Event τ → Nat
  | .reset _ _ => 0
  | .rows n => ahead + n

/-- The rows behind the last reset. -/
def ahead (es : List (Event τ)) : Nat := es.foldl count 0

theorem resets_append (es es' : List (Event τ)) : resets (es ++ es') = resets es ++ resets es' := by
  induction es with
  | nil => rfl
  | cons e es ih =>
    cases e with
    | reset first last => exact congrArg _ ih
    | rows n => exact ih

theorem ahead_concat (es : List (Event τ)) (e : Event τ) :
    ahead (es ++ [e]) = count (ahead es) e := by
  rw [ahead, List.foldl_concat]
  rfl

theorem foldl_count {es : List (Event τ)} (h : resets es = []) (n : Nat) :
    es.foldl count n = n + added es := by
  induction es generalizing n with
  | nil => rfl
  | cons e es ih =>
    cases e with
    | reset first last => exact absurd h (by simp [resets])
    | rows k => rw [List.foldl_cons, ih h, count, added, Nat.add_assoc]

/-- Without a reset, all that is added is ahead. -/
theorem added_le_ahead (before : List (Event τ)) {mid : List (Event τ)} (h : resets mid = []) :
    added mid ≤ ahead (before ++ mid) := by
  rw [ahead, List.foldl_append, foldl_count h]
  exact Nat.le_add_left _ _

end Event

open Event

/-- A loop that reads the clock until the reading is as it should be: the number of that reading.
`none` if it still loops after `turns` of them. -/
def readUntil (ready : τ → Bool) (clock : Nat → τ) : (turns reads : Nat) → Option Nat
  | 0, _ => none
  | turns + 1, reads =>
    if ready (clock reads) then some reads else readUntil ready clock turns (reads + 1)

theorem readUntil_spec {ready : τ → Bool} {clock : Nat → τ} {turns reads k : Nat}
    (h : readUntil ready clock turns reads = some k) : reads ≤ k ∧ ready (clock k) = true := by
  induction turns generalizing reads with
  | zero => exact absurd h (by simp [readUntil])
  | succ turns ih =>
    rw [readUntil] at h
    split at h
    · next hready =>
      cases h
      exact ⟨le_rfl, hready⟩
    · obtain ⟨hle, hready⟩ := ih h
      exact ⟨by omega, hready⟩

variable [Preorder τ] [Add τ]

/-- Every reset, whenever it was between its readings, is `gap` behind the resets before it, and
where there is none, fewer than `bound` rows are added. -/
structure Throttled (gap : τ) (bound : Nat) (es : List (Event τ)) : Prop where
  ordered : ∀ r ∈ resets es, r.1 ≤ r.2
  apart : (resets es).Pairwise fun r r' => r.2 + gap ≤ r'.1
  few : ∀ before mid after, es = before ++ mid ++ after → resets mid = [] → added mid < bound

/-- No reset was after `last`, and at no time there were `bound` rows ahead. -/
structure Throttle (gap : τ) (bound : Nat) (es : List (Event τ)) (last : τ) : Prop where
  ordered : ∀ r ∈ resets es, r.1 ≤ r.2
  apart : (resets es).Pairwise fun r r' => r.2 + gap ≤ r'.1
  le_last : ∀ r ∈ resets es, r.2 ≤ last
  ahead_lt : ∀ pre, pre <+: es → ahead pre < bound

namespace Throttle

variable {gap last first last' : τ} {bound n : Nat} {es : List (Event τ)}

theorem throttled (t : Throttle gap bound es last) : Throttled gap bound es := by
  refine ⟨t.ordered, t.apart, fun before mid after heq hmid => ?_⟩
  have hpre : before ++ mid <+: es := ⟨after, heq.symm⟩
  exact (added_le_ahead before hmid).trans_lt (t.ahead_lt _ hpre)

theorem nil (last : τ) (h : 0 < bound) : Throttle gap bound [] last := by
  have hnone : ∀ r ∈ resets ([] : List (Event τ)), r.1 ≤ r.2 ∧ r.2 ≤ last := by simp [resets]
  refine ⟨fun r hr => (hnone r hr).1, List.Pairwise.nil, fun r hr => (hnone r hr).2,
    fun pre hpre => ?_⟩
  rw [List.prefix_nil.mp hpre]
  exact h

theorem ahead_lt_concat (t : Throttle gap bound es last) {e : Event τ}
    (h : count (ahead es) e < bound) {pre : List (Event τ)} (hpre : pre <+: es ++ [e]) :
    ahead pre < bound := by
  rcases List.prefix_concat_iff.mp hpre with rfl | hpre
  · rwa [ahead_concat]
  · exact t.ahead_lt pre hpre

/-- **The rule of a reset**: it comes late enough behind the last one. -/
theorem reset [AddRightMono τ] (t : Throttle gap bound es last)
    (hlate : resets es ≠ [] → last + gap ≤ first) (hle : last ≤ last') (hle' : first ≤ last') :
    Throttle gap bound (es ++ [.reset first last']) last' := by
  have happend : resets (es ++ [.reset first last']) = resets es ++ [(first, last')] :=
    resets_append es _
  have hcount : count (ahead es) (.reset first last') < bound :=
    (Nat.zero_le _).trans_lt (t.ahead_lt es List.prefix_rfl)
  refine ⟨?_, ?_, ?_, fun pre => t.ahead_lt_concat hcount⟩
  · intro r hr
    rw [happend] at hr
    rcases List.mem_append.mp hr with hr | hr
    · exact t.ordered r hr
    · rw [List.mem_singleton.mp hr]
      exact hle'
  · rw [happend, List.pairwise_append]
    refine ⟨t.apart, List.pairwise_singleton _ _, fun r hr r' hr' => ?_⟩
    rw [List.mem_singleton.mp hr']
    exact (add_le_add_left (t.le_last r hr) gap).trans (hlate (List.ne_nil_of_mem hr))
  · intro r hr
    rw [happend] at hr
    rcases List.mem_append.mp hr with hr | hr
    · exact (t.le_last r hr).trans hle
    · rw [List.mem_singleton.mp hr]

/-- **The rule of the rows**: they stay below the bound. -/
theorem rows (t : Throttle gap bound es last) (h : ahead es + n < bound) :
    Throttle gap bound (es ++ [.rows n]) last := by
  have happend : resets (es ++ [.rows n]) = resets es :=
    (resets_append es _).trans (List.append_nil _)
  have hcount : count (ahead es) (.rows n : Event τ) < bound := h
  refine ⟨?_, ?_, ?_, fun pre => t.ahead_lt_concat hcount⟩
  · rw [happend]
    exact t.ordered
  · rw [happend]
    exact t.apart
  · rw [happend]
    exact t.le_last

end Throttle

end TokuQa.Lib
