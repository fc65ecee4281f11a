import Mathlib.Data.List.Sort
import TokuQa.Lib.Statements
import TokuQa.Tpcc.Schema

/-!
# Looking for a customer by last name

`payment` and `ordstat` count the customers with a last name, select them in the order of their
first names and fetch half as many of them, rounded up: the last one fetched is the one at the
middle. Customers with the same first name come in the order of the table.

The statements of a transaction are named by their number in `stmt[t_num]`, and by the turn of
the loop they are in.
-/

set_option autoImplicit false

namespace TokuQa.Tpcc

open TokuQa.Lib

inductive Site where
  | stmt (number : Nat) (turn : Int)
  | commit (turn : Int)
deriving DecidableEq

/-- The labels a transaction ends at when it does not commit. -/
inductive Label where
  | sqlerr
  | invaliditem
deriving DecidableEq

/-- The customers of the district with the last name, as `ORDER BY c_first` gives them. -/
def byName (t : Database) (k : DistrictKey) (last : String) : List Customer :=
  (t.customer.select fun r => (r.cWId, r.cDId) = k ∧ r.cLast = last).insertionSort
    fun r r' => r.cFirst ≤ r'.cFirst

/-- `n` rows are fetched one after another; the last one stays. -/
def fetchRows {α : Type} : Nat → List α → α → Option α
  | 0, _, x => some x
  | _ + 1, [], _ => none
  | n + 1, x :: xs, _ => fetchRows n xs x

/-- `namecnt` is made even, and half of it are fetched. -/
def fetches (namecnt : Nat) : Nat := (if namecnt % 2 ≠ 0 then namecnt + 1 else namecnt) / 2

theorem fetches_eq (n : Nat) : fetches n = (n + 1) / 2 := by
  unfold fetches
  split <;> omega

theorem fetchRows_eq {α : Type} {n : Nat} {xs : List α} {x : α} (h : n < xs.length) :
    fetchRows (n + 1) xs x = some xs[n] := by
  induction n generalizing xs x with
  | zero =>
    cases xs with
    | nil => exact absurd h (Nat.not_lt_zero _)
    | cons y ys => rfl
  | succ n ih =>
    cases xs with
    | nil => exact absurd h (Nat.not_lt_zero _)
    | cons y ys =>
      rw [fetchRows]
      exact ih (Nat.lt_of_succ_lt_succ h)

/-- The customer at position `⌈n / 2⌉` of the `n` with the last name. -/
def middle (t : Database) (k : DistrictKey) (last : String) : Option Customer :=
  (byName t k last)[((byName t k last).length - 1) / 2]?

/-- What the fetches of both transactions end with, on the column `f`. -/
theorem fetchRows_middle {α : Type} (f : Customer → α) {t : Database} {k : DistrictKey}
    {last : String} {c : Customer} (h : middle t k last = some c) (x : α) :
    fetchRows (fetches (byName t k last).length) ((byName t k last).map f) x = some (f c) := by
  obtain ⟨hlt, hc⟩ := List.getElem?_eq_some_iff.mp h
  have hcount : fetches (byName t k last).length = ((byName t k last).length - 1) / 2 + 1 := by
    rw [fetches_eq]
    omega
  rw [hcount, fetchRows_eq (by rwa [List.length_map]), List.getElem_map, hc]

/-- What they end with, whether there is such a customer or not. -/
theorem fetchRows_chosen (t : Database) (k : DistrictKey) (last : String) (x : Int) :
    fetchRows (fetches (byName t k last).length) ((byName t k last).map Customer.cId) x =
      some ((middle t k last).elim x Customer.cId) := by
  cases hmiddle : middle t k last with
  | some c => exact fetchRows_middle Customer.cId hmiddle x
  | none =>
    have hnil : (byName t k last).length = 0 := by
      have hle := List.getElem?_eq_none_iff.mp hmiddle
      omega
    rw [hnil]
    rfl

/-- The customer at the middle is one of those with the last name. -/
theorem middle_mem {t : Database} {k : DistrictKey} {last : String} {c : Customer}
    (h : middle t k last = some c) :
    c ∈ t.customer ∧ (c.cWId, c.cDId) = k ∧ c.cLast = last := by
  have hmem : c ∈ byName t k last := List.mem_of_getElem? h
  obtain ⟨hc, hp⟩ := Rows.mem_select.mp ((List.mem_insertionSort _).mp hmem)
  exact ⟨hc, of_decide_eq_true hp⟩

end TokuQa.Tpcc
