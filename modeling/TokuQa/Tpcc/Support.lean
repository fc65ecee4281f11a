import TokuQa.Lib.Residue
import TokuQa.Lib.Run

/-!
# `support.c`: `RandomNumber` and `NURand`

`NURand` draws its three constants at its first call, into automatic variables; only `first`, that
says it has drawn them, is static. A later call adds whatever the variable it picks happens to
hold, which is an input here (`Event.stale`), as are the numbers `rand` returns.

So the constants of a process are those of its first call by accident only. Whatever the
variables hold, the results are in range; and one constant for each `A` explains the results of
a sequence of calls, whatever the variables hold, exactly when no two calls with the same `A` ask
for ranges that have a common divisor (`nurand_one_constant_iff`).
-/

set_option autoImplicit false

namespace TokuQa.Tpcc

open TokuQa.Lib

/-- `RandomNumber`, at a number `rand` returns; the code asks for no negative ones. -/
def randomNumber (rand min max : Nat) : Nat := min + rand % ((max - min) + 1)

theorem le_randomNumber (rand min max : Nat) : min ≤ randomNumber rand min max :=
  Nat.le_add_right _ _

theorem randomNumber_le {min max : Nat} (h : min ≤ max) (rand : Nat) :
    randomNumber rand min max ≤ max := by
  have hlt : rand % ((max - min) + 1) < (max - min) + 1 := Nat.mod_lt _ (Nat.succ_pos _)
  unfold randomNumber
  omega

namespace NURand

/-- The variables `C_255`, `C_1023` and `C_8191`. -/
structure Constants where
  c255 : UInt32
  c1023 : UInt32
  c8191 : UInt32

/-- What `rand` returns in the calls of `RandomNumber`: for the three constants, and for the two
numbers of every call. -/
structure Draws where
  c255 : Nat
  c1023 : Nat
  c8191 : Nat
  a : Nat
  xy : Nat

def Draws.constants (d : Draws) : Constants :=
  ⟨.ofNat (randomNumber d.c255 0 255), .ofNat (randomNumber d.c1023 0 1023),
    .ofNat (randomNumber d.c8191 0 8191)⟩

/-- The `switch`; `none` is its `abort`. -/
def Constants.pick (c : Constants) (A : UInt32) : Option UInt32 :=
  if A = 255 then some c.c255
  else if A = 1023 then some c.c1023
  else if A = 8191 then some c.c8191
  else none

/-- `RandomNumber(0, A) | RandomNumber(x, y)`. -/
def Draws.mixed (d : Draws) (A x y : UInt32) : Nat :=
  randomNumber d.a 0 A.toNat ||| randomNumber d.xy x.toNat y.toNat

/-- `NURand`, with the result and the new value of `first`. -/
def nurand (stale : Constants) (d : Draws) (A x y : UInt32) (first : Bool) : Option Int × Bool :=
  let constants := if first then d.constants else stale
  ((constants.pick A).map fun C =>
    ((UInt32.ofNat (d.mixed A x y) + C) % (y - x + 1) + x).toInt32.toInt, false)

/-- A call: the ends of its range and the number of its values are `int`s. -/
structure Call where
  A : UInt32
  x : UInt32
  y : UInt32
  known : A = 255 ∨ A = 1023 ∨ A = 8191
  le : x ≤ y
  int : y.toNat < 2147483648
  range_int : y.toNat - x.toNat + 1 < 2147483648

/-- The number of values a call can return. -/
def Call.range (c : Call) : Nat := c.y.toNat - c.x.toNat + 1

structure Event where
  call : Call
  draws : Draws
  stale : Constants

/-- The calls of a process, each with its result. -/
def results (es : List Event) : List (Event × Option Int) :=
  (answers (fun e first =>
    let (r, first) := nurand e.stale e.draws e.call.A e.call.x e.call.y first
    ((e, r), first)) es true).1

/-- The result with the constants `C`, one for each `A`. -/
def Event.withConstant (C : UInt32 → Nat) (e : Event) : Int :=
  ((e.draws.mixed e.call.A e.call.x e.call.y + C e.call.A) % e.call.range + e.call.x.toNat : Nat)

/-- What is said of the calls of a process: they return numbers of their ranges, and with one
constant for each `A`. -/
def OneConstant (es : List Event) : Prop :=
  (∀ p ∈ results es, ∃ r, p.2 = some r ∧
    (p.1.call.x.toNat : Int) ≤ r ∧ r ≤ (p.1.call.y.toNat : Int)) ∧
  ∃ C : UInt32 → Nat, ∀ p ∈ results es, p.2 = some (p.1.withConstant C)

/-! ## A call -/

/-- The constant a call adds, if its variables hold `c`. -/
def Event.constant (c : Constants) (e : Event) : UInt32 := (c.pick e.call.A).getD 0

/-- What a call returns, if its variables hold `c`. -/
def Event.result (c : Constants) (e : Event) : Nat :=
  (e.draws.mixed e.call.A e.call.x e.call.y + (e.constant c).toNat) % 4294967296 % e.call.range +
    e.call.x.toNat

theorem Call.pick_eq (call : Call) (c : Constants) :
    c.pick call.A = some ((c.pick call.A).getD 0) := by
  unfold Constants.pick
  rcases call.known with h | h | h <;> rw [h] <;> rfl

theorem Call.toNat_range (c : Call) : (c.y - c.x + 1).toNat = c.range := by
  have hle : c.x.toNat ≤ c.y.toNat := c.le
  have hsub : (c.y - c.x).toNat = c.y.toNat - c.x.toNat := UInt32.toNat_sub_of_le _ _ c.le
  have hint := c.range_int
  rw [UInt32.toNat_add, hsub]
  exact Nat.mod_eq_of_lt (by simp only [UInt32.toNat_one]; omega)

theorem Call.range_pos (c : Call) : 0 < c.range := Nat.succ_pos _

theorem Event.mixed_lt (e : Event) : e.draws.mixed e.call.A e.call.x e.call.y < 2147483648 := by
  have hA : e.call.A.toNat ≤ 8191 := by
    rcases e.call.known with h | h | h <;> rw [h] <;> decide
  have ha : randomNumber e.draws.a 0 e.call.A.toNat < 2 ^ 31 :=
    (randomNumber_le (Nat.zero_le _) _).trans_lt (by omega)
  have hxy : randomNumber e.draws.xy e.call.x.toNat e.call.y.toNat < 2 ^ 31 :=
    (randomNumber_le e.call.le _).trans_lt e.call.int
  exact Nat.or_lt_two_pow ha hxy

/-- A number below `2 ^ 31` is the `int` it is. -/
theorem toInt_toInt32 {u : UInt32} (h : u.toNat < 2147483648) : u.toInt32.toInt = u.toNat := by
  have htwo : 2 * u.toBitVec.toNat < 2 ^ 32 := by
    have := h
    rw [← UInt32.toNat_toBitVec] at this
    omega
  calc u.toInt32.toInt = u.toBitVec.toInt := rfl
    _ = u.toBitVec.toNat := BitVec.toInt_eq_toNat_of_lt htwo
    _ = u.toNat := by rw [UInt32.toNat_toBitVec]

theorem Event.le_result (c : Constants) (e : Event) : e.call.x.toNat ≤ e.result c :=
  Nat.le_add_left _ _

theorem Event.result_le (c : Constants) (e : Event) : e.result c ≤ e.call.y.toNat := by
  have hle : e.call.x.toNat ≤ e.call.y.toNat := e.call.le
  have hlt := Nat.mod_lt
    ((e.draws.mixed e.call.A e.call.x e.call.y + (e.constant c).toNat) % 4294967296)
    e.call.range_pos
  unfold Call.range at hlt
  unfold Event.result Call.range
  omega

/-- **What `NURand` returns**, with the constants it has drawn or what the variables hold. -/
theorem nurand_eq (e : Event) (first : Bool) :
    nurand e.stale e.draws e.call.A e.call.x e.call.y first =
      (some (e.result (if first then e.draws.constants else e.stale) : Int), false) := by
  have key : ∀ c : Constants, ((c.pick e.call.A).map fun C =>
      ((UInt32.ofNat (e.draws.mixed e.call.A e.call.x e.call.y) + C) %
        (e.call.y - e.call.x + 1) + e.call.x).toInt32.toInt) = some (e.result c : Int) := by
    intro c
    have hmixed : (UInt32.ofNat (e.draws.mixed e.call.A e.call.x e.call.y)).toNat =
        e.draws.mixed e.call.A e.call.x e.call.y :=
      UInt32.toNat_ofNat_of_lt' (e.mixed_lt.trans (by decide))
    have hmod : ((UInt32.ofNat (e.draws.mixed e.call.A e.call.x e.call.y) + e.constant c) %
        (e.call.y - e.call.x + 1) + e.call.x).toNat = e.result c := by
      rw [UInt32.toNat_add, UInt32.toNat_mod, UInt32.toNat_add, hmixed, e.call.toNat_range]
      exact Nat.mod_eq_of_lt ((e.result_le c).trans_lt (e.call.int.trans (by decide)))
    rw [e.call.pick_eq c, Option.map_some]
    exact congrArg some
      ((toInt_toInt32 (hmod.trans_lt ((e.result_le c).trans_lt e.call.int))).trans
        (congrArg Int.ofNat hmod))
  unfold nurand
  cases first
  · exact congrArg (·, false) (key e.stale)
  · exact congrArg (·, false) (key e.draws.constants)

/-! ## The calls of a process -/

/-- The events, each with what its variables hold behind the first lines. -/
def uses : List Event → List (Event × Constants)
  | [] => []
  | e :: es => (e, e.draws.constants) :: es.map fun e => (e, e.stale)

theorem map_fst_uses (es : List Event) : (uses es).map Prod.fst = es := by
  cases es with
  | nil => rfl
  | cons e es => simp [uses, Function.comp_def]

theorem results_eq (es : List Event) :
    results es = (uses es).map fun u => (u.1, some (u.1.result u.2 : Int)) := by
  have later : ∀ es : List Event, (answers (fun e first =>
      ((e, (nurand e.stale e.draws e.call.A e.call.x e.call.y first).1),
        (nurand e.stale e.draws e.call.A e.call.x e.call.y first).2)) es false).1 =
      es.map fun e => (e, some (e.result e.stale : Int)) := by
    intro es
    induction es with
    | nil => rfl
    | cons e es ih =>
      rw [answers, nurand_eq]
      exact congrArg _ ih
  cases es with
  | nil => rfl
  | cons e es =>
    unfold results
    rw [answers]
    simp only [nurand_eq, uses, List.map_cons, List.map_map, if_true]
    refine congrArg _ ((congrArg Prod.fst (congrArg (answers · es false) ?_)).trans (later es))
    funext e first
    rw [nurand_eq]

/-- Whatever the variables hold, the results are in range. -/
theorem results_in_range (es : List Event) : ∀ p ∈ results es, ∃ r, p.2 = some r ∧
    (p.1.call.x.toNat : Int) ≤ r ∧ r ≤ (p.1.call.y.toNat : Int) := by
  intro p hp
  rw [results_eq] at hp
  obtain ⟨u, -, rfl⟩ := List.mem_map.mp hp
  exact ⟨_, rfl, Int.ofNat_le.mpr (u.1.le_result u.2), Int.ofNat_le.mpr (u.1.result_le u.2)⟩

/-- The condition: the ranges of two calls with the same `A` have no common divisor. -/
def CoprimeRanges (c c' : Call) : Prop := c.A = c'.A → Nat.Coprime c.range c'.range

theorem oneConstant_of_coprime {es : List Event}
    (h : es.Pairwise fun e e' => CoprimeRanges e.call e'.call) : OneConstant es := by
  refine ⟨results_in_range es, ?_⟩
  rw [← map_fst_uses es, List.pairwise_map] at h
  have hshift : ∀ A : UInt32, ∃ C : Nat, ∀ u ∈ (uses es).filter (·.1.call.A = A),
      (u.1.draws.mixed u.1.call.A u.1.call.x u.1.call.y + C) % u.1.call.range =
        (u.1.draws.mixed u.1.call.A u.1.call.x u.1.call.y + (u.1.constant u.2).toNat) %
          4294967296 % u.1.call.range := by
    intro A
    refine exists_shift _ (fun u : Event × Constants => u.1.call.range) _ _
      (fun u _ => u.1.call.range_pos) (List.pairwise_filter.mpr (h.imp ?_))
    intro u u' hcop hu hu'
    exact hcop ((of_decide_eq_true hu).trans (of_decide_eq_true hu').symm)
  choose C hC using hshift
  refine ⟨C, fun p hp => ?_⟩
  rw [results_eq] at hp
  obtain ⟨u, hu, rfl⟩ := List.mem_map.mp hp
  have hval := hC u.1.call.A u (List.mem_filter.mpr ⟨hu, decide_eq_true rfl⟩)
  exact congrArg (fun n : Nat => some ((n + u.1.call.x.toNat : Nat) : Int)) hval.symm

/-- The variables can hold whatever takes the number to `t`. -/
theorem exists_stale (e : Event) {t : Nat} (ht : t < 4294967296) :
    ∃ v : UInt32, (e.draws.mixed e.call.A e.call.x e.call.y + v.toNat) % 4294967296 = t := by
  have hlt := e.mixed_lt
  refine ⟨.ofNat (4294967296 - e.draws.mixed e.call.A e.call.x e.call.y + t), ?_⟩
  rw [UInt32.toNat_ofNat']
  omega

theorem constant_of_equal (e : Event) (v : UInt32) : e.constant ⟨v, v, v⟩ = v := by
  unfold Event.constant Constants.pick
  rcases e.call.known with h | h | h <;> rw [h] <;> rfl

/-- `u` is the `k`th use. -/
theorem uses_getElem {es : List Event} {k : Nat} {e : Event} (h : es[k]? = some e) :
    (e, if k = 0 then e.draws.constants else e.stale) ∈ uses es := by
  cases es with
  | nil => exact absurd h (by simp)
  | cons e' es =>
    cases k with
    | zero =>
      obtain rfl : e' = e := by simpa using h
      exact List.mem_cons_self
    | succ k =>
      rw [List.getElem?_cons_succ] at h
      exact List.mem_cons_of_mem _ (List.mem_map.mpr ⟨e, List.mem_of_getElem? h, rfl⟩)

theorem OneConstant.value_eq {es : List Event} {C : UInt32 → Nat}
    (hC : ∀ p ∈ results es, p.2 = some (p.1.withConstant C)) {u : Event × Constants}
    (hu : u ∈ uses es) :
    (u.1.draws.mixed u.1.call.A u.1.call.x u.1.call.y + C u.1.call.A) % u.1.call.range =
      (u.1.draws.mixed u.1.call.A u.1.call.x u.1.call.y + (u.1.constant u.2).toNat) %
        4294967296 % u.1.call.range := by
  have hp := hC (u.1, some (u.1.result u.2 : Int))
    (by rw [results_eq]; exact List.mem_map.mpr ⟨u, hu, rfl⟩)
  have hnat : u.1.result u.2 = _ := Int.ofNat.inj (Option.some.inj hp)
  exact (Nat.add_right_cancel hnat).symm

/-- The calls, whose variables hold `v` at the `j`th and zeros at the others. -/
def staleAt (calls : List (Call × Draws)) (j : Nat) (v : UInt32) : List Event :=
  calls.mapIdx fun k c => ⟨c.1, c.2, if k = j then ⟨v, v, v⟩ else ⟨0, 0, 0⟩⟩

theorem staleAt_getElem? {calls : List (Call × Draws)} (j : Nat) (v : UInt32) {k : Nat}
    (hk : k < calls.length) : (staleAt calls j v)[k]? =
      some ⟨calls[k].1, calls[k].2, if k = j then ⟨v, v, v⟩ else ⟨0, 0, 0⟩⟩ := by
  simp [staleAt, List.getElem?_mapIdx, List.getElem?_eq_getElem hk]

theorem map_staleAt (calls : List (Call × Draws)) (j : Nat) (v : UInt32) :
    (staleAt calls j v).map (fun e => (e.call, e.draws)) = calls := by
  refine List.ext_getElem (by simp [staleAt]) fun k _ _ => ?_
  simp [staleAt]

/-- **One constant for each `A`, whatever the variables hold**: exactly when two calls with the
same `A` never ask for ranges with a common divisor. -/
theorem nurand_one_constant_iff (calls : List (Call × Draws)) :
    (∀ es : List Event, es.map (fun e => (e.call, e.draws)) = calls → OneConstant es) ↔
      calls.Pairwise fun c c' => CoprimeRanges c.1 c'.1 := by
  constructor
  · intro hall
    rw [List.pairwise_iff_getElem]
    intro i j hi hj hij hA
    have hj0 : j ≠ 0 := by omega
    have hpair : ∀ v : UInt32, ∃ c : Nat,
        (calls[i].2.mixed calls[i].1.A calls[i].1.x calls[i].1.y + c) % calls[i].1.range =
          (Event.result (if i = 0 then calls[i].2.constants else ⟨0, 0, 0⟩)
            ⟨calls[i].1, calls[i].2, ⟨0, 0, 0⟩⟩ - calls[i].1.x.toNat) ∧
        (calls[j].2.mixed calls[j].1.A calls[j].1.x calls[j].1.y + c) % calls[j].1.range =
          (calls[j].2.mixed calls[j].1.A calls[j].1.x calls[j].1.y + v.toNat) % 4294967296 %
            calls[j].1.range := by
      intro v
      obtain ⟨-, C, hC⟩ := hall (staleAt calls j v) (map_staleAt calls j v)
      have hvi := OneConstant.value_eq hC (uses_getElem (staleAt_getElem? j v hi))
      have hvj := OneConstant.value_eq hC (uses_getElem (staleAt_getElem? j v hj))
      refine ⟨C calls[i].1.A, ?_, ?_⟩
      · rw [if_neg (by omega : i ≠ j)] at hvi
        rw [Event.result, Nat.add_sub_cancel]
        exact hvi
      · rw [if_neg hj0, if_pos rfl, constant_of_equal] at hvj
        rw [hA]
        exact hvj
    obtain ⟨v₀, hv₀⟩ := exists_stale ⟨calls[j].1, calls[j].2, ⟨0, 0, 0⟩⟩ (t := 0) (by decide)
    obtain ⟨v₁, hv₁⟩ := exists_stale ⟨calls[j].1, calls[j].2, ⟨0, 0, 0⟩⟩ (t := 1) (by decide)
    obtain ⟨c₀, hi₀, hj₀⟩ := hpair v₀
    obtain ⟨c₁, hi₁, hj₁⟩ := hpair v₁
    refine coprime_of_shifts (hi₀.trans hi₁.symm) (hj₀.trans ?_) (hj₁.trans ?_)
    · rw [hv₀, Nat.zero_mod]
    · rw [hv₁]
  · intro hco es hes
    rw [← hes, List.pairwise_map] at hco
    exact oneConstant_of_coprime hco

/-- `NURand(255, 0, 999)`, that is the last name of a customer. -/
def lastnameCall : Call := ⟨255, 0, 999, .inl rfl, by decide, by decide, by decide⟩

/-- At the second call the variables hold one more than what the first has drawn. -/
theorem nurand_two_names : ¬ OneConstant
    [⟨lastnameCall, ⟨0, 0, 0, 0, 0⟩, ⟨0, 0, 0⟩⟩, ⟨lastnameCall, ⟨0, 0, 0, 0, 0⟩, ⟨1, 1, 1⟩⟩] := by
  rintro ⟨-, C, hC⟩
  have h₀ : (0 + C 255) % 1000 = 0 := OneConstant.value_eq hC (uses_getElem (k := 0) rfl)
  have h₁ : (0 + C 255) % 1000 = 1 := OneConstant.value_eq hC (uses_getElem (k := 1) rfl)
  omega

end NURand

end TokuQa.Tpcc
