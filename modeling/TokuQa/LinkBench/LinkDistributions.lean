import TokuQa.Lib.JavaInt

/-!
# `LinkDistributions.java`

How many links an id has. The arithmetic distributions compute it from the id and two numbers
of the configuration; the requester asks again what the loader asked, on an object of its own,
and relies on the same answer. `getNlinks_history_iff` says when it gets it: in every mode but
one the answer is a function of the id. `PERFECT_SQUARES` adds to `nlinks_default` where the
others add to a copy of it, so there it depends on what has been asked before.

The expressions of type `double` are given as functions of the integers in them (`Doubles`).
-/

set_option autoImplicit false

namespace TokuQa.LinkBench

open TokuQa.Lib

namespace LinkDistributions

/-- What `getNlinks` can throw. -/
inductive Exn where
  | arithmetic (msg : String)
  | runtime (msg : String)
deriving DecidableEq

/-- A distribution whose `getNlinks` is a function of the id. -/
structure LinkDistribution where
  getNlinks : Int → Except Exn Int
  /-- "Let caller know it should shuffle IDs". -/
  doShuffle : Bool

/-- `ProbLinkDistribution`, over `Math.round(dist.expectedCount(id1))`. -/
def ofProb (expectedCount : Int → Int) : LinkDistribution where
  getNlinks := fun id1 => .ok (expectedCount id1)
  doShuffle := true

inductive LinkDistMode where
  | real
  | const
  | reciprocal
  | multiples
  | perfectSquares
  | exponential
deriving DecidableEq

/-- The `double` expressions, after the cast to `long`. -/
structure Doubles where
  /-- `Math.ceil((double) n / (double) off)`. -/
  ceilDiv : Int → Int → Int
  /-- `Math.ceil(Math.log(id1) / Math.log(nlinks_config))`. -/
  ceilLog : Int → Int → Int
  /-- `Math.ceil(Math.pow(id1, (1.0) / nlinks_config))`. -/
  ceilRoot : Int → Int → Int
  /-- `Math.pow`. -/
  pow : Int → Int → Int

structure ArithLinkDistribution where
  minid1 : Int
  maxid1 : Int
  mode : LinkDistMode
  nlinksConfig : Int
  nlinksDefault : Int
deriving DecidableEq

namespace ArithLinkDistribution

/-- What the case `PERFECT_SQUARES` adds for an id. -/
def squaresIncrement (d : Doubles) (nlinksConfig id1 : Int) : Int :=
  let nthroot := d.ceilRoot id1 nlinksConfig
  let temp2 := d.pow nthroot nlinksConfig
  if temp2 = id1 then wrap64 (id1 - d.pow (wrap64 (nthroot - 1)) nlinksConfig) else 0

/-- `getNlinks`: the answer, and the object after it. -/
def getNlinks (d : Doubles) (id1 : Int) (s : ArithLinkDistribution) :
    Except Exn Int × ArithLinkDistribution :=
  match s.mode with
  | .const => (.ok s.nlinksDefault, s)
  | .reciprocal =>
    let n := wrap64 (s.maxid1 - s.minid1)
    let off := wrap64 (id1 - s.minid1)
    (.ok (wrap64 (s.nlinksDefault + d.ceilDiv n off)), s)
  | .multiples =>
    if s.nlinksConfig = 0 then (.error (.arithmetic "/ by zero"), s)
    else
      (.ok (wrap64 (s.nlinksDefault + if id1.tmod s.nlinksConfig = 0 then s.nlinksConfig else 0)), s)
  | .exponential =>
    let log := d.ceilLog id1 s.nlinksConfig
    let temp := d.pow s.nlinksConfig log
    (.ok (wrap64 (s.nlinksDefault +
      if temp = id1 then wrap64 (id1 - d.pow s.nlinksConfig (wrap64 (log - 1))) else 0)), s)
  | .perfectSquares =>
    -- `return nlinks_default += ..`, where the other cases have a plus
    let nlinks := wrap64 (s.nlinksDefault + squaresIncrement d s.nlinksConfig id1)
    (.ok nlinks, { s with nlinksDefault := nlinks })
  | .real => (.error (.runtime "Unknown mode: REAL"), s)

/-- An object that has served calls for these ids, in order. -/
def served (d : Doubles) (ids : List Int) (s : ArithLinkDistribution) : ArithLinkDistribution :=
  ids.foldl (fun s id1 => (s.getNlinks d id1).2) s

/-- The interface, as the object is now. "Don't shuffle: these methods already randomize order
by design". -/
def linkDistribution (d : Doubles) (s : ArithLinkDistribution) : LinkDistribution where
  getNlinks := fun id1 => (s.getNlinks d id1).1
  doShuffle := false

/-! ## One call -/

section

variable (d : Doubles) (id1 : Int) {s : ArithLinkDistribution}

/-- All but one mode leave the object alone. -/
theorem getNlinks_of_ne (h : s.mode ≠ .perfectSquares) : (s.getNlinks d id1).2 = s := by
  unfold getNlinks
  cases hmode : s.mode with
  | perfectSquares => exact absurd hmode h
  | multiples => dsimp only; split <;> rfl
  | real => rfl
  | const => rfl
  | reciprocal => rfl
  | exponential => rfl

theorem getNlinks_perfectSquares (h : s.mode = .perfectSquares) :
    s.getNlinks d id1 =
      (.ok (wrap64 (s.nlinksDefault + squaresIncrement d s.nlinksConfig id1)),
        { s with
          nlinksDefault := wrap64 (s.nlinksDefault + squaresIncrement d s.nlinksConfig id1) }) := by
  unfold getNlinks
  rw [h]

end

/-! ## Any number of calls -/

/-- What a history adds to `nlinks_default` in mode `PERFECT_SQUARES`. -/
def drift (d : Doubles) (nlinksConfig : Int) (ids : List Int) : Int :=
  (ids.map (squaresIncrement d nlinksConfig)).sum

theorem served_of_ne (d : Doubles) (ids : List Int) {s : ArithLinkDistribution}
    (h : s.mode ≠ .perfectSquares) : s.served d ids = s := by
  unfold served
  induction ids with
  | nil => rfl
  | cons id1 ids ih => rw [List.foldl_cons, getNlinks_of_ne d id1 h, ih]

/-- After a history the object is the old one but for `nlinks_default`, which has drifted. -/
theorem served_perfectSquares (d : Doubles) (ids : List Int) {s : ArithLinkDistribution}
    (h : s.mode = .perfectSquares) :
    ∃ n, s.served d ids = { s with nlinksDefault := n } ∧
      wrap64 n = wrap64 (s.nlinksDefault + drift d s.nlinksConfig ids) := by
  unfold served drift
  induction ids generalizing s with
  | nil => exact ⟨s.nlinksDefault, rfl, by simp⟩
  | cons id1 ids ih =>
    rw [List.foldl_cons, getNlinks_perfectSquares d id1 h]
    obtain ⟨n, hserved, hn⟩ := ih (s := { s with
      nlinksDefault := wrap64 (s.nlinksDefault + squaresIncrement d s.nlinksConfig id1) }) h
    refine ⟨n, hserved, ?_⟩
    have hsum : s.nlinksDefault + ((id1 :: ids).map (squaresIncrement d s.nlinksConfig)).sum =
        s.nlinksDefault + squaresIncrement d s.nlinksConfig id1 +
          (ids.map (squaresIncrement d s.nlinksConfig)).sum := by
      rw [List.map_cons, List.sum_cons, add_assoc]
    rw [hsum]
    exact hn.trans (wrap_add_wrap _)

/-- The answer for an id after a history. -/
theorem getNlinks_served (d : Doubles) (ids : List Int) (id1 : Int) {s : ArithLinkDistribution}
    (h : s.mode = .perfectSquares) :
    ((s.served d ids).getNlinks d id1).1 =
      .ok (wrap64 (s.nlinksDefault + squaresIncrement d s.nlinksConfig id1 +
        drift d s.nlinksConfig ids)) := by
  obtain ⟨n, hserved, hn⟩ := served_perfectSquares d ids h
  rw [hserved, getNlinks_perfectSquares d id1 (s := { s with nlinksDefault := n }) h]
  have hstep := wrap_add_wrap (w := 63) (x := n) (squaresIncrement d s.nlinksConfig id1)
  have hsum : s.nlinksDefault + drift d s.nlinksConfig ids + squaresIncrement d s.nlinksConfig id1 =
      s.nlinksDefault + squaresIncrement d s.nlinksConfig id1 + drift d s.nlinksConfig ids :=
    add_right_comm ..
  refine congrArg Except.ok (hstep.symm.trans ?_)
  rw [← hsum]
  exact (congrArg (fun x => wrap64 (x + squaresIncrement d s.nlinksConfig id1)) hn).trans
    (wrap_add_wrap _)

/-- **Answers do not depend on what was asked before** exactly where nothing has drifted
apart: the mode is another one, or the two histories add up to the same. -/
theorem getNlinks_history_iff (d : Doubles) (s : ArithLinkDistribution) (ids ids' : List Int) :
    (∀ id1, ((s.served d ids).getNlinks d id1).1 = ((s.served d ids').getNlinks d id1).1) ↔
      (s.mode = .perfectSquares →
        wrap64 (drift d s.nlinksConfig ids) = wrap64 (drift d s.nlinksConfig ids')) := by
  by_cases h : s.mode = .perfectSquares
  · have hanswer : ∀ ids id1, ((s.served d ids).getNlinks d id1).1 =
        .ok (wrap64 (s.nlinksDefault + squaresIncrement d s.nlinksConfig id1 +
          drift d s.nlinksConfig ids)) := fun ids id1 => getNlinks_served d ids id1 h
    simp only [hanswer, Except.ok.injEq, wrap_add_left_inj]
    exact ⟨fun hdrift _ => hdrift 0, fun hdrift _ => hdrift h⟩
  · refine iff_of_true (fun id1 => ?_) (fun hmode => absurd hmode h)
    rw [served_of_ne d ids h, served_of_ne d ids' h]

/-- The `double` expressions on positive numbers small enough to be exact. -/
def exact : Doubles where
  ceilDiv := fun n off => (n + off - 1) / off
  ceilLog := fun id1 b => ((List.range id1.toNat).findIdx fun k => id1.toNat ≤ b.toNat ^ k : Nat)
  ceilRoot := fun id1 k => ((List.range (id1.toNat + 1)).findIdx fun r => id1.toNat ≤ r ^ k.toNat : Nat)
  pow := fun a b => (a.toNat ^ b.toNat : Nat)

/-- The loader has asked for id 4 once; the requester asks it for the first time. -/
theorem perfect_square_counted_twice :
    ¬ ∀ (s : ArithLinkDistribution) (ids ids' : List Int) (id1 : Int),
      ((s.served exact ids).getNlinks exact id1).1 =
        ((s.served exact ids').getNlinks exact id1).1 := by
  intro h
  have hfour := h ⟨1, 100, .perfectSquares, 2, 0⟩ [4] [] 4
  have hagain : (((⟨1, 100, .perfectSquares, 2, 0⟩ : ArithLinkDistribution).served exact
      [4]).getNlinks exact 4).1 = .ok 6 := by decide
  have hfirst : (((⟨1, 100, .perfectSquares, 2, 0⟩ : ArithLinkDistribution).served exact
      []).getNlinks exact 4).1 = .ok 3 := by decide
  rw [hagain, hfirst] at hfour
  cases hfour

end ArithLinkDistribution

end LinkDistributions

end TokuQa.LinkBench
