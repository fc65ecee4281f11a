import TokuQa.LinkBench.OpChooser

/-!
# `ID2Chooser.chooseMultipleForOp`

A request for several links wants several id2s. Where the range of candidates is no larger than
their number the whole range is taken; elsewhere each is drawn again while it is one of those before
it, at most a hundred times.

A requester that keeps to its own residue class moves each candidate by `fixId2`. Drawn candidates
are compared after that. Those of a whole range are not compared at all, and all the candidates that
round to one multiple of `nrequesters` are moved to the same id2 (`chooseMultipleForOp_iff`).

The `k`-th number of the generator, for the bound it is asked with, is `nextInt k`.
-/

set_option autoImplicit false

namespace TokuQa.LinkBench

open TokuQa.Lib LinkDistributions

namespace OpChooser

/-- "How many times to try to find a unique id2". -/
def maxUniqIters : Nat := 100

/-- `calcID2Range`, for a probability of 0 too: `1 / 0` is infinite, and is no number times 0. -/
def id2Range (pExisting : ℚ) (nlinks : Int) : Int :=
  if pExisting = 0 then
    max 1 (if nlinks = 0 then 0 else if 0 < nlinks then 2 ^ 63 - 1 else -2 ^ 63)
  else calcID2Range pExisting nlinks

variable (c : OpChooser) (nextInt : Nat → Int → Int) (id1 range : Int)

/-- "Find a unique id2": the loop that may be repeated `left` times, after `k` numbers. -/
def uniqueId2 (id2s : List Int) : Nat → Nat → Except Exn (Int × Nat)
  | 0, k => do
    let id2 ← c.chooseForOpInternal (nextInt k) id1 range
    return (id2, k + 1)
  | left + 1, k => do
    let id2 ← c.chooseForOpInternal (nextInt k) id1 range
    if id2s.contains id2 then uniqueId2 id2s left (k + 1) else return (id2, k + 1)

/-- `n` more id2s. -/
def drawId2s : Nat → List Int → Nat → Except Exn (List Int)
  | 0, id2s, _ => return id2s
  | n + 1, id2s, k => do
    let (id2, k) ← c.uniqueId2 nextInt id1 range id2s maxUniqIters k
    drawId2s n (id2s ++ [id2]) k

/-- "Range is smaller than required # of ids, fill in all from range". -/
def fillId2s (nid2s : Nat) : List Int :=
  (List.range nid2s).map fun i : Nat =>
    let id2 := wrap64 (id1 + i)
    if c.id2genConfig = 1 then fixId2 id2 c.nrequesters c.requesterID c.randomid2max else id2

def chooseMultipleForOp (linkType : Int) (nid2s : Nat) (pExisting : ℚ) : Except Exn (List Int) := do
  let nlinks ← c.calcLinkCount id1 linkType
  let range := id2Range pExisting nlinks
  if range ≤ nid2s ∧ c.randomid2max = 0 then return c.fillId2s id1 nid2s
  else c.drawId2s nextInt id1 range nid2s [] 0

/-! ## What is drawn -/

section

variable {c nextInt id1 range} {id2s out : List Int} {left k k' n : Nat} {id2 : Int}

theorem uniqueId2_cases (h : c.uniqueId2 nextInt id1 range id2s left k = .ok (id2, k')) :
    ∃ j, c.chooseForOpInternal (nextInt j) id1 range = .ok id2 := by
  induction left generalizing k with
  | zero =>
    cases hdraw : c.chooseForOpInternal (nextInt k) id1 range with
    | error e => simp [uniqueId2, hdraw, bind, Except.bind] at h
    | ok x =>
      simp only [uniqueId2, hdraw, bind, Except.bind, pure, Except.pure, Except.ok.injEq,
        Prod.mk.injEq] at h
      exact ⟨k, by rw [hdraw, h.1]⟩
  | succ left ih =>
    cases hdraw : c.chooseForOpInternal (nextInt k) id1 range with
    | error e => simp [uniqueId2, hdraw, bind, Except.bind] at h
    | ok x =>
      simp only [uniqueId2, hdraw, bind, Except.bind, pure, Except.pure] at h
      split at h
      · exact ih h
      · rw [Except.ok.injEq, Prod.mk.injEq] at h
        exact ⟨k, by rw [hdraw, h.1]⟩

/-- Every id2 is one that was drawn. -/
theorem drawId2s_cases (h : c.drawId2s nextInt id1 range n id2s k = .ok out) :
    ∀ id2 ∈ out, id2 ∈ id2s ∨ ∃ j, c.chooseForOpInternal (nextInt j) id1 range = .ok id2 := by
  induction n generalizing id2s k with
  | zero =>
    cases h
    exact fun id2 hid2 => .inl hid2
  | succ n ih =>
    rw [drawId2s] at h
    cases hfirst : c.uniqueId2 nextInt id1 range id2s maxUniqIters k with
    | error e => simp [hfirst, bind, Except.bind] at h
    | ok r =>
      rw [hfirst] at h
      intro id2 hid2
      rcases ih h id2 hid2 with hmem | hdrawn
      · rcases List.mem_append.mp hmem with hold | hnew
        · exact .inl hold
        · rw [List.mem_singleton.mp hnew]
          exact .inr (uniqueId2_cases hfirst)
      · exact .inr hdrawn

/-- Where every draw is this one, so is every id2. -/
theorem drawId2s_of_const (h : ∀ j, c.chooseForOpInternal (nextInt j) id1 range = .ok id2)
    (n : Nat) (id2s : List Int) (k : Nat) :
    c.drawId2s nextInt id1 range n id2s k = .ok (id2s ++ List.replicate n id2) := by
  have hone : ∀ left id2s k, ∃ k', c.uniqueId2 nextInt id1 range id2s left k = .ok (id2, k') := by
    intro left
    induction left with
    | zero => exact fun id2s k => ⟨k + 1, by simp [uniqueId2, h, bind, Except.bind, pure, Except.pure]⟩
    | succ left ih =>
      intro id2s k
      simp only [uniqueId2, h, bind, Except.bind, pure, Except.pure]
      split
      · exact ih id2s (k + 1)
      · exact ⟨k + 1, rfl⟩
  induction n generalizing id2s k with
  | zero =>
    rw [List.replicate_zero, List.append_nil]
    rfl
  | succ n ih =>
    obtain ⟨k', hk'⟩ := hone maxUniqIters id2s k
    rw [drawId2s, hk']
    refine (ih (id2s ++ [id2]) k').trans ?_
    rw [List.append_assoc, List.singleton_append, List.replicate_succ]

end

/-! ## Rounding to a multiple -/

/-- What `fixId2` moves a candidate from: the next multiple in the direction of 0. -/
def rounded (nrequesters id2 : Int) : Int := id2 - id2.tmod nrequesters

/-- A multiple is between the id and the one after it, which is the smallest `long` behind the
largest one. -/
def Parted (nrequesters id2 : Int) : Prop :=
  id2 = 2 ^ 63 - 1 ∨ if 0 ≤ id2 then nrequesters ∣ id2 + 1 else nrequesters ∣ id2

section

variable {r x y : Int}

theorem rounded_eq (r x : Int) : rounded r x = r * x.tdiv r := by
  have hdiv := Int.mul_tdiv_add_tmod x r
  unfold rounded
  omega

theorem rounded_mono (hr : 0 < r) (h : x ≤ y) : rounded r x ≤ rounded r y := by
  rw [rounded_eq, rounded_eq]
  exact Int.mul_le_mul_of_nonneg_left (Int.tdiv_le_tdiv hr h) hr.le

theorem rounded_neg (r x : Int) : rounded r (-x) = -rounded r x := by
  unfold rounded
  rw [Int.neg_tmod]
  omega

/-- Rounding goes in the direction of 0, by less than a step. -/
theorem rounded_nonneg (hr : 0 < r) (hx : 0 ≤ x) :
    0 ≤ rounded r x ∧ rounded r x ≤ x ∧ x - r < rounded r x := by
  have hmod0 := Int.emod_nonneg x hr.ne'
  have hmodlt := Int.emod_lt_of_pos x hr
  have hdiv := Int.emod_add_mul_ediv x r
  have hquot := Int.mul_nonneg hr.le (Int.ediv_nonneg hx hr.le)
  unfold rounded
  rw [Int.tmod_eq_emod_of_nonneg hx]
  omega

theorem rounded_bounds (hr : 0 < r) (hx : -2 ^ 63 ≤ x) (hx' : x < 2 ^ 63) :
    -2 ^ 63 ≤ rounded r x ∧ rounded r x < 2 ^ 63 := by
  rcases le_total 0 x with h | h
  · have hpos := rounded_nonneg hr h
    omega
  · have hneg := rounded_nonneg (x := -x) hr (by omega)
    rw [rounded_neg] at hneg
    omega

theorem rounded_lt_succ_iff_of_nonneg (hr : 0 < r) (hx : 0 ≤ x) :
    rounded r x < rounded r (x + 1) ↔ r ∣ x + 1 := by
  unfold rounded
  rw [Int.tmod_eq_emod_of_nonneg hx, Int.tmod_eq_emod_of_nonneg (by omega)]
  have hmod0 := Int.emod_nonneg x hr.ne'
  have hmodlt := Int.emod_lt_of_pos x hr
  constructor
  · intro h
    by_contra hdvd
    have hne : x % r + 1 ≠ r := by
      intro heq
      refine hdvd ⟨x / r + 1, ?_⟩
      have hdiv := Int.emod_add_mul_ediv x r
      rw [Int.mul_add, Int.mul_one]
      omega
    have hsucc : (x + 1) % r = x % r + 1 := by
      rw [← Int.emod_add_emod, Int.emod_eq_of_lt (by omega) (by omega)]
    omega
  · intro hdvd
    have hzero : (x + 1) % r = 0 := Int.emod_eq_zero_of_dvd hdvd
    have hone : 0 ≤ x % r := hmod0
    omega

theorem rounded_lt_succ_iff (hr : 0 < r) :
    rounded r x < rounded r (x + 1) ↔ if 0 ≤ x then r ∣ x + 1 else r ∣ x := by
  split
  · rename_i hx
    exact rounded_lt_succ_iff_of_nonneg hr hx
  · rename_i hx
    -- below 0 it is the other way around
    have hmirror := rounded_lt_succ_iff_of_nonneg (x := -x - 1) hr (by omega)
    have hleft : -x - 1 = -(x + 1) := by omega
    rw [Int.sub_add_cancel, hleft, rounded_neg, rounded_neg, Int.dvd_neg] at hmirror
    rw [← hmirror]
    omega

theorem fixId2_eq_iff (hr : 0 < r) (requesterID : Int) (hx : -2 ^ 63 ≤ x ∧ x < 2 ^ 63)
    (hy : -2 ^ 63 ≤ y ∧ y < 2 ^ 63) :
    fixId2 x r requesterID 0 = fixId2 y r requesterID 0 ↔ rounded r x = rounded r y := by
  have hfix : ∀ z, fixId2 z r requesterID 0 = wrap64 (requesterID + rounded r z) := by
    intro z
    unfold fixId2 rounded
    rw [if_neg (by omega), Int.add_comm]
  have hbx := rounded_bounds hr hx.1 hx.2
  have hby := rounded_bounds hr hy.1 hy.2
  rw [hfix, hfix, wrap_add_left_inj]
  exact ⟨fun h => wrap_injective h (by omega), fun h => by rw [h]⟩

end

/-! ## Several id2s -/

/-- What `chooseMultipleForOp` is for. -/
structure Chosen (c : OpChooser) (id1 range : Int) (nid2s : Nat) (id2s : List Int) : Prop where
  inRange : c.id2genConfig = 0 → ∀ id2 ∈ id2s, id1 ≤ id2 ∧ id2 < id1 + max range nid2s
  distinct : range ≤ nid2s → id2s.Nodup

/-- It is done whatever is drawn, in every call that returns. -/
def ChoosesMultiple (c : OpChooser) (id1 linkType : Int) (nid2s : Nat) (pExisting : ℚ) : Prop :=
  ∀ nextInt : Nat → Int → Int, (∀ k, Draws (nextInt k)) → ∀ nlinks id2s,
    c.calcLinkCount id1 linkType = .ok nlinks →
    c.chooseMultipleForOp nextInt id1 linkType nid2s pExisting = .ok id2s →
    Chosen c id1 (id2Range pExisting nlinks) nid2s id2s

/-- The candidates that can be taken are ids behind `id1`, and a multiple of `nrequesters` is
between any two of those that are moved. -/
structure Spread (c : OpChooser) (id1 range : Int) (nid2s : Nat) : Prop where
  fits : c.id2genConfig = 0 → nid2s = 0 ∨
    if range ≤ nid2s then id1 + nid2s ≤ 2 ^ 63
    else wrap32 range ≤ 0 ∨ id1 + wrap32 range ≤ 2 ^ 63
  parted : c.id2genConfig = 1 → range ≤ nid2s →
    ∀ i : Nat, i + 1 < nid2s → Parted c.nrequesters (wrap64 (id1 + i))

section

variable {c : OpChooser} {id1 linkType range nlinks : Int} {nid2s : Nat} {pExisting : ℚ}

theorem id2Range_pos (pExisting : ℚ) (nlinks : Int) : 1 ≤ id2Range pExisting nlinks := by
  unfold id2Range calcID2Range
  split
  · exact le_max_left ..
  · exact le_max_left ..

theorem wrap32_le (h : 1 ≤ range) : wrap32 range ≤ range := by
  by_cases hsmall : range < 2 ^ 31
  · exact (wrap_eq_self (by omega) hsmall).le
  · have hlt : wrap32 range < 2 ^ 31 := wrap_lt 31 range
    omega

theorem wrap64_succ (x : Int) :
    wrap64 (x + 1) = if wrap64 x = 2 ^ 63 - 1 then -2 ^ 63 else wrap64 x + 1 := by
  have hlow : -2 ^ 63 ≤ wrap64 x := le_wrap 63 x
  have hhigh : wrap64 x < 2 ^ 63 := wrap_lt 63 x
  have hsucc : wrap64 (wrap64 x + 1) = wrap64 (x + 1) := wrap_add_wrap 1
  rw [← hsucc]
  split
  · rename_i h
    rw [h]
    decide
  · exact wrap_eq_self (by omega) (by omega)

theorem fillId2s_eq_zero (hcfg : c.id2genConfig = 0) :
    c.fillId2s id1 nid2s = (List.range nid2s).map fun i : Nat => wrap64 (id1 + i) := by
  unfold fillId2s
  rw [hcfg]
  rfl

theorem nodup_fillId2s_zero (hcfg : c.id2genConfig = 0) (hn : nid2s < 2 ^ 31) :
    (c.fillId2s id1 nid2s).Nodup := by
  rw [fillId2s_eq_zero hcfg]
  refine List.nodup_range.map_on fun i hi j hj heq => ?_
  rw [List.mem_range] at hi hj
  exact ID2Chooser.wrap64_add_injective id1 (by omega) (by omega) heq

/-- A candidate and a later one round to different multiples, if each does and the next. -/
theorem rounded_ne (hr : 1 ≤ c.nrequesters) (hr' : c.nrequesters < 2 ^ 31) (hn : nid2s < 2 ^ 31)
    (hid1 : -2 ^ 63 ≤ id1) (hid1' : id1 < 2 ^ 63)
    (h : ∀ i : Nat, i + 1 < nid2s → Parted c.nrequesters (wrap64 (id1 + i))) {i j : Nat} (hij : i < j)
    (hj : j < nid2s) :
    rounded c.nrequesters (wrap64 (id1 + i)) ≠ rounded c.nrequesters (wrap64 (id1 + j)) := by
  by_cases hover : id1 + i < 2 ^ 63 ∧ 2 ^ 63 ≤ id1 + j
  · -- the later one is among the smallest numbers, the earlier one among the largest
    have hi : wrap64 (id1 + i) = id1 + i := wrap_eq_self (by omega) hover.1
    have hj' : wrap64 (id1 + j) = id1 + j - 2 * 2 ^ 63 := wrap_of_overflow hover.2 (by omega)
    have hpos := rounded_nonneg (r := c.nrequesters) (x := id1 + i) (by omega) (by omega)
    have hneg :=
      rounded_nonneg (r := c.nrequesters) (x := -(id1 + j - 2 * 2 ^ 63)) (by omega) (by omega)
    rw [rounded_neg] at hneg
    rw [hi, hj']
    omega
  · have hstep : ∃ x : Int, wrap64 (id1 + i) = x ∧ x ≠ 2 ^ 63 - 1 ∧ x + 1 ≤ wrap64 (id1 + j) := by
      by_cases hsmall : id1 + j < 2 ^ 63
      · have hi : wrap64 (id1 + i) = id1 + i := wrap_eq_self (by omega) (by omega)
        have hj' : wrap64 (id1 + j) = id1 + j := wrap_eq_self (by omega) hsmall
        exact ⟨_, hi, by omega, by omega⟩
      · have hi : wrap64 (id1 + i) = id1 + i - 2 * 2 ^ 63 := wrap_of_overflow (by omega) (by omega)
        have hj' : wrap64 (id1 + j) = id1 + j - 2 * 2 ^ 63 := wrap_of_overflow (by omega) (by omega)
        exact ⟨_, hi, by omega, by omega⟩
    obtain ⟨x, hx, hne, hle⟩ := hstep
    have hparted := (h i (by omega)).resolve_left (hx ▸ hne)
    rw [hx] at hparted ⊢
    have hlt := (rounded_lt_succ_iff (by omega)).mpr hparted
    have hmono := rounded_mono (r := c.nrequesters) (by omega) hle
    omega

theorem nodup_fillId2s_one_iff (hmax : c.randomid2max = 0) (hcfg : c.id2genConfig = 1)
    (hr : 1 ≤ c.nrequesters) (hr' : c.nrequesters < 2 ^ 31) (hn : nid2s < 2 ^ 31)
    (hid1 : -2 ^ 63 ≤ id1) (hid1' : id1 < 2 ^ 63) :
    (c.fillId2s id1 nid2s).Nodup ↔
      ∀ i : Nat, i + 1 < nid2s → Parted c.nrequesters (wrap64 (id1 + i)) := by
  have hlong : ∀ i : Nat, -2 ^ 63 ≤ wrap64 (id1 + i) ∧ wrap64 (id1 + i) < 2 ^ 63 := fun i =>
    ⟨le_wrap 63 _, wrap_lt 63 _⟩
  have hfill : c.fillId2s id1 nid2s = (List.range nid2s).map fun i : Nat =>
      fixId2 (wrap64 (id1 + i)) c.nrequesters c.requesterID 0 := by
    unfold fillId2s
    rw [hcfg, hmax]
    rfl
  rw [hfill, List.nodup_map_iff_inj_on List.nodup_range]
  constructor
  · intro hinj i hi
    have hne : fixId2 (wrap64 (id1 + i)) c.nrequesters c.requesterID 0 ≠
        fixId2 (wrap64 (id1 + (i + 1 : Nat))) c.nrequesters c.requesterID 0 := fun heq => by
      have := hinj i (List.mem_range.mpr (by omega)) (i + 1) (List.mem_range.mpr hi) heq
      omega
    rw [Ne, fixId2_eq_iff (by omega) _ (hlong i) (hlong (i + 1)), Nat.cast_succ, ← Int.add_assoc,
      wrap64_succ] at hne
    by_cases hlast : wrap64 (id1 + i) = 2 ^ 63 - 1
    · exact .inl hlast
    · rw [if_neg hlast] at hne
      have hmono := rounded_mono (r := c.nrequesters) (by omega)
        (Int.le_add_one (le_refl (wrap64 (id1 + i))))
      exact .inr ((rounded_lt_succ_iff (by omega)).mp (lt_of_le_of_ne hmono hne))
  · intro hparted i hi j hj heq
    rw [List.mem_range] at hi hj
    rw [fixId2_eq_iff (by omega) _ (hlong i) (hlong j)] at heq
    rcases lt_trichotomy i j with hlt | rfl | hlt
    · exact absurd heq (rounded_ne hr hr' hn hid1 hid1' hparted hlt hj)
    · rfl
    · exact absurd heq.symm (rounded_ne hr hr' hn hid1 hid1' hparted hlt hi)

theorem chooseForOpInternal_zero (hmax : c.randomid2max = 0) (hcfg : c.id2genConfig = 0)
    (hrange : 1 ≤ range) (nextInt : Int → Int) :
    c.chooseForOpInternal nextInt id1 range =
      if wrap32 range ≤ 0 then .error .illegalArgument
      else .ok (wrap64 (id1 + nextInt (wrap32 range))) := by
  unfold chooseForOpInternal draw
  rw [if_neg (by omega), if_pos hmax, hcfg]
  split <;> rfl

theorem chooseMultipleForOp_eq (hmax : c.randomid2max = 0)
    (hcount : c.calcLinkCount id1 linkType = .ok nlinks) (nextInt : Nat → Int → Int) :
    c.chooseMultipleForOp nextInt id1 linkType nid2s pExisting =
      if id2Range pExisting nlinks ≤ nid2s then .ok (c.fillId2s id1 nid2s)
      else c.drawId2s nextInt id1 (id2Range pExisting nlinks) nid2s [] 0 := by
  unfold chooseMultipleForOp
  rw [hcount]
  simp only [hmax, and_true, bind, Except.bind, pure, Except.pure]

/-- The whole range, in the mode that moves nothing. -/
theorem fillId2s_inRange_iff (hcfg : c.id2genConfig = 0) (hn : nid2s < 2 ^ 31)
    (hid1 : -2 ^ 63 ≤ id1) (hid1' : id1 < 2 ^ 63) (hrange : range ≤ nid2s) :
    (∀ id2 ∈ c.fillId2s id1 nid2s, id1 ≤ id2 ∧ id2 < id1 + max range nid2s) ↔
      nid2s = 0 ∨ id1 + nid2s ≤ 2 ^ 63 := by
  rw [fillId2s_eq_zero hcfg, max_eq_right hrange]
  constructor
  · intro h
    by_contra hover
    have hlast := h (wrap64 (id1 + (nid2s - 1 : Nat)))
      (List.mem_map.mpr ⟨nid2s - 1, List.mem_range.mpr (by omega), rfl⟩)
    rw [show wrap64 (id1 + (nid2s - 1 : Nat)) = id1 + (nid2s - 1 : Nat) - 2 * 2 ^ 63 from
      wrap_of_overflow (by omega) (by omega)] at hlast
    omega
  · rintro h id2 hid2
    obtain ⟨i, hi, rfl⟩ := List.mem_map.mp hid2
    rw [List.mem_range] at hi
    rw [show wrap64 (id1 + i) = id1 + i from wrap_eq_self (by omega) (by omega)]
    omega

/-- What is drawn, in the mode that moves nothing. -/
theorem drawId2s_inRange_iff (hmax : c.randomid2max = 0) (hcfg : c.id2genConfig = 0)
    (hid1 : -2 ^ 63 ≤ id1) (hid1' : id1 < 2 ^ 63) (hrange : (nid2s : Int) < range)
    (hpos : 1 ≤ range) :
    (∀ nextInt : Nat → Int → Int, (∀ k, Draws (nextInt k)) → ∀ id2s,
      c.drawId2s nextInt id1 range nid2s [] 0 = .ok id2s →
      ∀ id2 ∈ id2s, id1 ≤ id2 ∧ id2 < id1 + max range nid2s) ↔
    nid2s = 0 ∨ wrap32 range ≤ 0 ∨ id1 + wrap32 range ≤ 2 ^ 63 := by
  have hle := wrap32_le hpos
  have hlt : wrap32 range < 2 ^ 31 := wrap_lt 31 range
  rw [max_eq_left hrange.le]
  constructor
  · intro h
    by_contra hover
    simp only [not_or, not_le] at hover
    obtain ⟨hn, hbound, hout⟩ := hover
    -- the largest number is drawn every time
    have hdraws : ∀ k : Nat, Draws ((fun _ b => b - 1 : Nat → Int → Int) k) := fun k b hb => by
      dsimp only
      omega
    have hone : ∀ k, c.chooseForOpInternal ((fun _ b => b - 1 : Nat → Int → Int) k) id1 range =
        .ok (wrap64 (id1 + (wrap32 range - 1))) := fun k => by
      rw [chooseForOpInternal_zero hmax hcfg hpos, if_neg (by omega)]
    have hall := h _ hdraws _ (drawId2s_of_const hone nid2s [] 0)
      (wrap64 (id1 + (wrap32 range - 1))) (by simp [hn])
    rw [show wrap64 (id1 + (wrap32 range - 1)) = id1 + (wrap32 range - 1) - 2 * 2 ^ 63 from
      wrap_of_overflow (by omega) (by omega)] at hall
    omega
  · intro h nextInt hdraws id2s hid2s id2 hmem
    rcases drawId2s_cases hid2s id2 hmem with hnil | ⟨k, hk⟩
    · exact absurd hnil List.not_mem_nil
    · rw [chooseForOpInternal_zero hmax hcfg hpos] at hk
      split at hk
      · cases hk
      · rename_i hbound
        obtain rfl := Except.ok.inj hk
        have hdraw := hdraws k (wrap32 range) (by omega)
        rcases h with hn | hfits
        · subst hn
          cases hid2s
          exact absurd hmem List.not_mem_nil
        · rw [show wrap64 (id1 + nextInt k (wrap32 range)) = id1 + nextInt k (wrap32 range) from
            wrap_eq_self (by omega) (by omega)]
          omega

/-- **Several id2s are candidates, and distinct**, exactly where the candidates are spread. -/
theorem chooseMultipleForOp_iff (hmax : c.randomid2max = 0)
    (hcfg : c.id2genConfig = 0 ∨ c.id2genConfig = 1) (hr : 1 ≤ c.nrequesters)
    (hr' : c.nrequesters < 2 ^ 31) (hn : nid2s < 2 ^ 31) (hid1 : -2 ^ 63 ≤ id1)
    (hid1' : id1 < 2 ^ 63) :
    ChoosesMultiple c id1 linkType nid2s pExisting ↔
      ∀ nlinks, c.calcLinkCount id1 linkType = .ok nlinks →
        Spread c id1 (id2Range pExisting nlinks) nid2s := by
  have hdraws : ∀ k : Nat, Draws ((fun _ _ => 0 : Nat → Int → Int) k) := fun k b hb =>
    ⟨le_refl 0, hb⟩
  constructor
  · intro h nlinks hcount
    have hcall := fun nextInt hdraws id2s => h nextInt hdraws nlinks id2s hcount
    simp only [chooseMultipleForOp_eq hmax hcount] at hcall
    by_cases hrange : id2Range pExisting nlinks ≤ nid2s
    · simp only [if_pos hrange] at hcall
      have hchosen := hcall _ hdraws _ rfl
      refine ⟨fun hzero => ?_, fun hone _ => ?_⟩
      · rw [if_pos hrange]
        exact (fillId2s_inRange_iff hzero hn hid1 hid1' hrange).mp (hchosen.inRange hzero)
      · exact (nodup_fillId2s_one_iff hmax hone hr hr' hn hid1 hid1').mp (hchosen.distinct hrange)
    · simp only [if_neg hrange] at hcall
      refine ⟨fun hzero => ?_, fun _ hle => absurd hle hrange⟩
      rw [if_neg hrange]
      exact (drawId2s_inRange_iff hmax hzero hid1 hid1' (by omega) (id2Range_pos ..)).mp
        fun nextInt hdraws id2s hid2s => (hcall nextInt hdraws id2s hid2s).inRange hzero
  · intro h nextInt hdraws nlinks id2s hcount hcall
    have hspread := h nlinks hcount
    rw [chooseMultipleForOp_eq hmax hcount] at hcall
    by_cases hrange : id2Range pExisting nlinks ≤ nid2s
    · rw [if_pos hrange, Except.ok.injEq] at hcall
      subst hcall
      refine ⟨fun hzero => ?_, fun _ => ?_⟩
      · have hfits := hspread.fits hzero
        rw [if_pos hrange] at hfits
        exact (fillId2s_inRange_iff hzero hn hid1 hid1' hrange).mpr hfits
      · rcases hcfg with hzero | hone
        · exact nodup_fillId2s_zero hzero hn
        · exact (nodup_fillId2s_one_iff hmax hone hr hr' hn hid1 hid1').mpr
            (hspread.parted hone hrange)
    · rw [if_neg hrange] at hcall
      refine ⟨fun hzero => ?_, fun hle => absurd hle hrange⟩
      have hfits := hspread.fits hzero
      rw [if_neg hrange] at hfits
      exact (drawId2s_inRange_iff hmax hzero hid1 hid1' (by omega) (id2Range_pos ..)).mpr hfits
        nextInt hdraws id2s hcall

end

/-- The requester 0 of two, for an id with one link. -/
def ofTwoRequesters : OpChooser :=
  { ofConst 1 1 with startid1 := 1, maxid1 := 100, id2genConfig := 1, nrequesters := 2 }

/-- A multiple of 2 is between 1 and 2. -/
theorem chooseMultipleForOp_two_requesters :
    ChoosesMultiple ofTwoRequesters 1 defaultLinkType 2 pGetExist ↔
      ∀ nlinks, ofTwoRequesters.calcLinkCount 1 defaultLinkType = .ok nlinks →
        Spread ofTwoRequesters 1 (id2Range pGetExist nlinks) 2 :=
  chooseMultipleForOp_iff rfl (.inr rfl) (by decide) (by decide) (by decide) (by decide) (by decide)

/-- The candidates 2 and 3 are both moved to 2. -/
theorem two_candidates_one_id2 : ¬ ChoosesMultiple ofTwoRequesters 2 defaultLinkType 2 pGetExist := by
  intro h
  have hcall : ofTwoRequesters.chooseMultipleForOp (fun _ _ => 0) 2 defaultLinkType 2 pGetExist =
      .ok [2, 2] := by decide +kernel
  have hchosen := h _ (fun k b hb => ⟨le_refl 0, hb⟩) 1 [2, 2] (by decide) hcall
  have hdistinct := hchosen.distinct (by decide +kernel)
  revert hdistinct
  decide

end OpChooser

end TokuQa.LinkBench
