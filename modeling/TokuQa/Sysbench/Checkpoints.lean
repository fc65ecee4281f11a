import Mathlib.Data.Finset.Card
import Mathlib.Data.List.TakeWhile
import TokuQa.Lib.Fallible
import TokuQa.Lib.JavaInt
import TokuQa.Lib.Qsort
import TokuQa.Sysbench.FileIo

/-!
# The checkpoint reports of `sysbench.c`

`init` reads the list of `--report-checkpoints` and sorts it, and `checkpoints_thread_proc` goes
through the array: it sleeps until the time of a checkpoint and prints a report, and passes over
the checkpoints that are not in the future any more.

The comparison subtracts `unsigned` values and looks at the difference as an `int`, so it is
wrong about values that are `2 ^ 31` or more apart. And the pause, in microseconds, goes through
a `useconds_t` of 32 bits: a pause of more than 71 minutes is cut short, and the report comes too
early. As there are no more than 256 checkpoints, a list without such a pause does not get to
the values that are compared wrongly (`works_iff`).

What the clock does is given by the delays of a round: the time that passes before the checkpoint
is looked at, and the time that `usleep` takes more than it was asked to. The clock of a test does
not reach `2 ^ 64` nanoseconds.
-/

set_option autoImplicit false

namespace TokuQa.Sysbench.Checkpoints

open TokuQa.Lib
open FileIo (Failure)

/-! ## The list -/

/-- `isspace`. -/
def isSpace (c : Char) : Bool := c = ' ' || (9 ≤ c.toNat && c.toNat ≤ 13)

/-- `strtol(s, &endptr, 10)`: the number, and what is left at `endptr`. -/
def strtol (s : List Char) : Int × List Char :=
  let body := s.dropWhile isSpace
  let negative := body.head? = some '-'
  let body := if body.head? = some '-' ∨ body.head? = some '+' then body.drop 1 else body
  let digits := body.takeWhile Char.isDigit
  if digits = [] then (0, s)
  else
    let n : Int := Nat.ofDigitChars 10 digits 0
    (max (-2 ^ 63) (min (2 ^ 63 - 1) (if negative then -n else n)), body.dropWhile Char.isDigit)

/-- `MAX_CHECKPOINTS`. -/
def maxCheckpoints : Nat := 256

/-- `UINT_MAX`. -/
def uintMax : Int := 2 ^ 32 - 1

/-- The loop over the values, after some checkpoints. -/
def parseCheckpoints : List Nat → List (List Char) → Except Failure (List Nat)
  | checkpoints, [] => .ok checkpoints
  | checkpoints, data :: rest =>
    let res := (strtol data).1
    let endptr := (strtol data).2
    if endptr ≠ [] ∨ res < 0 ∨ uintMax < res then
      .error (.fatal "Invalid value for --report-checkpoints: '%s'" [.str (String.ofList data)])
    else if maxCheckpoints < checkpoints.length + 1 then
      .error (.fatal "Too many checkpoints in --report-checkpoints (up to %d can be defined)"
        [.int maxCheckpoints])
    else parseCheckpoints (checkpoints ++ [res.toNat]) rest

/-- `(int) (a - b)`. -/
def checkpointCmp (a b : Nat) : Int := wrap32 (((a : Int) - b) % 2 ^ 32)

/-- What `init` does with the array. -/
def sortCheckpoints (sort : (Nat → Nat → Int) → List Nat → List Nat) (checkpoints : List Nat) :
    List Nat :=
  if 0 < checkpoints.length then sort checkpointCmp checkpoints else checkpoints

/-- What `init` does with the option. -/
def initCheckpoints (sort : (Nat → Nat → Int) → List Nat → List Nat) (values : List (List Char)) :
    Except Failure (List Nat) :=
  (parseCheckpoints [] values).map (sortCheckpoints sort)

/-! ## The thread -/

/-- `SEC2NS`, an `unsigned long long`. -/
def sec2ns (sec : Nat) : Nat := sec * 1000000000 % 2 ^ 64

/-- The argument of `usleep`, for a pause in nanoseconds. -/
def usleepArg (pause : Nat) : Nat := pause / 1000 % 2 ^ 32

/-- The nanoseconds before a checkpoint is looked at, and those of a sleep that were not asked
for. -/
structure Delay where
  before : Nat
  oversleep : Nat

/-- A round of the loop: the checkpoint, the time when it is looked at, and the time of the
report, if there is one. -/
structure Visit where
  checkpoint : Nat
  curr : Nat
  report : Option Nat
deriving DecidableEq

/-- `checkpoints_thread_proc`, from some time on, for the checkpoints that are left. -/
def checkpointsThreadProc (now : Nat) : List (Nat × Delay) → List Visit
  | [] => []
  | (checkpoint, delay) :: rest =>
    let curr := now + delay.before
    if sec2ns checkpoint ≤ curr then
      ⟨checkpoint, curr, none⟩ :: checkpointsThreadProc curr rest
    else
      let woke := curr + usleepArg (sec2ns checkpoint - curr) * 1000 + delay.oversleep
      ⟨checkpoint, curr, some woke⟩ :: checkpointsThreadProc woke rest

/-- The checkpoints that are reported, with the times of their reports. -/
def reports (visits : List Visit) : List (Nat × Nat) :=
  visits.filterMap fun v => v.report.map fun time => (v.checkpoint, time)

/-! ## What they should do -/

/-- **Reports in order**: one for each checkpoint that is still in the future when it is looked
at, in ascending order, and none of them a microsecond too early. -/
structure InOrder (visits : List Visit) : Prop where
  once : ∀ v ∈ visits, v.report.isSome ↔ v.curr < sec2ns v.checkpoint
  ascending : (reports visits).Pairwise fun r r' => r.1 ≤ r'.1
  onTime : ∀ r ∈ reports visits, sec2ns r.1 < r.2 + 1000

/-- **The checkpoints work**: the comparison is that of the numbers, the array is sorted, and the
reports are in order whatever the delays. -/
structure Works (sort : (Nat → Nat → Int) → List Nat → List Nat) (checkpoints : List Nat) :
    Prop where
  consistent : Consistent checkpointCmp checkpoints
  order : SignOf checkpointCmp checkpoints
  perm : (sortCheckpoints sort checkpoints).Perm checkpoints
  sorted : (sortCheckpoints sort checkpoints).Pairwise (· ≤ ·)
  reports : ∀ run : List (Nat × Delay), run.map Prod.fst = sortCheckpoints sort checkpoints →
    InOrder (checkpointsThreadProc 0 run)

/-- A list that `init` accepts. -/
structure Accepted (checkpoints : List Nat) : Prop where
  length : checkpoints.length ≤ maxCheckpoints
  values : ∀ c ∈ checkpoints, c < 2 ^ 32

/-- **When they work**: every checkpoint but zero comes less than `2 ^ 32` microseconds, that is
4295 seconds, after another one or the start. -/
def Spaced (checkpoints : List Nat) : Prop :=
  ∀ c ∈ checkpoints, 0 < c → ∃ d ∈ 0 :: checkpoints, d < c ∧ (c - d) * 1000000 < 2 ^ 32

/-! ## The values -/

/-- The digits of a number are read as the number. -/
theorem strtol_toDigits {n : Nat} (hn : n < 2 ^ 32) :
    strtol (Nat.toDigits 10 n) = ((n : Int), []) := by
  have hdigit : ∀ c ∈ Nat.toDigits 10 n, c.isDigit = true := fun c hc =>
    Nat.isDigit_of_mem_toDigits (by decide) (by decide) hc
  obtain ⟨first, rest, hcons⟩ : ∃ first rest, Nat.toDigits 10 n = first :: rest :=
    List.exists_cons_of_ne_nil Nat.toDigits_ne_nil
  have hfirst : first.isDigit = true := hdigit first (by simp [hcons])
  have hspace : isSpace first = false := by
    by_contra hspace
    rw [Bool.not_eq_false, isSpace, Bool.or_eq_true, decide_eq_true_eq] at hspace
    rw [Char.isDigit_iff_toNat] at hfirst
    obtain rfl | hcontrol := hspace
    · exact absurd hfirst (by decide)
    · simp only [Bool.and_eq_true, decide_eq_true_eq] at hcontrol
      exact absurd (hfirst.1.trans hcontrol.2) (by decide)
  have hsign : ¬ ((first :: rest).head? = some '-' ∨ (first :: rest).head? = some '+') := by
    rintro (h | h) <;> cases h <;> exact absurd hfirst (by decide)
  have htake : (first :: rest).takeWhile Char.isDigit = first :: rest :=
    List.takeWhile_eq_self_iff.mpr (hcons ▸ hdigit)
  have hdrop : (first :: rest).dropWhile Char.isDigit = [] :=
    List.dropWhile_eq_nil_iff.mpr (hcons ▸ hdigit)
  have hvalue : Nat.ofDigitChars 10 (first :: rest) 0 = n := by
    rw [← hcons, Nat.ofDigitChars_ten_toDigits]
  rw [hcons, strtol]
  simp only [List.dropWhile_cons_of_neg (by simp [hspace] : ¬ isSpace first = true), if_neg hsign,
    htake, hdrop, hvalue]
  rw [if_neg (by simp), if_neg fun h => hsign (.inl h)]
  refine Prod.ext ?_ rfl
  dsimp only
  omega

theorem accepted_of_parse {done checkpoints : List Nat} {values : List (List Char)}
    (hdone : Accepted done) (h : parseCheckpoints done values = .ok checkpoints) :
    Accepted checkpoints := by
  induction values generalizing done with
  | nil =>
    cases h
    exact hdone
  | cons data rest ih =>
    rw [parseCheckpoints] at h
    by_cases hvalid : (strtol data).2 ≠ [] ∨ (strtol data).1 < 0 ∨ uintMax < (strtol data).1
    · rw [if_pos hvalid] at h
      cases h
    · by_cases hroom : maxCheckpoints < done.length + 1
      · rw [if_neg hvalid, if_pos hroom] at h
        cases h
      · rw [if_neg hvalid, if_neg hroom] at h
        refine ih ⟨?_, fun c hc => ?_⟩ h
        · rw [List.length_append, List.length_singleton]
          exact not_lt.mp hroom
        · rcases List.mem_append.mp hc with hold | hnew
          · exact hdone.values c hold
          · rw [List.mem_singleton.mp hnew]
            simp only [uintMax] at hvalid
            omega

theorem parse_digits {done checkpoints : List Nat} (h : Accepted (done ++ checkpoints)) :
    parseCheckpoints done (checkpoints.map (Nat.toDigits 10)) = .ok (done ++ checkpoints) := by
  induction checkpoints generalizing done with
  | nil => rw [List.append_nil, List.map_nil, parseCheckpoints]
  | cons c checkpoints ih =>
    have hc : c < 2 ^ 32 := h.values c (by simp)
    have hlength := h.length
    rw [List.length_append, List.length_cons] at hlength
    have hvalid : ¬ (([] : List Char) ≠ [] ∨ (c : Int) < 0 ∨ uintMax < c) := by
      rintro (hrest | hrange)
      · exact hrest rfl
      · rw [uintMax] at hrange
        omega
    have hroom : ¬ maxCheckpoints < done.length + 1 := by omega
    rw [← List.singleton_append, ← List.append_assoc] at h ⊢
    rw [List.map_append, List.map_singleton, List.singleton_append, parseCheckpoints,
      strtol_toDigits hc]
    dsimp only
    rw [if_neg hvalid, if_neg hroom, Int.toNat_natCast]
    exact ih h

/-- **The lists that `init` accepts** are all that are not too long, of values that fit. -/
theorem accepted_iff {checkpoints : List Nat} :
    Accepted checkpoints ↔ ∃ values, parseCheckpoints [] values = .ok checkpoints :=
  ⟨fun h => ⟨_, parse_digits h⟩, fun ⟨_, h⟩ =>
    accepted_of_parse ⟨Nat.zero_le _, List.forall_mem_nil _⟩ h⟩

/-- What `init` leaves in the array, of such a list. -/
theorem initCheckpoints_digits (sort : (Nat → Nat → Int) → List Nat → List Nat)
    {checkpoints : List Nat} (h : Accepted checkpoints) :
    initCheckpoints sort (checkpoints.map (Nat.toDigits 10)) =
      .ok (sortCheckpoints sort checkpoints) := by
  have hparse : parseCheckpoints [] (checkpoints.map (Nat.toDigits 10)) = .ok checkpoints :=
    parse_digits h
  rw [initCheckpoints, hparse]
  rfl

/-! ## The comparison -/

section

variable {checkpoints : List Nat} {a b c : Nat}

theorem checkpointCmp_eq (a b : Nat) : checkpointCmp a b = wrap32 ((a : Int) - b) :=
  wrap_emod 31 _

/-- **The comparison is right** about values less than `2 ^ 31` apart, and wrong about others. -/
theorem signOf_iff (hvalues : ∀ c ∈ checkpoints, c < 2 ^ 32) :
    SignOf checkpointCmp checkpoints ↔ ∀ a ∈ checkpoints, ∀ b ∈ checkpoints, a < b + 2 ^ 31 := by
  constructor
  · intro h a ha b hb
    by_contra hfar
    have hlt := hvalues a ha
    have hwrap : wrap32 ((a : Int) - b) = (a : Int) - b - 2 * 2 ^ 31 :=
      wrap_of_overflow (by omega) (by omega)
    have hsign := (h a ha b hb).1
    rw [checkpointCmp_eq, hwrap] at hsign
    omega
  · intro h a ha b hb
    have hab := h a ha b hb
    have hba := h b hb a ha
    have hwrap : wrap32 ((a : Int) - b) = (a : Int) - b := wrap_eq_self (by omega) (by omega)
    rw [checkpointCmp_eq, hwrap]
    omega

/-- With so little between them, few checkpoints do not get far. The count is of the checkpoints
up to one, without repetitions. -/
theorem Spaced.le_count (h : Spaced checkpoints) (hc : c ∈ checkpoints) :
    c ≤ 4294 * (checkpoints.toFinset.filter (· ≤ c)).card := by
  induction c using Nat.strong_induction_on with
  | _ c ih =>
    have hself : c ∈ checkpoints.toFinset.filter (· ≤ c) :=
      Finset.mem_filter.mpr ⟨List.mem_toFinset.mpr hc, le_rfl⟩
    have hpos : 0 < (checkpoints.toFinset.filter (· ≤ c)).card := Finset.card_pos.mpr ⟨c, hself⟩
    rcases Nat.eq_zero_or_pos c with hzero | hcpos
    · omega
    · obtain ⟨d, hd, hdc, hgap⟩ := h c hc hcpos
      rcases List.mem_cons.mp hd with rfl | hd
      · omega
      · have hfewer : (checkpoints.toFinset.filter (· ≤ d)).card <
            (checkpoints.toFinset.filter (· ≤ c)).card := by
          refine Finset.card_lt_card (Finset.ssubset_iff_of_subset ?_ |>.mpr ⟨c, hself, ?_⟩)
          · exact Finset.monotone_filter_right _ fun x _ hx => le_trans hx hdc.le
          · exact fun hmem => absurd (Finset.mem_filter.mp hmem).2 (not_le.mpr hdc)
        have hle := ih d hdc hd
        omega

theorem Spaced.near (h : Spaced checkpoints) (hlength : checkpoints.length ≤ maxCheckpoints)
    (ha : a ∈ checkpoints) : a < 2 ^ 31 := by
  have hle := h.le_count ha
  have hcard : (checkpoints.toFinset.filter (· ≤ a)).card ≤ maxCheckpoints :=
    (Finset.card_filter_le _ _).trans ((List.toFinset_card_le _).trans hlength)
  rw [maxCheckpoints] at hcard
  omega

/-! ## The reports -/

theorem sec2ns_eq (hc : c < 2 ^ 32) : sec2ns c = c * 1000000000 :=
  Nat.mod_eq_of_lt (by omega)

theorem usleepArg_eq {pause : Nat} (h : pause / 1000 < 2 ^ 32) : usleepArg pause = pause / 1000 :=
  Nat.mod_eq_of_lt h

/-- A round with a report, by its two times. -/
theorem thread_future {now curr woke : Nat} {delay : Delay} {rest : List (Nat × Delay)}
    (hcurr : curr = now + delay.before)
    (hwoke : woke = curr + usleepArg (sec2ns c - curr) * 1000 + delay.oversleep)
    (h : curr < sec2ns c) : checkpointsThreadProc now ((c, delay) :: rest) =
      ⟨c, curr, some woke⟩ :: checkpointsThreadProc woke rest := by
  subst hcurr hwoke
  exact if_neg (not_le.mpr h)

/-- A report is asked for exactly when the checkpoint is in the future. -/
theorem report_iff (now : Nat) (run : List (Nat × Delay)) :
    ∀ v ∈ checkpointsThreadProc now run, v.report.isSome ↔ v.curr < sec2ns v.checkpoint := by
  induction run generalizing now with
  | nil => exact List.forall_mem_nil _
  | cons head rest ih =>
    obtain ⟨checkpoint, delay⟩ := head
    by_cases hpast : sec2ns checkpoint ≤ now + delay.before
    · rw [checkpointsThreadProc, if_pos hpast]
      exact List.forall_mem_cons.mpr
        ⟨iff_of_false Bool.false_ne_true (not_lt.mpr hpast), ih _⟩
    · rw [checkpointsThreadProc, if_neg hpast]
      exact List.forall_mem_cons.mpr ⟨iff_of_true rfl (not_le.mp hpast), ih _⟩

/-- Reports come in the order of the array. -/
theorem reports_sublist (now : Nat) (run : List (Nat × Delay)) :
    ((reports (checkpointsThreadProc now run)).map Prod.fst).Sublist (run.map Prod.fst) := by
  induction run generalizing now with
  | nil => exact List.Sublist.refl _
  | cons head rest ih =>
    obtain ⟨checkpoint, delay⟩ := head
    by_cases hpast : sec2ns checkpoint ≤ now + delay.before
    · rw [checkpointsThreadProc, if_pos hpast]
      exact (ih _).cons _
    · rw [checkpointsThreadProc, if_neg hpast]
      exact (ih _).cons_cons _

/-- Less than a microsecond is lost. -/
theorem lt_wake {curr next : Nat} (h : curr < next) :
    next < curr + (next - curr) / 1000 * 1000 + 1000 := by
  omega

/-- **A short pause is not cut**: if there is little time since a checkpoint that has passed, the
thread wakes up when it should. -/
theorem pause_short {d curr : Nat} (hd : d < 2 ^ 32) (hc : c < 2 ^ 32) (hdc : d < c)
    (hgap : (c - d) * 1000000 < 2 ^ 32) (hpassed : sec2ns d < curr + 1000)
    (hfuture : curr < sec2ns c) :
    sec2ns c < curr + usleepArg (sec2ns c - curr) * 1000 + 1000 := by
  rw [sec2ns_eq hd] at hpassed
  rw [sec2ns_eq hc] at hfuture ⊢
  have hmicros : (c * 1000000000 - curr) / 1000 < 2 ^ 32 := by omega
  rw [usleepArg_eq hmicros]
  exact lt_wake hfuture

/-- In a sorted array the checkpoint that comes shortly before one has been dealt with, unless it
is the start. -/
theorem passed_before {done later : List Nat} {now : Nat}
    (hvalues : ∀ d ∈ done ++ c :: later, d < 2 ^ 32)
    (hsorted : (done ++ c :: later).Pairwise (· ≤ ·)) (hspaced : Spaced (done ++ c :: later))
    (hdone : ∀ d ∈ done, sec2ns d < now + 1000) (hpos : 0 < c) :
    ∃ d < c, (c - d) * 1000000 < 2 ^ 32 ∧ d < 2 ^ 32 ∧ sec2ns d < now + 1000 := by
  obtain ⟨d, hd, hdc, hgap⟩ := hspaced c (by simp) hpos
  refine ⟨d, hdc, hgap, ?_⟩
  rcases List.mem_cons.mp hd with rfl | hd
  · exact ⟨Nat.two_pow_pos 32, Nat.succ_pos _⟩
  · refine ⟨hvalues d hd, ?_⟩
    rcases List.mem_append.mp hd with hold | hlater
    · exact hdone d hold
    · have hle : c ≤ d := by
        rw [List.pairwise_append] at hsorted
        rcases List.mem_cons.mp hlater with heq | hlater
        · exact heq.ge
        · exact List.rel_of_pairwise_cons hsorted.2.1 hlater
      exact absurd hdc (not_lt.mpr hle)

/-- What has been passed over or reported is not in the future, and the next one is near it. -/
theorem onTime_from {done : List Nat} {now : Nat} {run : List (Nat × Delay)}
    (hvalues : ∀ c ∈ done ++ run.map Prod.fst, c < 2 ^ 32)
    (hsorted : (done ++ run.map Prod.fst).Pairwise (· ≤ ·))
    (hspaced : Spaced (done ++ run.map Prod.fst)) (hdone : ∀ d ∈ done, sec2ns d < now + 1000) :
    ∀ r ∈ reports (checkpointsThreadProc now run), sec2ns r.1 < r.2 + 1000 := by
  induction run generalizing done now with
  | nil => exact List.forall_mem_nil _
  | cons head rest ih =>
    obtain ⟨checkpoint, delay⟩ := head
    have hcons : done ++ (((checkpoint, delay) :: rest).map Prod.fst) =
        (done ++ [checkpoint]) ++ rest.map Prod.fst := by simp
    have hnext : ∀ {later}, now ≤ later → sec2ns checkpoint < later + 1000 →
        ∀ r ∈ reports (checkpointsThreadProc later rest), sec2ns r.1 < r.2 + 1000 := by
      intro later hlater hpassed
      refine ih (hcons ▸ hvalues) (hcons ▸ hsorted) (hcons ▸ hspaced) ?_
      refine List.forall_mem_append.mpr ⟨fun d hd => ?_, List.forall_mem_singleton.mpr hpassed⟩
      exact (hdone d hd).trans_le (Nat.add_le_add_right hlater 1000)
    by_cases hpast : sec2ns checkpoint ≤ now + delay.before
    · rw [checkpointsThreadProc, if_pos hpast]
      exact hnext (Nat.le_add_right _ _) (hpast.trans_lt (Nat.lt_add_of_pos_right (Nat.succ_pos _)))
    · have hfuture := not_le.mp hpast
      have hpos : 0 < checkpoint := by
        by_contra hzero
        rw [Nat.eq_zero_of_not_pos hzero] at hfuture
        exact Nat.not_lt_zero _ hfuture
      obtain ⟨d, hdc, hgap, hd, hpassed⟩ := passed_before hvalues hsorted hspaced hdone hpos
      have hwoke := pause_short hd (hvalues checkpoint (by simp)) hdc hgap (by omega) hfuture
      rw [checkpointsThreadProc, if_neg hpast]
      refine List.forall_mem_cons.mpr ⟨?_, hnext ?_ ?_⟩
      · dsimp only
        omega
      · omega
      · omega

end

/-! ## Pauses that are cut -/

section

variable {c : Nat}

/-- The thread is never held up. -/
def prompt (checkpoints : List Nat) : List (Nat × Delay) := checkpoints.map fun c => (c, ⟨0, 0⟩)

theorem prompt_past {d now : Nat} (h : sec2ns d ≤ now) (rest : List Nat) :
    checkpointsThreadProc now (prompt (d :: rest)) =
      ⟨d, now, none⟩ :: checkpointsThreadProc now (prompt rest) :=
  if_pos h

theorem prompt_future {d now : Nat} (h : now < sec2ns d) (rest : List Nat) :
    checkpointsThreadProc now (prompt (d :: rest)) =
      ⟨d, now, some (now + usleepArg (sec2ns d - now) * 1000)⟩ ::
        checkpointsThreadProc (now + usleepArg (sec2ns d - now) * 1000) (prompt rest) :=
  thread_future (Nat.add_zero now).symm (Nat.add_zero _).symm h

/-- A pause is not made longer. -/
theorem wake_le {curr next : Nat} (h : curr ≤ next) :
    curr + usleepArg (next - curr) * 1000 ≤ next := by
  have hmod : usleepArg (next - curr) ≤ (next - curr) / 1000 := Nat.mod_le _ _
  have hdiv : (next - curr) / 1000 * 1000 ≤ next - curr := Nat.div_mul_le_self _ _
  have hmul := Nat.mul_le_mul_right 1000 hmod
  omega

/-- **A long pause is cut**, by more than an hour. -/
theorem pause_cut {curr next : Nat} (h : curr + 2 ^ 32 * 1000 ≤ next) :
    curr + usleepArg (next - curr) * 1000 + 1000 ≤ next := by
  have hlong : 2 ^ 32 ≤ (next - curr) / 1000 := by omega
  have hless : usleepArg (next - curr) < 2 ^ 32 := Nat.mod_lt _ (Nat.two_pow_pos 32)
  have hdiv : (next - curr) / 1000 * 1000 ≤ next - curr := Nat.div_mul_le_self _ _
  have hmul : (usleepArg (next - curr) + 1) * 1000 ≤ (next - curr) / 1000 * 1000 :=
    Nat.mul_le_mul_right 1000 (hless.trans_le hlong)
  omega

theorem early_of_far {pre post : List Nat} {now : Nat} (hvalues : ∀ d ∈ pre, d < 2 ^ 32)
    (hc : c < 2 ^ 32) (hfar : ∀ d ∈ pre, d < c ∧ 2 ^ 32 ≤ (c - d) * 1000000)
    (hnow : now + 2 ^ 32 * 1000 ≤ sec2ns c) : ∃ woke,
      (c, woke) ∈ reports (checkpointsThreadProc now (prompt (pre ++ c :: post))) ∧
        woke + 1000 ≤ sec2ns c := by
  induction pre generalizing now with
  | nil =>
    have hfuture : now < sec2ns c := by omega
    refine ⟨now + usleepArg (sec2ns c - now) * 1000, ?_, pause_cut hnow⟩
    rw [List.nil_append, prompt_future hfuture]
    exact List.mem_cons_self
  | cons d pre ih =>
    obtain ⟨hdc, hgap⟩ := hfar d List.mem_cons_self
    have hvalue := hvalues d List.mem_cons_self
    replace hfar := fun x hx => hfar x (List.mem_cons_of_mem d hx)
    replace hvalues := fun x hx => hvalues x (List.mem_cons_of_mem d hx)
    by_cases hpast : sec2ns d ≤ now
    · obtain ⟨woke, hmem, hearly⟩ := ih hvalues hfar hnow
      refine ⟨woke, ?_, hearly⟩
      rw [List.cons_append, prompt_past hpast]
      exact hmem
    · have hwoke := wake_le (not_le.mp hpast).le
      have hnext : now + usleepArg (sec2ns d - now) * 1000 + 2 ^ 32 * 1000 ≤ sec2ns c := by
        rw [sec2ns_eq hvalue] at hwoke ⊢
        rw [sec2ns_eq hc]
        omega
      obtain ⟨woke, hmem, hearly⟩ := ih hvalues hfar hnext
      refine ⟨woke, ?_, hearly⟩
      rw [List.cons_append, prompt_future (not_le.mp hpast)]
      exact List.mem_cons_of_mem _ hmem

end

section

variable {sort : (Nat → Nat → Int) → List Nat → List Nat} {checkpoints : List Nat}

/-- An empty array is not sorted, and need not be. -/
theorem sortCheckpoints_eq (hsort : IsQsort sort) (h : Consistent checkpointCmp checkpoints) :
    sortCheckpoints sort checkpoints = sort checkpointCmp checkpoints := by
  cases checkpoints with
  | nil => exact (hsort.perm h).eq_nil.symm
  | cons c checkpoints => exact if_pos (Nat.succ_pos _)

/-- A checkpoint that is far from the others is reported too early, in the run without delays. -/
theorem spaced_of_works (h : Works sort checkpoints) (haccepted : Accepted checkpoints) :
    Spaced checkpoints := by
  intro c hc hpos
  by_contra hnone
  have hfar : ∀ d ∈ 0 :: checkpoints, d < c → 2 ^ 32 ≤ (c - d) * 1000000 := by
    intro d hd hdc
    by_contra hnear
    exact hnone ⟨d, hd, hdc, not_le.mp hnear⟩
  -- up to the first time the checkpoint is in the array
  obtain ⟨pre, post, harray, hfirst⟩ := List.eq_append_cons_of_mem (h.perm.symm.subset hc)
  have hbefore : ∀ d ∈ pre, d ∈ checkpoints ∧ d < c := by
    intro d hd
    have hmem : d ∈ checkpoints := h.perm.subset (harray ▸ List.mem_append_left _ hd)
    have hsorted := h.sorted
    rw [harray, List.pairwise_append] at hsorted
    have hle : d ≤ c := hsorted.2.2 d hd c List.mem_cons_self
    exact ⟨hmem, lt_of_le_of_ne hle fun heq => hfirst (heq ▸ hd)⟩
  have hvalue := haccepted.values c hc
  have hstart : 0 + 2 ^ 32 * 1000 ≤ sec2ns c := by
    have hzero := hfar 0 List.mem_cons_self hpos
    rw [sec2ns_eq hvalue]
    omega
  obtain ⟨woke, hmem, hearly⟩ : ∃ woke,
      (c, woke) ∈ reports (checkpointsThreadProc 0 (prompt (pre ++ c :: post))) ∧
        woke + 1000 ≤ sec2ns c := by
    refine early_of_far (fun d hd => haccepted.values d (hbefore d hd).1) hvalue
      (fun d hd => ?_) hstart
    obtain ⟨hmem, hdc⟩ := hbefore d hd
    exact ⟨hdc, hfar d (List.mem_cons_of_mem 0 hmem) hdc⟩
  have hrun : (prompt (pre ++ c :: post)).map Prod.fst = sortCheckpoints sort checkpoints := by
    rw [harray, prompt, List.map_map]
    exact List.map_id _
  exact absurd ((h.reports _ hrun).onTime _ hmem) (not_lt.mpr hearly)

/-- The same checkpoints in another order. -/
theorem Spaced.perm (h : Spaced checkpoints) {array : List Nat} (hperm : array.Perm checkpoints) :
    Spaced array := by
  intro c hc hpos
  obtain ⟨d, hd, hgap⟩ := h c (hperm.subset hc) hpos
  exact ⟨d, (hperm.symm.cons 0).subset hd, hgap⟩

theorem Spaced.works (h : Spaced checkpoints) (hsort : IsQsort sort)
    (haccepted : Accepted checkpoints) : Works sort checkpoints := by
  have horder : SignOf checkpointCmp checkpoints :=
    (signOf_iff haccepted.values).mpr fun a ha b _ =>
      (h.near haccepted.length ha).trans_le (Nat.le_add_left _ _)
  have hperm := hsort.perm horder.consistent
  have hsorted := hsort.ascending horder
  rw [← sortCheckpoints_eq hsort horder.consistent] at hperm hsorted
  have hvalues : ∀ c ∈ sortCheckpoints sort checkpoints, c < 2 ^ 32 := fun c hc =>
    haccepted.values c (hperm.subset hc)
  have hspaced := h.perm hperm
  refine ⟨horder.consistent, horder, hperm, hsorted, fun run hrun => ⟨report_iff 0 run, ?_, ?_⟩⟩
  · rw [← hrun] at hsorted
    exact List.pairwise_map.mp (hsorted.sublist (reports_sublist 0 run))
  · rw [← hrun] at hvalues hsorted hspaced
    have hnone : ∀ d ∈ ([] : List Nat), sec2ns d < 0 + 1000 := List.forall_mem_nil _
    exact onTime_from hvalues hsorted hspaced hnone

/-- **The checkpoints work** exactly when there are less than 4295 seconds between each and the
one before it. -/
theorem works_iff (hsort : IsQsort sort) (haccepted : Accepted checkpoints) :
    Works sort checkpoints ↔ Spaced checkpoints :=
  ⟨fun h => spaced_of_works h haccepted, fun h => h.works hsort haccepted⟩

end

/-- A report after one hour and one after two, in any order. -/
theorem works_hours : Works qsort [7200, 3600] := by
  refine (works_iff isQsort_qsort ⟨by decide, by decide⟩).mpr ?_
  unfold Spaced
  decide

/-- **A report after two hours** is printed after 49 minutes. And of two values that are far apart
the larger one comes first. -/
theorem checkpoints_fail :
    reports (checkpointsThreadProc 0 [(7200, ⟨0, 0⟩)]) = [(7200, 2905032704000)] ∧
      sortCheckpoints qsort [1, 3000000000] = [3000000000, 1] ∧
      ¬ Works qsort [7200] ∧ ¬ Works qsort [1, 3000000000] := by
  have hearly : reports (checkpointsThreadProc 0 [(7200, ⟨0, 0⟩)]) = [(7200, 2905032704000)] := by
    decide
  have hreversed : sortCheckpoints qsort [1, 3000000000] = [3000000000, 1] := by decide
  refine ⟨hearly, hreversed, fun h => ?_, fun h => ?_⟩
  · have hrun : [((7200 : Nat), (⟨0, 0⟩ : Delay))].map Prod.fst =
        sortCheckpoints qsort [7200] := by
      decide
    have htime := (h.reports _ hrun).onTime
    rw [hearly] at htime
    exact absurd (htime _ List.mem_cons_self) (by decide)
  · have hsorted := h.sorted
    rw [hreversed] at hsorted
    exact absurd hsorted (by decide)

end TokuQa.Sysbench.Checkpoints
