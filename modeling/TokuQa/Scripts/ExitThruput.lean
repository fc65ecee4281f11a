import TokuQa.Lib.Recent
import TokuQa.Scripts.Texts

/-!
# `parse_iibench.pl`, `parse_sysbench.pl` and `parse_tpcc.pl`: the exit throughput

Each script reads a log, takes the lines that are results and keeps the throughputs of the last of
them, to report their mean. All three shift the queue when it has more than 60 (or 90) elements,
and then push: they keep one more than their comments say.

`number` is what Perl takes a text for in arithmetic, which is exact; any function will do. The
lines have lost their line ends. What only the statements and the messages are made of is left out.
-/

set_option autoImplicit false

namespace TokuQa.Scripts.ExitThruput

open TokuQa.Lib

abbrev Line := List Char

inductive FileState where
  | notStarted
  | started
  | finished
deriving DecidableEq

/-- What a line is counted as, with what is read from a good one. -/
inductive Outcome (V : Type) where
  | none
  | bad
  | good (v : V)

section

variable {σ V : Type} (classify : FileState → Line → FileState × Outcome V)

/-- The loop over the lines of a file. -/
def parseLines (bad : σ → σ) (good : V → σ → σ) : FileState → List Line → σ → σ
  | _, [], s => s
  | fileState, line :: lines, s =>
    let (fileState, o) := classify fileState line
    parseLines bad good fileState lines <|
      match o with
      | .none => s
      | .bad => bad s
      | .good v => good v s

/-- What is read from the good lines. -/
def goodLines : FileState → List Line → List V
  | _, [] => []
  | fileState, line :: lines =>
    let (fileState, o) := classify fileState line
    match o with
    | .good v => v :: goodLines fileState lines
    | _ => goodLines fileState lines

end

/-- `average`, which dies of an empty array. -/
def average (xs : List ℚ) : Option ℚ := if xs.length = 0 then none else some (xs.sum / xs.length)

/-- What every script reports. -/
structure Results where
  avgThruput : ℚ
  exitThruput : ℚ
  duration : ℚ
  goodLines : Nat
  badLines : Nat

variable (number : List Char → ℚ)

/-! ## `parse_iibench.pl` -/

namespace Iibench

structure Totals where
  totalRows : ℚ
  lastRows : ℚ
  avgQps : ℚ
  totalSeconds : ℚ
  goodLines : Nat
  badLines : Nat
  avgThruputFromLog : ℚ
  recentThruput : List ℚ
  recentThruput2 : List ℚ

/-- A good line is its `@line_values`. -/
def outcome (fileState : FileState) (line : Line) : FileState × Outcome (List (List Char)) :=
  if contains "#rows" line then (.started, .none)
  else if contains "Done" line then (.finished, .none)
  else if fileState = .started ∧ line ≠ [] then
    let lineValues := splitBlank line
    -- the comparison with the empty text behind this test is never met
    (fileState, if isTrue (field lineValues 0) then .good lineValues else .bad)
  else (fileState, .none)

def bad (t : Totals) : Totals := { t with badLines := t.badLines + 1 }

def good (lineValues : List (List Char)) (t : Totals) : Totals :=
  let value (k : Nat) : ℚ := number (field lineValues k)
  let t :=
    { t with
      goodLines := t.goodLines + 1
      lastRows := value 0
      avgThruputFromLog := value 3
      totalSeconds := t.totalSeconds + value 1
      totalRows := t.totalRows + (value 0 - t.lastRows)
      avgQps := value 7 }
  if 0 < value 1 then
    { t with
      recentThruput := pushRecent 60 t.recentThruput (value 5)
      recentThruput2 := pushRecent 60 t.recentThruput2 (value 8) }
  else t

def totals (lines : List Line) : Totals :=
  parseLines outcome bad (good number) .notStarted lines ⟨0, 0, 0, 0, 0, 0, 0, [], []⟩

structure Report extends Results where
  avgQps : ℚ
  exitThruput2 : ℚ

def parseFile (lines : List Line) : Option Report := do
  let t := totals number lines
  let exitThruput ← average t.recentThruput
  let exitThruput2 ← average t.recentThruput2
  some ⟨⟨t.avgThruputFromLog, exitThruput, t.totalSeconds, t.goodLines, t.badLines⟩,
    t.avgQps, exitThruput2⟩

/-- The throughputs of the lines that are accepted for the exit throughput. -/
def thruputs (lines : List Line) : List ℚ :=
  ((goodLines outcome .notStarted lines).filter fun v => 0 < number (field v 1)).map fun v =>
    number (field v 5)

end Iibench

/-! ## `parse_sysbench.pl` -/

namespace Sysbench

structure Totals where
  totalRows : Nat
  totalTps : ℚ
  goodLines : Nat
  badLines : Nat
  lastSeconds : ℚ
  recentThruput : List ℚ

/-- The pattern of a result. -/
def pattern : List Item :=
  [.one (· == '['), .many isSpace] ++ Item.digits ++
    Item.anything ++ Item.text "tps:" ++ [.one isSpace] ++ Item.decimal ++
    Item.anything ++ Item.text "reads:" ++ [.one isSpace] ++ Item.decimal ++
    Item.anything ++ Item.text "writes:" ++ [.one isSpace] ++ Item.decimal ++
    Item.anything ++ Item.text "response" ++ [.one isSpace] ++ Item.text "time:" ++
    [.one isSpace] ++ Item.decimal

/-- A good line is its `@line_values`. -/
def outcome (fileState : FileState) (line : Line) : FileState × Outcome (List (List Char)) :=
  if contains "Threads started!" line then (.started, .none)
  else if contains "OLTP test statistics:" line then (.finished, .none)
  else if fileState = .started ∧ line ≠ [] then
    let lineValues := (search pattern line).getD []
    -- the comparison with the empty text behind this test is never met
    (fileState, if isTrue (field lineValues 0) then .good lineValues else .bad)
  else (fileState, .none)

def bad (t : Totals) : Totals := { t with badLines := t.badLines + 1 }

def good (lineValues : List (List Char)) (t : Totals) : Totals :=
  let thisThruput := number (field lineValues 1)
  { totalRows := t.totalRows + 1
    totalTps := t.totalTps + thisThruput
    goodLines := t.goodLines + 1
    badLines := t.badLines
    lastSeconds := number (field lineValues 0)
    recentThruput := pushRecent 90 t.recentThruput thisThruput }

def totals (lines : List Line) : Totals :=
  parseLines outcome bad (good number) .notStarted lines ⟨0, 0, 0, 0, 0, []⟩

/-- It dies of the division if there are no rows. -/
def parseFile (lines : List Line) : Option Results := do
  let t := totals number lines
  let avgThruput ← if t.totalRows = 0 then none else some (t.totalTps / t.totalRows)
  let exitThruput ← average t.recentThruput
  some ⟨avgThruput, exitThruput, t.lastSeconds, t.goodLines, t.badLines⟩

def thruputs (lines : List Line) : List ℚ :=
  (goodLines outcome .notStarted lines).map fun v => number (field v 1)

end Sysbench

/-! ## `parse_tpcc.pl` -/

namespace Tpcc

structure Totals where
  totalThruput : ℚ
  finalDistance : ℚ
  goodLines : Nat
  badLines : Nat
  recentThruput : List ℚ

/-- The pattern of what is said of one kind of transaction. -/
def details : List Item :=
  [.one (· == ' ')] ++ Item.digits ++ [.one (· == '(')] ++ Item.digits ++
    [.one (· == ')'), .one (· == ':')] ++ Item.fraction ++ [.one (· == '|')] ++ Item.fraction

/-- A good line is its `$dist` and `$new_ord`. -/
def outcome (fileState : FileState) (line : Line) : FileState × Outcome (List Char × List Char) :=
  let fileState :=
    if line = "MEASURING START.".toList then .started
    else if contains "STOPPING THREADS" line then .finished
    else fileState
  if line ≠ [] ∧ line ≠ "MEASURING START.".toList ∧ fileState = .started then
    let values := splitComma line
    if isTrue (field values 5) then
      let newOrd := trim (field ((search details (field values 1)).getD []) 0)
      let stockLevelLat := trim (field ((search details (field values 5)).getD []) 3)
      if stockLevelLat = [] then (fileState, .bad)
      else (fileState, .good (trim (field values 0), newOrd))
    else (fileState, .bad)
  else (fileState, .none)

def bad (t : Totals) : Totals := { t with badLines := t.badLines + 1 }

def good (v : List Char × List Char) (t : Totals) : Totals :=
  { totalThruput := t.totalThruput + number v.2
    finalDistance := number v.1
    goodLines := t.goodLines + 1
    badLines := t.badLines
    recentThruput := pushRecent 60 t.recentThruput (number v.2) }

def totals (lines : List Line) : Totals :=
  parseLines outcome bad (good number) .notStarted lines ⟨0, 0, 0, 0, []⟩

/-- It dies of the division if the last distance is 0. -/
def parseFile (lines : List Line) : Option Results := do
  let t := totals number lines
  let avgThruput ←
    if t.finalDistance = 0 then none else some (t.totalThruput / t.finalDistance * 10)
  let exitThruput ← average t.recentThruput
  some ⟨avgThruput, exitThruput, t.finalDistance, t.goodLines, t.badLines⟩

def thruputs (lines : List Line) : List ℚ :=
  (goodLines outcome .notStarted lines).map fun v => number v.2

/-- The last result is of a time that is not 0. -/
def HasDistance (lines : List Line) : Prop :=
  ∀ v ∈ (goodLines outcome .notStarted lines).getLast?, number v.1 ≠ 0

end Tpcc

/-! ## The three scripts -/

inductive Script where
  | iibench
  | sysbench
  | tpcc

namespace Script

/-- How many results are kept, by the comments. -/
def window : Script → Nat
  | iibench => 60
  | sysbench => 90
  | tpcc => 60

def exitThruput (lines : List Line) : Script → Option ℚ
  | iibench => (Iibench.parseFile number lines).map fun r => r.exitThruput
  | sysbench => (Sysbench.parseFile number lines).map fun r => r.exitThruput
  | tpcc => (Tpcc.parseFile number lines).map fun r => r.exitThruput

def thruputs (lines : List Line) : Script → List ℚ
  | iibench => Iibench.thruputs number lines
  | sysbench => Sysbench.thruputs number lines
  | tpcc => Tpcc.thruputs number lines

/-- What the throughput for the whole run is divided by is not 0. -/
def Divides (lines : List Line) : Script → Prop
  | tpcc => Tpcc.HasDistance number lines
  | _ => True

end Script

/-! ## What the loop keeps -/

variable {number}

/-- What the bad lines leave alone, and the good ones change by itself. -/
theorem parseLines_proj {σ V β : Type} (classify : FileState → Line → FileState × Outcome V)
    (bad : σ → σ) (good : V → σ → σ) (f : σ → β) (g : β → V → β)
    (hbad : ∀ s, f (bad s) = f s) (hgood : ∀ v s, f (good v s) = g (f s) v)
    (fileState : FileState) (lines : List Line) (s : σ) :
    f (parseLines classify bad good fileState lines s) =
      (goodLines classify fileState lines).foldl g (f s) := by
  induction lines generalizing fileState s with
  | nil => rfl
  | cons line lines ih =>
    rw [parseLines, goodLines]
    generalize classify fileState line = next
    obtain ⟨fileState', o⟩ := next
    cases o with
    | none => exact ih fileState' s
    | bad => exact (ih fileState' (bad s)).trans (by rw [hbad])
    | good v => exact (ih fileState' (good v s)).trans (by rw [hgood, List.foldl_cons])

theorem average_eq {xs : List ℚ} (h : xs ≠ []) : average xs = some (mean xs) :=
  if_neg fun h0 => h (List.length_eq_zero_iff.mp h0)

theorem rtake_ne_nil {n : Nat} {xs : List ℚ} (h : xs ≠ []) : xs.rtake (n + 1) ≠ [] := by
  have hpos := List.length_pos_iff.mpr h
  rw [List.rtake, ne_eq, List.drop_eq_nil_iff]
  omega

namespace Iibench

/-- A queue that takes a value of the lines with a time. -/
theorem foldl_accepted (k : Nat) (vs : List (List (List Char))) :
    vs.foldl (fun recent v =>
        if 0 < number (field v 1) then pushRecent 60 recent (number (field v k)) else recent) [] =
      ((vs.filter fun v => 0 < number (field v 1)).map fun v => number (field v k)).rtake 61 := by
  rw [← foldl_pushRecent, List.foldl_map, List.foldl_filter]
  simp only [decide_eq_true_eq]

theorem recentThruput_eq (lines : List Line) :
    (totals number lines).recentThruput = (thruputs number lines).rtake 61 := by
  rw [thruputs, ← foldl_accepted]
  refine parseLines_proj outcome bad (good number) Totals.recentThruput _
    (fun t => rfl) (fun v t => ?_) _ _ _
  unfold good
  dsimp only
  split <;> rfl

theorem recentThruput2_eq (lines : List Line) :
    (totals number lines).recentThruput2 = (((goodLines outcome .notStarted lines).filter fun v =>
      0 < number (field v 1)).map fun v => number (field v 8)).rtake 61 := by
  rw [← foldl_accepted]
  refine parseLines_proj outcome bad (good number) Totals.recentThruput2 _
    (fun t => rfl) (fun v t => ?_) _ _ _
  unfold good
  dsimp only
  split <;> rfl

theorem exitThruput_eq {lines : List Line} (h : thruputs number lines ≠ []) :
    (parseFile number lines).map (fun r => r.exitThruput) =
      some (mean ((thruputs number lines).rtake 61)) := by
  have h2 : ((goodLines outcome .notStarted lines).filter fun v =>
      0 < number (field v 1)).map (fun v => number (field v 8)) ≠ [] := by
    rw [thruputs, ne_eq, List.map_eq_nil_iff] at h
    rwa [ne_eq, List.map_eq_nil_iff]
  simp only [parseFile, recentThruput_eq, recentThruput2_eq, average_eq (rtake_ne_nil h),
    average_eq (rtake_ne_nil h2), Option.bind_eq_bind, Option.bind_some, Option.map_some]

end Iibench

namespace Sysbench

theorem recentThruput_eq (lines : List Line) :
    (totals number lines).recentThruput = (thruputs number lines).rtake 91 := by
  rw [thruputs, ← foldl_pushRecent, List.foldl_map]
  exact parseLines_proj outcome bad (good number) Totals.recentThruput _
    (fun t => rfl) (fun v t => rfl) _ _ _

theorem totalRows_eq (lines : List Line) :
    (totals number lines).totalRows = (thruputs number lines).length := by
  have hcount := parseLines_proj outcome bad (good number) Totals.totalRows
    (fun n _ => n + 1) (fun t => rfl) (fun v t => rfl) .notStarted lines ⟨0, 0, 0, 0, 0, []⟩
  rw [thruputs, List.length_map]
  refine hcount.trans ?_
  rw [List.foldl_add_const]
  simp

theorem exitThruput_eq {lines : List Line} (h : thruputs number lines ≠ []) :
    (parseFile number lines).map (fun r => r.exitThruput) =
      some (mean ((thruputs number lines).rtake 91)) := by
  have hrows : (totals number lines).totalRows ≠ 0 := by
    rw [totalRows_eq]
    exact fun h0 => h (List.length_eq_zero_iff.mp h0)
  simp only [parseFile, recentThruput_eq, average_eq (rtake_ne_nil h), if_neg hrows,
    Option.bind_eq_bind, Option.bind_some, Option.map_some]

end Sysbench

namespace Tpcc

theorem recentThruput_eq (lines : List Line) :
    (totals number lines).recentThruput = (thruputs number lines).rtake 61 := by
  rw [thruputs, ← foldl_pushRecent, List.foldl_map]
  exact parseLines_proj outcome bad (good number) Totals.recentThruput _
    (fun t => rfl) (fun v t => rfl) _ _ _

theorem finalDistance_eq (lines : List Line) : (totals number lines).finalDistance =
    ((goodLines outcome .notStarted lines).getLast?.map fun v => number v.1).getD 0 := by
  have hlast := parseLines_proj outcome bad (good number) Totals.finalDistance
    (fun _ v => number v.1) (fun t => rfl) (fun v t => rfl) .notStarted lines ⟨0, 0, 0, 0, []⟩
  refine hlast.trans ?_
  cases goodLines outcome .notStarted lines using List.reverseRecOn with
  | nil => rfl
  | append_singleton vs v => simp

theorem exitThruput_eq {lines : List Line} (h : thruputs number lines ≠ []) :
    (parseFile number lines).map (fun r => r.exitThruput) =
      if (totals number lines).finalDistance = 0 then none
      else some (mean ((thruputs number lines).rtake 61)) := by
  unfold parseFile
  dsimp only
  split
  · rfl
  · simp only [recentThruput_eq, average_eq (rtake_ne_nil h), Option.bind_eq_bind,
      Option.bind_some, Option.map_some]

theorem hasDistance_iff {lines : List Line} (h : thruputs number lines ≠ []) :
    HasDistance number lines ↔ (totals number lines).finalDistance ≠ 0 := by
  rw [finalDistance_eq, HasDistance]
  rw [thruputs, ne_eq, List.map_eq_nil_iff] at h
  rw [List.getLast?_eq_getLast_of_ne_nil h]
  simp

end Tpcc

/-- **The mean of the last results**: exactly when there are no more of them than the window has
places, or the one before the window is the mean itself; for `parse_tpcc.pl` also the last result
must not be at the time 0. -/
theorem exit_thruput_iff (script : Script) {lines : List Line}
    (h : script.thruputs number lines ≠ []) :
    script.exitThruput number lines =
        some (mean ((script.thruputs number lines).rtake script.window)) ↔
      SameMean script.window (script.thruputs number lines) ∧ script.Divides number lines := by
  cases script with
  | iibench =>
    rw [Script.exitThruput, Iibench.exitThruput_eq h, Option.some.injEq]
    exact (mean_recent_iff (by decide) _).trans (and_iff_left trivial).symm
  | sysbench =>
    rw [Script.exitThruput, Sysbench.exitThruput_eq h, Option.some.injEq]
    exact (mean_recent_iff (by decide) _).trans (and_iff_left trivial).symm
  | tpcc =>
    rw [Script.exitThruput, Tpcc.exitThruput_eq h, Script.Divides, Tpcc.hasDistance_iff h]
    split
    · next hzero => exact iff_of_false (by simp) fun hand => hand.2 hzero
    · next hnonzero =>
      rw [Option.some.injEq, and_iff_left hnonzero]
      exact mean_recent_iff (by decide) _

/-- What Perl takes a text of digits for. -/
def digitsNumber (s : List Char) : ℚ := Nat.ofDigitChars 10 s 0

/-- A log of `tpcc_start`, with one result. -/
def tpccLog : List Line :=
  ["MEASURING START.".toList, [],
    "  10, 88(0):2.4|2.4, 89(0):0.4|0.5, 9(0):0.2|0.2, 9(0):2.8|2.8, 10(0):7.6|8.0".toList,
    "STOPPING THREADS".toList]

theorem exit_thruput_one_result : Script.exitThruput digitsNumber tpccLog .tpcc =
    some (mean ((Script.thruputs digitsNumber tpccLog .tpcc).rtake 60)) := by
  have hthruputs : Tpcc.thruputs digitsNumber tpccLog = [88] := by decide +kernel
  have hne : Tpcc.thruputs digitsNumber tpccLog ≠ [] := by
    rw [hthruputs]
    exact List.cons_ne_nil _ _
  have hdistance : Script.Divides digitsNumber tpccLog .tpcc :=
    (Tpcc.hasDistance_iff hne).mpr (by decide +kernel)
  have hsame : SameMean 60 (Tpcc.thruputs digitsNumber tpccLog) := by
    rw [hthruputs]
    decide +kernel
  exact (exit_thruput_iff .tpcc hne).mpr ⟨hsame, hdistance⟩

/-- A log of `iibench.py`: nothing was inserted in the first interval. -/
def iibenchLog : List Line :=
  "#rows".toList :: "1 1 1 1 1 0 0 0 0".toList :: List.replicate 60 "1 1 1 1 1 1 0 0 0".toList

/-- The 61st last result counts. -/
theorem exit_thruput_first_interval :
    Script.exitThruput digitsNumber iibenchLog .iibench = some (60 / 61) ∧
      mean ((Script.thruputs digitsNumber iibenchLog .iibench).rtake 60) = 1 := by
  have hthruputs : Iibench.thruputs digitsNumber iibenchLog = 0 :: List.replicate 60 1 := by
    decide +kernel
  refine ⟨?_, ?_⟩
  · rw [Script.exitThruput, Iibench.exitThruput_eq (by rw [hthruputs]; simp), hthruputs]
    decide +kernel
  · rw [Script.thruputs, hthruputs]
    decide +kernel

end TokuQa.Scripts.ExitThruput
