import TokuQa.Lib.JavaInt
import TokuQa.Tpcc.Gen

/-!
# `load.sh`

The script starts a `tpcc_load` for the items, and three for each range of a thousand warehouses:
one for the warehouses, one for the customers, one for the orders. The last range is not cut to the
number of warehouses, and the program takes its range as it comes: it looks at the number of
warehouses for its sign only. So the warehouses are loaded once each, and no others, when they fill
their ranges (`coversOnce_iff`).

Of an argument a process sees what `atoi` makes of its digits. The processes run side by side; what
each of them inserts does not depend on the others.
-/

set_option autoImplicit false

namespace TokuQa.Tpcc

open TokuQa.Lib
open Loading (applyAll)

/-- The last four arguments of a `tpcc_load`, as numbers. -/
structure LoadArgs where
  countWare : Int
  partNo : Int
  minWare : Int
  maxWare : Int
deriving DecidableEq

/-- `atoi` of the digits of a number: `strtol`, and the conversion to `int`. -/
def atoi (n : Int) : Int := wrap32 (max (-2 ^ 63) (min (2 ^ 63 - 1) n))

/-! ## The script -/

/-- The three processes of the loop for the warehouses from `x`. -/
def startRange (wh x : Int) : List LoadArgs :=
  [2, 3, 4].map fun partNo => ⟨wh, partNo, x, wrap64 (wrap64 (x + 1000) - 1)⟩

/-- The loop of `load.sh`, from `x`. Shell arithmetic has 64 bits, and a number that has more is an
error of `[`, at which the loop ends. -/
def loadLoop (wh : Int) : Nat → Int → Option (List LoadArgs)
  | 0, _ => none
  | fuel + 1, x =>
    if wh < 2 ^ 63 ∧ x ≤ wh then
      (loadLoop wh fuel (wrap64 (x + 1000))).map (startRange wh x ++ ·)
    else some []

/-- The processes that `load.sh` starts. -/
def loadSh (wh : Int) (fuel : Nat) : Option (List LoadArgs) :=
  (loadLoop wh fuel 1).map (⟨wh, 1, 1, wh⟩ :: ·)

/-! ## A process -/

section

variable (draws : Nat → LoadDraws) (now : String) (fuel : Nat)

/-- `main` of `load.c` in particle mode. Without a warehouse it exits. -/
def mainParticle (a : LoadArgs) (s : Loading Database) : Option (Loading Database) :=
  if atoi a.countWare ≤ 0 then some s
  else
    let partNo := atoi a.partNo
    let minWare := atoi a.minWare
    let maxWare := atoi a.maxWare
    (if partNo = 1 then loadItems draws fuel s
      else if partNo = 2 then loadWare draws minWare maxWare fuel s
      else if partNo = 3 then loadCust draws now minWare maxWare fuel s
      else if partNo = 4 then loadOrd draws now minWare maxWare fuel s
      else some s).map Loading.commit

end

/-- The process loads the items. -/
def LoadArgs.loadsItems (a : LoadArgs) : Bool := 0 < atoi a.countWare ∧ atoi a.partNo = 1

/-- The warehouses that the process loads the part `partNo` of. -/
def LoadArgs.wares (partNo : Int) (a : LoadArgs) : List Int :=
  if 0 < atoi a.countWare ∧ atoi a.partNo = partNo then Tpcc.wares (atoi a.minWare) (atoi a.maxWare)
  else []

/-- A part of a warehouse. -/
def wareOfPart (d : LoadDraws) (now : String) (partNo wId : Int) : List Insert :=
  if partNo = 2 then wareInserts d wId
  else if partNo = 3 then (upTo distPerWare).flatMap fun dId =>
    customerInserts (d.customer wId dId) now wId dId
  else (upTo distPerWare).flatMap fun dId => ordersInserts (d.orders wId dId) now wId dId

/-- What a process inserts: the items, or its part of its warehouses. -/
def processInserts (d : LoadDraws) (now : String) (a : LoadArgs) : List Insert :=
  (if a.loadsItems then itemInserts d.item else []) ++
    [2, 3, 4].flatMap fun partNo => (a.wares partNo).flatMap (wareOfPart d now partNo)

/-- **The load covers each warehouse once**: the items are loaded once, and so are the three parts
of each warehouse, and of no other. -/
def CoversOnce (wh : Int) (processes : List LoadArgs) : Prop :=
  processes.countP LoadArgs.loadsItems = 1 ∧ ∀ partNo ∈ ([2, 3, 4] : List Int), ∀ wId : Int,
    (processes.flatMap (LoadArgs.wares partNo)).count wId = if 1 ≤ wId ∧ wId ≤ wh then 1 else 0

/-! ## What a process does -/

section

variable {draws : Nat → LoadDraws} {now : String} {fuel : Nat} {a : LoadArgs}
  {s s' : Loading Database}

theorem flatMap_districtsOf (f : DistrictKey → List Insert) (minWare maxWare : Int) :
    (districtsOf minWare maxWare).flatMap f =
      (wares minWare maxWare).flatMap fun wId => (upTo distPerWare).flatMap fun dId =>
        f (wId, dId) := by
  simp only [districtsOf, List.flatMap_assoc, List.flatMap_map]

/-- What a process inserts is what `loaded` says for its arguments. -/
theorem processInserts_eq (d : LoadDraws) (now : String) (a : LoadArgs) :
    processInserts d now a = if atoi a.countWare ≤ 0 then []
      else partInserts d now (atoi a.partNo) (atoi a.minWare) (atoi a.maxWare) := by
  by_cases hware : atoi a.countWare ≤ 0
  · simp [processInserts, LoadArgs.loadsItems, LoadArgs.wares, not_lt.mpr hware, hware]
  rw [if_neg hware, processInserts, partInserts]
  have hpos := not_le.mp hware
  by_cases h1 : atoi a.partNo = 1
  · simp [LoadArgs.loadsItems, LoadArgs.wares, hpos, h1]
  by_cases h2 : atoi a.partNo = 2
  · simp [LoadArgs.loadsItems, LoadArgs.wares, hpos, h2]
    rfl
  by_cases h3 : atoi a.partNo = 3
  · simp [LoadArgs.loadsItems, LoadArgs.wares, hpos, h3, flatMap_districtsOf]
    rfl
  by_cases h4 : atoi a.partNo = 4
  · simp [LoadArgs.loadsItems, LoadArgs.wares, hpos, h4, flatMap_districtsOf]
    rfl
  · simp [LoadArgs.loadsItems, LoadArgs.wares, h1, h2, h3, h4]

/-- A process that ends has committed what it loads. -/
theorem mainParticle_eq_some (hidle : s.Idle) (h : mainParticle draws now fuel a s = some s') :
    ∃ d, applyAll (statements (processInserts d now a)) s.conn.committed =
      some s'.conn.committed := by
  simp only [processInserts_eq]
  unfold mainParticle at h
  split at h
  · rename_i hware
    cases h
    exact ⟨draws 0, by rw [if_pos hware]; rfl⟩
  rename_i hware
  obtain ⟨s₁, hpart, rfl⟩ := Option.map_eq_some_iff.mp h
  simp only [if_neg hware]
  split_ifs at hpart with h1 h2 h3 h4
  · obtain ⟨hidle₁, items, hi⟩ := Loading.restart_eq_some hidle hpart
    refine ⟨draws items, ?_⟩
    rw [partInserts, if_pos h1, hi]
    exact congrArg some hidle₁.symm
  · obtain ⟨hidle₁, ware, hw⟩ := Loading.restartEach_eq_some (nodup_wares _ _) hidle hpart
    refine ⟨pick draws 0 ware (fun _ => 0) (fun _ => 0), ?_⟩
    rw [partInserts, if_neg h1, if_pos h2, statements_flatMap]
    refine Eq.trans hw (congrArg some hidle₁.symm)
  · obtain ⟨s₂, hcusts, rfl⟩ := Option.map_eq_some_iff.mp hpart
    obtain ⟨hidle₂, cust, hc⟩ := Loading.restartEach_eq_some (nodup_districtsOf _ _) hidle hcusts
    refine ⟨pick draws 0 (fun _ => 0) cust (fun _ => 0), ?_⟩
    rw [partInserts, if_neg h1, if_neg h2, if_pos h3, statements_flatMap]
    exact Eq.trans hc (congrArg some hidle₂.symm)
  · obtain ⟨s₂, hords, rfl⟩ := Option.map_eq_some_iff.mp hpart
    obtain ⟨hidle₂, ord, ho⟩ := Loading.restartEach_eq_some (nodup_districtsOf _ _) hidle hords
    refine ⟨pick draws 0 (fun _ => 0) (fun _ => 0) ord, ?_⟩
    rw [partInserts, if_neg h1, if_neg h2, if_neg h3, if_pos h4, statements_flatMap]
    exact Eq.trans ho (congrArg some hidle₂.symm)
  · cases hpart
    refine ⟨draws 0, ?_⟩
    rw [partInserts, if_neg h1, if_neg h2, if_neg h3, if_neg h4]
    exact congrArg some hidle.symm

end

/-! ## The ranges -/

theorem atoi_of_lt {n : Int} (h : 0 ≤ n) (h' : n < 2 ^ 31) : atoi n = n := by
  rw [atoi, min_eq_right (by omega), max_eq_right (by omega)]
  exact wrap_eq_self (by omega) (by omega)

theorem atoi_lt (n : Int) : atoi n < 2 ^ 31 := wrap_lt 31 _

/-- A number that is a little too large becomes negative. -/
theorem atoi_of_overflow {n : Int} (h : 2 ^ 31 ≤ n) (h' : n < 2 ^ 31 + 1000) : atoi n < 0 := by
  rw [atoi, min_eq_right (by omega), max_eq_right (by omega), wrap32,
    wrap_of_overflow (by omega) (by omega)]
  omega

theorem wrap64_of_lt {n : Int} (h : 0 ≤ n) (h' : n < 2 ^ 32) : wrap64 n = n :=
  wrap_eq_self (by omega) (by omega)

/-- The first warehouse of the range that a warehouse is in. -/
def rangeStart (wId : Int) : Int := wId - (wId - 1) % 1000

section

variable {wh x : Int} {fuel : Nat} {processes : List LoadArgs}

/-- One round of the loop. -/
theorem startRange_count (hwh : 1 ≤ wh) (hfit : wh < 2 ^ 31) (hx : 1 ≤ x) (hle : x ≤ wh)
    {partNo : Int} (hpart : partNo ∈ ([2, 3, 4] : List Int)) (wId : Int) :
    ((startRange wh x).flatMap (LoadArgs.wares partNo)).count wId =
      if x ≤ wId ∧ wId ≤ x + 999 ∧ x + 999 < 2 ^ 31 then 1 else 0 := by
  have hlast : wrap64 (wrap64 (x + 1000) - 1) = x + 999 := by
    have hnext : wrap64 (x + 1000) = x + 1000 := wrap64_of_lt (by omega) (by omega)
    rw [hnext, wrap64_of_lt (by omega) (by omega)]
    omega
  have hone : (startRange wh x).flatMap (LoadArgs.wares partNo) = wares x (atoi (x + 999)) := by
    have hwh' : 0 < atoi wh := by
      rw [atoi_of_lt (by omega) hfit]
      exact hwh
    have hx' : atoi x = x := atoi_of_lt (by omega) (by omega)
    have h2 : atoi 2 = 2 := atoi_of_lt (by omega) (by omega)
    have h3 : atoi 3 = 3 := atoi_of_lt (by omega) (by omega)
    have h4 : atoi 4 = 4 := atoi_of_lt (by omega) (by omega)
    simp only [List.mem_cons, List.not_mem_nil, or_false] at hpart
    rcases hpart with rfl | rfl | rfl <;>
    simp [startRange, LoadArgs.wares, hlast, hwh', hx', h2, h3, h4]
  rw [hone, (nodup_wares _ _).count]
  refine if_congr ?_ rfl rfl
  rw [mem_wares]
  by_cases hfits : x + 999 < 2 ^ 31
  · rw [atoi_of_lt (by omega) hfits]
    omega
  · have hneg := atoi_of_overflow (not_lt.mp hfits) (by omega)
    omega

/-- **What the loop loads**: each range that begins with a warehouse there is, unless it ends with
one that is no `int`. -/
theorem loadLoop_count (hwh : 1 ≤ wh) (hfit : wh < 2 ^ 31) (hx : 1 ≤ x) (hstart : x % 1000 = 1)
    (h : loadLoop wh fuel x = some processes) {partNo : Int}
    (hpart : partNo ∈ ([2, 3, 4] : List Int)) (wId : Int) :
    (processes.flatMap (LoadArgs.wares partNo)).count wId =
      if x ≤ wId ∧ rangeStart wId ≤ wh ∧ rangeStart wId + 999 < 2 ^ 31 then 1 else 0 := by
  induction fuel generalizing x processes with
  | zero => nomatch h
  | succ fuel ih =>
    rw [loadLoop] at h
    split at h
    · rename_i hle
      obtain ⟨rest, hrest, rfl⟩ := Option.map_eq_some_iff.mp h
      rw [wrap64_of_lt (by omega) (by omega)] at hrest
      rw [List.flatMap_append, List.count_append, startRange_count hwh hfit hx hle.2 hpart,
        ih (by omega) (by omega) hrest]
      unfold rangeStart
      split_ifs <;> omega
    · rename_i hgt
      cases h
      rw [List.flatMap_nil, List.count_nil, if_neg]
      unfold rangeStart
      omega

/-- None of these processes loads the items. -/
theorem loadLoop_items (h : loadLoop wh fuel x = some processes) :
    processes.countP LoadArgs.loadsItems = 0 := by
  induction fuel generalizing x processes with
  | zero => nomatch h
  | succ fuel ih =>
    rw [loadLoop] at h
    split at h
    · obtain ⟨rest, hrest, rfl⟩ := Option.map_eq_some_iff.mp h
      rw [List.countP_append, ih hrest, Nat.add_zero, List.countP_eq_zero]
      intro a ha
      obtain ⟨partNo, hpart, rfl⟩ := List.mem_map.mp ha
      have hatoi : ∀ n ∈ ([2, 3, 4] : List Int), atoi n ≠ 1 := by decide
      simp [LoadArgs.loadsItems, hatoi partNo hpart]
    · cases h
      rfl

theorem loadLoop_ends (hfit : wh < 2 ^ 31) (hx : 1 ≤ x) (hfuel : (wh - x + 1).toNat < fuel) :
    ∃ processes, loadLoop wh fuel x = some processes := by
  induction fuel generalizing x with
  | zero => exact absurd hfuel (Nat.not_lt_zero _)
  | succ fuel ih =>
    rw [loadLoop]
    split
    · rename_i hle
      rw [wrap64_of_lt (by omega) (by omega)]
      obtain ⟨rest, hrest⟩ := ih (x := x + 1000) (by omega) (by omega)
      exact ⟨_, Option.map_eq_some_iff.mpr ⟨rest, hrest, rfl⟩⟩
    · exact ⟨[], rfl⟩

/-- What the script loads: the warehouses of all ranges from the first one. -/
theorem loadSh_count (hwh : 1 ≤ wh) (hfit : wh < 2 ^ 31) (h : loadSh wh fuel = some processes) :
    processes.countP LoadArgs.loadsItems = 1 ∧
      ∀ partNo ∈ ([2, 3, 4] : List Int), ∀ wId : Int,
        (processes.flatMap (LoadArgs.wares partNo)).count wId =
          if 1 ≤ wId ∧ rangeStart wId ≤ wh ∧ rangeStart wId + 999 < 2 ^ 31 then 1 else 0 := by
  obtain ⟨rest, hrest, rfl⟩ := Option.map_eq_some_iff.mp h
  have hone : atoi 1 = 1 := atoi_of_lt (by omega) (by omega)
  constructor
  · have hitems : LoadArgs.loadsItems ⟨wh, 1, 1, wh⟩ = true :=
      decide_eq_true ⟨by rw [atoi_of_lt (by omega) hfit]; exact hwh, hone⟩
    rw [List.countP_cons_of_pos hitems, loadLoop_items hrest]
  · intro partNo hpart wId
    have hnone : LoadArgs.wares partNo ⟨wh, 1, 1, wh⟩ = [] := by
      refine if_neg fun hitems => ?_
      have hne : ∀ n ∈ ([2, 3, 4] : List Int), (1 : Int) ≠ n := by decide
      exact hne partNo hpart (hone.symm.trans hitems.2)
    rw [List.flatMap_cons, hnone, List.nil_append]
    exact loadLoop_count hwh hfit le_rfl (by decide) hrest hpart wId

/-- A warehouse that is loaded is an `int`. -/
theorem lt_of_count {partNo wId : Int}
    (h : (processes.flatMap (LoadArgs.wares partNo)).count wId = 1) : wId < 2 ^ 31 := by
  have hmem : wId ∈ processes.flatMap (LoadArgs.wares partNo) :=
    List.count_pos_iff.mp (by rw [h]; exact Nat.one_pos)
  obtain ⟨a, -, ha⟩ := List.mem_flatMap.mp hmem
  unfold LoadArgs.wares at ha
  split at ha
  · exact (mem_wares.mp ha).2.trans_lt (atoi_lt _)
  · nomatch ha

/-- **When the load covers each warehouse once**: when the warehouses fill their ranges, and each
of them is an `int`. -/
theorem coversOnce_iff (hwh : 1 ≤ wh) :
    (∃ fuel processes, loadSh wh fuel = some processes ∧ CoversOnce wh processes) ↔
      1000 ∣ wh ∧ wh < 2 ^ 31 := by
  constructor
  · rintro ⟨fuel, processes, hload, -, hcount⟩
    have hpart : (2 : Int) ∈ ([2, 3, 4] : List Int) := by decide
    have hlast := hcount 2 hpart wh
    rw [if_pos ⟨hwh, le_rfl⟩] at hlast
    have hfit := lt_of_count hlast
    refine ⟨?_, hfit⟩
    obtain ⟨-, hranges⟩ := loadSh_count hwh hfit hload
    -- the last warehouse of the last range
    have hend := hcount 2 hpart (rangeStart wh + 999)
    rw [hranges 2 hpart] at hlast hend
    unfold rangeStart at hlast hend
    split_ifs at hlast hend <;> omega
  · rintro ⟨hdvd, hfit⟩
    obtain ⟨rest, hrest⟩ : ∃ rest, loadLoop wh (wh.toNat + 1) 1 = some rest :=
      loadLoop_ends hfit le_rfl (by omega)
    have hload : loadSh wh (wh.toNat + 1) = some (⟨wh, 1, 1, wh⟩ :: rest) :=
      Option.map_eq_some_iff.mpr ⟨rest, hrest, rfl⟩
    obtain ⟨hitems, hranges⟩ := loadSh_count hwh hfit hload
    refine ⟨_, _, hload, hitems, fun partNo hpart wId => ?_⟩
    rw [hranges partNo hpart]
    refine if_congr ?_ rfl rfl
    unfold rangeStart
    omega

end

/-- Two thousand warehouses fill two ranges. -/
theorem coversOnce_twoRanges :
    (∃ fuel processes, loadSh 2000 fuel = some processes ∧ CoversOnce 2000 processes) ↔
      (1000 : Int) ∣ 2000 ∧ (2000 : Int) < 2 ^ 31 :=
  coversOnce_iff (by decide)

/-- For one warehouse a thousand are loaded. -/
theorem one_warehouse :
    loadSh 1 2 = some [⟨1, 1, 1, 1⟩, ⟨1, 2, 1, 1000⟩, ⟨1, 3, 1, 1000⟩, ⟨1, 4, 1, 1000⟩] ∧
      ¬ ∃ fuel processes, loadSh 1 fuel = some processes ∧ CoversOnce 1 processes := by
  refine ⟨by decide, ?_⟩
  rintro ⟨fuel, processes, hload, -, hcount⟩
  have hpart : (2 : Int) ∈ ([2, 3, 4] : List Int) := by decide
  have hsecond := hcount 2 hpart 2
  rw [(loadSh_count le_rfl (by decide) hload).2 2 hpart] at hsecond
  exact absurd hsecond (by decide)

end TokuQa.Tpcc
