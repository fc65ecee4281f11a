import Mathlib.Algebra.Order.Field.Rat
import Mathlib.Data.Char
import Mathlib.Data.List.Lex
import TokuQa.Lib.KeyedList
import TokuQa.Scripts.Texts

/-!
# `2compare.py`

The script compares the counters of two files: for each key the last value less the first one. It
says what it is to show, the differences, and what it does not, unchanged values. But a key whose
values are no numbers is shown as unknown, changed or not (`accounts_iff`).

`Arithmetic` is what Python does with texts that are numbers. Nothing depends on how it does it,
so the numbers may be its `float`s, with their rounding and with `nan`, or exact ones.
-/

set_option autoImplicit false

namespace TokuQa.Scripts.Compare

open TokuQa.Lib

abbrev Text := List Char

/-- `float` is `none` where it raises a `ValueError`. -/
structure Arithmetic (F : Type) where
  float : Text → Option F
  sub : F → F → F
  mul : F → F → F
  div : F → F → F
  abs : F → F
  eq : F → F → Bool
  le : F → F → Bool
  zero : F
  hundred : F
  unknownToken : F

/-- A key of a dictionary, with what is stored for it. -/
structure Entry where
  key : Text
  start : Text
  end_ : Text
deriving DecidableEq

/-- Lines that are passed over. -/
def IsSkipped (line : Text) : Prop := trim line = [] ∨ trim line = "connected".toList

instance (line : Text) : Decidable (IsSkipped line) := inferInstanceAs (Decidable (_ ∨ _))

/-- `line.strip().split('|')`. -/
def vals (line : Text) : List Text := (trim line).splitOnP (· == '|')

/-- `get_vars`, with the dictionary so far; `none` is an `IndexError`. -/
def getVars : List Text → List Entry → Option (List Entry)
  | [], dict => some dict
  | line :: lines, dict =>
    if IsSkipped line then getVars lines dict
    else do
      let thisKey ← (vals line)[0]?
      let thisValue ← (vals line)[2]?
      getVars lines (upsert Entry.key thisKey (fun e => { e with end_ := thisValue })
        ⟨thisKey, thisValue, thisValue⟩ dict)

/-- What is shown for a key, a text or a number. -/
inductive Cell (F : Type) where
  | text (s : Text)
  | number (v : F)

structure Diff (F : Type) where
  key : Text
  v1 : Cell F
  v2 : Cell F
  pctDiff : F
  absPctDiff : F

/-- The lines that are printed, up to their format. -/
inductive Line (F : Type) where
  | unknown (key : Text) (v1 v2 : Cell F)
  | difference (pctDiff : F) (key : Text) (v1 v2 : Cell F)
  | file2IsMissing (key : Text)
  | file1IsMissing (key : Text)

def Line.key {F : Type} : Line F → Text
  | unknown key _ _ => key
  | difference _ key _ _ => key
  | file2IsMissing key => key
  | file1IsMissing key => key

/-- `sorted(vars)`. -/
def sortedKeys (vars : List Entry) : List Text := (vars.map Entry.key).mergeSort (· ≤ ·)

section

variable {F : Type} (A : Arithmetic F)

/-- `float(end)-float(start)`. -/
def delta (start end_ : Text) : Option F := do return A.sub (← A.float end_) (← A.float start)

def pctDiff (v1 v2 : F) : F :=
  if A.eq v2 A.zero && A.eq v1 A.zero then A.zero
  else if ! A.eq v2 A.zero then A.mul (A.div (A.sub v2 v1) v2) A.hundred
  else A.hundred

/-- The body of the loop of `diff_vars`. -/
def diffKey (vars1 vars2 : List Entry) (k : Text) : Option (Diff F) := do
  let e1 ← findKey Entry.key k vars1
  let e2 ← findKey Entry.key k vars2
  match delta A e1.start e1.end_, delta A e2.start e2.end_ with
  | some v1, some v2 =>
    let pctDiff := pctDiff A v1 v2
    if ! A.eq v1 v2 then some ⟨k, .number v1, .number v2, pctDiff, A.abs pctDiff⟩ else none
  | _, _ => some ⟨k, .text e1.end_, .text e2.end_, A.unknownToken, A.abs A.unknownToken⟩

def diffVars (vars1 vars2 : List Entry) : List (Diff F) :=
  ((sortedKeys vars1).filterMap (diffKey A vars1 vars2)).mergeSort fun d d' =>
    A.le d.absPctDiff d'.absPctDiff

def Diff.line (d : Diff F) : Line F :=
  if A.eq d.pctDiff A.unknownToken then .unknown d.key d.v1 d.v2
  else .difference d.pctDiff d.key d.v1 d.v2

/-- The keys of a file that are not in the other one. -/
def missing (line : Text → Line F) (others : List Entry) (k : Text) : Option (Line F) :=
  if findKey Entry.key k others = none then some (line k) else none

def main (file1 file2 : List Text) : Option (List (Line F)) := do
  let vars1 ← getVars file1 []
  let vars2 ← getVars file2 []
  return (diffVars A vars1 vars2).map (Diff.line A) ++
    (sortedKeys vars1).filterMap (missing .file2IsMissing vars2) ++
    (sortedKeys vars2).filterMap (missing .file1IsMissing vars1)

/-! ## What it is for -/

/-- A line's key and value. -/
def counter (line : Text) : Option (Text × Text) :=
  if IsSkipped line then none else some ((vals line).getD 0 [], (vals line).getD 2 [])

/-- Every line that is not passed over has a key and a value. -/
def WellFormed (file : List Text) : Prop := ∀ line ∈ file, IsSkipped line ∨ 3 ≤ (vals line).length

instance (file : List Text) : Decidable (WellFormed file) :=
  inferInstanceAs (Decidable (∀ line ∈ file, _))

/-- The values of a key, in the order of the file. -/
def values (k : Text) (file : List Text) : List Text :=
  ((file.filterMap counter).filter fun c => c.1 = k).map Prod.snd

/-- The first and the last value of a key, if the file has it. -/
def ends (k : Text) (file : List Text) : Option (Text × Text) :=
  match values k file with
  | [] => none
  | v :: vs => some (v, vs.getLastD v)

/-- The key is in both files, and its change is numerically the same, or its values are no numbers
and the same. -/
def Unchanged (file1 file2 : List Text) (k : Text) : Prop :=
  ∃ p1 p2, ends k file1 = some p1 ∧ ends k file2 = some p2 ∧
    ((∃ v1 v2, delta A p1.1 p1.2 = some v1 ∧ delta A p2.1 p2.2 = some v2 ∧ A.eq v1 v2 = true) ∨
      (delta A p1.1 p1.2 = none ∨ delta A p2.1 p2.2 = none) ∧ p1 = p2)

/-- Every key of either file has one line, but for those that are unchanged. -/
def Accounts (file1 file2 : List Text) : Prop :=
  ∃ lines, main A file1 file2 = some lines ∧
    ∀ k, (ends k file1).isSome ∨ (ends k file2).isSome →
      (Unchanged A file1 file2 k → lines.countP (fun l => l.key = k) = 0) ∧
      (¬ Unchanged A file1 file2 k → lines.countP (fun l => l.key = k) = 1)

/-- A key with the same first and the same last value in both files is numeric. -/
def TextsDiffer (file1 file2 : List Text) : Prop :=
  ∀ k p, ends k file1 = some p → ends k file2 = some p → (delta A p.1 p.2).isSome

end

/-! ## The dictionary -/

/-- What the lines for a key make of its entry. -/
def update (k : Text) (e : Option Entry) (value : Text) : Option Entry :=
  some { e.getD ⟨k, value, value⟩ with end_ := value }

theorem foldl_update_some (k : Text) (e : Entry) (vs : List Text) :
    vs.foldl (update k) (some e) = some { e with end_ := vs.getLastD e.end_ } := by
  induction vs generalizing e with
  | nil => rfl
  | cons v vs ih =>
    rw [List.foldl_cons, update, Option.getD_some, ih, List.getLastD_cons]

/-- The first value is kept, and the last one. -/
theorem foldl_update (k : Text) (file : List Text) :
    (values k file).foldl (update k) none = (ends k file).map fun p => ⟨k, p.1, p.2⟩ := by
  unfold ends
  cases values k file with
  | nil => rfl
  | cons v vs =>
    rw [List.foldl_cons]
    exact foldl_update_some k ⟨k, v, v⟩ vs

theorem getVars_spec {file : List Text} (hfile : WellFormed file) {dict : List Entry}
    (hdict : (dict.map Entry.key).Nodup) :
    ∃ vars, getVars file dict = some vars ∧ (vars.map Entry.key).Nodup ∧
      ∀ k, findKey Entry.key k vars =
        (values k file).foldl (update k) (findKey Entry.key k dict) := by
  induction file generalizing dict with
  | nil => exact ⟨dict, rfl, hdict, fun k => rfl⟩
  | cons line file ih =>
    have hrest : WellFormed file := fun l hl => hfile l (List.mem_cons_of_mem _ hl)
    rw [getVars]
    by_cases hskip : IsSkipped line
    · have hvalues : ∀ k, values k (line :: file) = values k file := by
        intro k
        have hcounter : counter line = none := if_pos hskip
        rw [values, List.filterMap_cons_none hcounter]
        rfl
      simp only [if_pos hskip, hvalues]
      exact ih hrest hdict
    · have hlen : 3 ≤ (vals line).length := (hfile line List.mem_cons_self).resolve_left hskip
      have hget : ∀ i < 3, (vals line)[i]? = some ((vals line).getD i []) := by
        intro i hi
        rw [List.getD_eq_getElem?_getD, List.getElem?_eq_getElem (by omega)]
        rfl
      generalize hkey : (vals line).getD 0 [] = thisKey
      generalize hvalue : (vals line).getD 2 [] = thisValue
      have hcounter : counter line = some (thisKey, thisValue) := by
        rw [counter, if_neg hskip, hkey, hvalue]
      have hf : ∀ e : Entry, Entry.key { e with end_ := thisValue } = e.key := fun _ => rfl
      have hnew : Entry.key ⟨thisKey, thisValue, thisValue⟩ = thisKey := rfl
      have hdict' : ((upsert Entry.key thisKey (fun e => { e with end_ := thisValue })
          ⟨thisKey, thisValue, thisValue⟩ dict).map Entry.key).Nodup := nodup_upsert hf hnew hdict
      obtain ⟨vars, hvars, hnodup, hfind⟩ := ih hrest hdict'
      refine ⟨vars, ?_, hnodup, fun k => ?_⟩
      · rw [if_neg hskip, hget 0 (by decide), hget 2 (by decide), hkey, hvalue]
        exact hvars
      · have hupsert : findKey Entry.key k (upsert Entry.key thisKey
            (fun e => { e with end_ := thisValue }) ⟨thisKey, thisValue, thisValue⟩ dict) =
            if k = thisKey then update k (findKey Entry.key k dict) thisValue
            else findKey Entry.key k dict := by
          rw [findKey_upsert hf hnew]
          by_cases hk : k = thisKey
          · rw [if_pos hk, if_pos hk, hk, update]
          · rw [if_neg hk, if_neg hk]
        rw [hfind k, hupsert]
        simp only [values, List.filterMap_cons_some hcounter, List.filter_cons, decide_eq_true_eq]
        by_cases hk : k = thisKey
        · rw [if_pos hk, if_pos hk.symm, List.map_cons, List.foldl_cons]
        · rw [if_neg hk, if_neg (Ne.symm hk)]

/-! ## The lines for a key -/

variable {F : Type} {A : Arithmetic F} {vars1 vars2 : List Entry} {file1 file2 : List Text}
  {k : Text}

theorem diffKey_key {d : Diff F} (h : diffKey A vars1 vars2 k = some d) : d.key = k := by
  unfold diffKey at h
  obtain ⟨e1, -, h⟩ := Option.bind_eq_some_iff.mp h
  obtain ⟨e2, -, h⟩ := Option.bind_eq_some_iff.mp h
  split at h
  · dsimp only at h
    split at h
    · cases h
      rfl
    · cases h
  · cases h
    rfl

theorem nodup_sortedKeys (h : (vars1.map Entry.key).Nodup) : (sortedKeys vars1).Nodup :=
  (List.mergeSort_perm _ _).nodup_iff.mpr h

theorem mem_sortedKeys : k ∈ sortedKeys vars1 ↔ (findKey Entry.key k vars1).isSome := by
  rw [sortedKeys, List.mem_mergeSort, findKey_isSome_iff]

theorem countP_diffs (h : (vars1.map Entry.key).Nodup) :
    ((diffVars A vars1 vars2).map (Diff.line A)).countP (fun l => l.key = k) =
      if (diffKey A vars1 vars2 k).isSome then 1 else 0 := by
  have hkey : ((fun l : Line F => decide (l.key = k)) ∘ Diff.line A) =
      fun d : Diff F => decide (d.key = k) := by
    funext d
    rw [Function.comp_apply, Diff.line]
    split <;> rfl
  rw [List.countP_map, hkey, diffVars, (List.mergeSort_perm _ _).countP_eq]
  by_cases hk : k ∈ sortedKeys vars1
  · exact countP_filterMap_of_mem (nodup_sortedKeys h) (fun k d hd => diffKey_key hd) hk
  · have hnone : diffKey A vars1 vars2 k = none := by
      rw [mem_sortedKeys, Option.not_isSome_iff_eq_none] at hk
      rw [diffKey, hk]
      rfl
    rw [countP_filterMap_of_notMem (fun k d hd => diffKey_key hd) hk, hnone]
    rfl

theorem countP_missing {line : Text → Line F} (hline : ∀ k, (line k).key = k)
    (h : (vars1.map Entry.key).Nodup) :
    ((sortedKeys vars1).filterMap (missing line vars2)).countP (fun l => l.key = k) =
      if (findKey Entry.key k vars1).isSome ∧ findKey Entry.key k vars2 = none then 1 else 0 := by
  have hkey : ∀ k l, missing line vars2 k = some l → l.key = k := by
    intro k l hl
    unfold missing at hl
    split at hl
    · cases hl
      exact hline k
    · cases hl
  by_cases hk : k ∈ sortedKeys vars1
  · rw [countP_filterMap_of_mem (nodup_sortedKeys h) hkey hk, missing]
    rw [mem_sortedKeys] at hk
    by_cases hnone : findKey Entry.key k vars2 = none <;> simp [hk, hnone]
  · rw [countP_filterMap_of_notMem hkey hk]
    rw [mem_sortedKeys] at hk
    simp [hk]

/-- How many lines a key has. -/
theorem main_spec (h1 : WellFormed file1) (h2 : WellFormed file2) :
    ∃ lines, main A file1 file2 = some lines ∧
      ∀ k, lines.countP (fun l => l.key = k) =
        match ends k file1, ends k file2 with
        | none, none => 0
        | some p1, some p2 =>
          match delta A p1.1 p1.2, delta A p2.1 p2.2 with
          | some v1, some v2 => if A.eq v1 v2 then 0 else 1
          | _, _ => 1
        | _, _ => 1 := by
  obtain ⟨vars1, hvars1, hnodup1, hfind1⟩ := @getVars_spec file1 h1 [] List.nodup_nil
  obtain ⟨vars2, hvars2, hnodup2, hfind2⟩ := @getVars_spec file2 h2 [] List.nodup_nil
  refine ⟨_, by rw [main, hvars1, hvars2]; rfl, fun k => ?_⟩
  have he1 : findKey Entry.key k vars1 = (ends k file1).map fun p => ⟨k, p.1, p.2⟩ :=
    (hfind1 k).trans (foldl_update k file1)
  have he2 : findKey Entry.key k vars2 = (ends k file2).map fun p => ⟨k, p.1, p.2⟩ :=
    (hfind2 k).trans (foldl_update k file2)
  rw [List.countP_append, List.countP_append, countP_diffs hnodup1,
    countP_missing (fun _ => rfl) hnodup1, countP_missing (fun _ => rfl) hnodup2, diffKey, he1, he2]
  cases ends k file1 with
  | none => cases ends k file2 <;> simp
  | some p1 =>
    cases ends k file2 with
    | none => simp
    | some p2 =>
      cases hv1 : delta A p1.1 p1.2 with
      | none => simp [hv1]
      | some v1 =>
        cases hv2 : delta A p2.1 p2.2 with
        | none => simp [hv1, hv2]
        | some v2 => cases heq : A.eq v1 v2 <;> simp [hv1, hv2, heq]

/-- A key of both files has no line exactly when its changes are numbers, and equal. -/
theorem unchanged_iff {p1 p2 : Text × Text} (h1 : ends k file1 = some p1)
    (h2 : ends k file2 = some p2) : Unchanged A file1 file2 k ↔
      match delta A p1.1 p1.2, delta A p2.1 p2.2 with
      | some v1, some v2 => A.eq v1 v2 = true
      | _, _ => p1 = p2 := by
  unfold Unchanged
  rw [h1, h2]
  simp only [Option.some.injEq, exists_eq_left', exists_and_left]
  cases delta A p1.1 p1.2 with
  | none => simp
  | some v1 => cases delta A p2.1 p2.2 <;> simp

/-- **Every key is accounted for**: exactly when no key has the same values in both files, first and
last, that are no numbers. -/
theorem accounts_iff (A : Arithmetic F) (h1 : WellFormed file1) (h2 : WellFormed file2) :
    Accounts A file1 file2 ↔ TextsDiffer A file1 file2 := by
  obtain ⟨lines, hmain, hcount⟩ := main_spec (A := A) h1 h2
  constructor
  · rintro ⟨lines', hmain', hall⟩ k p hp1 hp2
    obtain rfl : lines = lines' := Option.some.inj (hmain.symm.trans hmain')
    by_contra hnone
    rw [Option.not_isSome_iff_eq_none] at hnone
    have hunchanged : Unchanged A file1 file2 k := by
      rw [unchanged_iff hp1 hp2, hnone]
    have hzero := (hall k (.inl (hp1 ▸ rfl))).1 hunchanged
    have hone := hcount k
    rw [hp1, hp2] at hone
    simp only [hnone] at hone
    omega
  · intro hdiffer
    refine ⟨lines, hmain, fun k hk => ?_⟩
    rw [hcount k]
    cases hp1 : ends k file1 with
    | none =>
      cases hp2 : ends k file2 with
      | none => simp [hp1, hp2] at hk
      | some p2 =>
        have hnot : ¬ Unchanged A file1 file2 k := by
          rintro ⟨p, -, hp, -⟩
          rw [hp1] at hp
          cases hp
        exact ⟨fun h => absurd h hnot, fun _ => rfl⟩
    | some p1 =>
      cases hp2 : ends k file2 with
      | none =>
        have hnot : ¬ Unchanged A file1 file2 k := by
          rintro ⟨-, p, -, hp, -⟩
          rw [hp2] at hp
          cases hp
        exact ⟨fun h => absurd h hnot, fun _ => rfl⟩
      | some p2 =>
        rw [unchanged_iff hp1 hp2]
        dsimp only
        split
        · next v1 v2 hv1 hv2 => cases A.eq v1 v2 <;> simp
        · next hnone =>
          -- the changes are not both numbers
          have hne : p1 ≠ p2 := by
            rintro rfl
            obtain ⟨v, hv⟩ := Option.isSome_iff_exists.mp (hdiffer k p1 hp1 hp2)
            exact hnone v v hv hv
          exact ⟨fun h => absurd h hne, fun _ => rfl⟩

/-- Whole numbers, as texts of digits. -/
def digits : Arithmetic ℚ where
  float s := if s ≠ [] ∧ s.all Char.isDigit then some (Nat.ofDigitChars 10 s 0) else none
  sub := (· - ·)
  mul := (· * ·)
  div := (· / ·)
  abs := fun x => |x|
  eq := fun x y => x = y
  le := fun x y => x ≤ y
  zero := 0
  hundred := 100
  unknownToken := -100000000999 / 1000

theorem mem_of_ends {p : Text × Text} {file : List Text} (h : ends k file = some p) :
    ∀ v, v = p.1 ∨ v = p.2 → ∃ c ∈ file.filterMap counter, c.2 = v := by
  have hvalues : ∀ v ∈ values k file, ∃ c ∈ file.filterMap counter, c.2 = v := by
    intro v hv
    obtain ⟨c, hc, hcv⟩ := List.mem_map.mp hv
    exact ⟨c, (List.mem_filter.mp hc).1, hcv⟩
  unfold ends at h
  cases hlist : values k file with
  | nil =>
    rw [hlist] at h
    cases h
  | cons w ws =>
    rw [hlist] at h hvalues
    cases h
    rintro v (rfl | rfl)
    · exact hvalues _ List.mem_cons_self
    · exact hvalues _ List.getLastD_mem_cons

/-- Files of numbers only. -/
theorem textsDiffer_of_numeric (h : ∀ c ∈ file1.filterMap counter, (A.float c.2).isSome) :
    TextsDiffer A file1 file2 := by
  intro k p hp _
  have hfloat : ∀ v, v = p.1 ∨ v = p.2 → ∃ x, A.float v = some x := by
    intro v hv
    obtain ⟨c, hc, rfl⟩ := mem_of_ends hp v hv
    exact Option.isSome_iff_exists.mp (h c hc)
  obtain ⟨x, hx⟩ := hfloat p.1 (.inl rfl)
  obtain ⟨y, hy⟩ := hfloat p.2 (.inr rfl)
  simp [delta, hx, hy]

/-- One counter changes by as much in both files, one does not. -/
theorem accounts_counters :
    Accounts digits ["reads|x|5".toList, "writes|x|1".toList, "reads|x|7".toList]
      ["connected".toList, "reads|x|2".toList, "writes|x|1".toList, "writes|x|4".toList,
        "reads|x|4".toList] :=
  (accounts_iff digits (by decide) (by decide)).mpr (textsDiffer_of_numeric (by decide))

/-- A file with its version. -/
def versionFile : List Text := ["version|x|5.6.16-log".toList]

/-- The version is the same in both files, and shown. -/
theorem version_shown :
    Unchanged digits versionFile versionFile "version".toList ∧
    (∃ lines, main digits versionFile versionFile = some lines ∧
      lines.countP (fun l => l.key = "version".toList) = 1) ∧
    ¬ Accounts digits versionFile versionFile := by
  have hends : ends "version".toList versionFile =
      some ("5.6.16-log".toList, "5.6.16-log".toList) := by decide
  have hunchanged : Unchanged digits versionFile versionFile "version".toList := by
    have hnone : delta digits "5.6.16-log".toList "5.6.16-log".toList = none := by decide
    rw [unchanged_iff hends hends, hnone]
  have hfile : WellFormed versionFile := by decide
  obtain ⟨lines, hmain, hcount⟩ := main_spec (A := digits) hfile hfile
  have hone := hcount "version".toList
  rw [hends] at hone
  refine ⟨hunchanged, ⟨lines, hmain, hone⟩, ?_⟩
  rintro ⟨lines', hmain', hall⟩
  obtain rfl : lines = lines' := Option.some.inj (hmain.symm.trans hmain')
  have hzero := (hall "version".toList (.inl (hends ▸ rfl))).1 hunchanged
  exact absurd (hzero.symm.trans hone) (by decide)

end TokuQa.Scripts.Compare
