import Mathlib.Data.Finset.Max
import Mathlib.Data.List.Sort
import TokuQa.Lib.Gaps
import TokuQa.Lib.JavaString
import TokuQa.Lib.KeyedList

/-!
# The unused parts of a fractal tree file

`tokuftunused.py` reads the translation table of a file, as `tokuftdump` prints it, and prints
the parts of the file that no block is in; `xfs_punch_holes` then takes them away. A row of the
table is three integers, and a block is a row with a position and a size. A row of the free list
has three integers, too, with the next free block in the place of the position and -1 for the
size, and is read like the others: the range in front of the next block then begins at that
number, which can be in the header of the file, or in a block.

What is read beside the blocks never does harm only if it is a row for position 0 without a
size (`unused_iff`). `tokuftimage.py` asks for a position and a size.
-/

set_option autoImplicit false

namespace TokuQa.FractalTree

open TokuQa.Lib

abbrev Line := List Char

/-! ## The script -/

/-- White space, as `str.split` has it. -/
def isSpace (c : Char) : Bool := c = ' ' || ('\t' ≤ c && c ≤ '\r')

/-- `str.split`. -/
def fields (line : Line) : List (List Char) := (line.splitOnP isSpace).filter (· ≠ [])

/-- `int` of a field. -/
def int (field : List Char) : Option Int := signedValue field

/-- What `readline` returns, up to white space at the end of each line. -/
def lines (dump : List Char) : List Line := dump.splitOn '\n'

/-- The body of the loop of `main`: `none` for a line that is passed over, whether it is not
three fields, a `continue` or something raised. -/
def tryLine (btt : List (Int × Int)) (line : Line) : Option (List (Int × Int)) :=
  match fields line with
  | [l0, l1, l2] => do
    let blocknum ← int l0
    guard (0 ≤ blocknum)
    let offset ← int l1
    guard (0 ≤ offset)
    let size ← int l2
    guard (findKey Prod.fst offset btt = none)
    return btt ++ [(offset, size)]
  | _ => none

def readLine (btt : List (Int × Int)) (line : Line) : List (Int × Int) :=
  (tryLine btt line).getD btt

/-- `holes`, from a `lastoffset` on; `none` is a `KeyError`. -/
def holes (btt : List (Int × Int)) : Int → List Int → Option (List Extent)
  | _, [] => some []
  | lastoffset, offset :: bat => do
    let (_, size) ← findKey Prod.fst offset btt
    let nextoffset := offset + size
    let printed := if 0 < lastoffset then [⟨lastoffset, offset - lastoffset⟩] else []
    let rest ← holes btt nextoffset bat
    return printed ++ rest

/-- `main`: the ranges that are printed. -/
def main (dump : List Char) : Option (List Extent) :=
  let btt := (lines dump).foldl readLine []
  let bat := (btt.map Prod.fst).insertionSort (· ≤ ·)
  holes btt 0 bat

/-! ## What it is for -/

/-- A row of the table, which is three integers. -/
structure Row where
  blocknum : Int
  offset : Int
  size : Int

def row (line : Line) : Option Row :=
  match fields line with
  | [l0, l1, l2] => do return ⟨← int l0, ← int l1, ← int l2⟩
  | _ => none

/-- The block a line describes. -/
def block (line : Line) : Option Extent := do
  let r ← row line
  guard (0 ≤ r.blocknum ∧ 0 < r.offset ∧ 0 < r.size)
  return ⟨r.offset, r.size⟩

/-- The live blocks. -/
def blocks (dump : List Char) : List Extent := (lines dump).filterMap block

/-- All other lines. -/
def others (dump : List Char) : List Line := (lines dump).filter fun line => block line = none

/-- Blocks have nothing in common, but a line can be repeated. -/
def BlocksApart (dump : List Char) : Prop :=
  ∀ x ∈ blocks dump, ∀ y ∈ blocks dump, x = y ∨ ∀ b, ¬ (x.Has b ∧ y.Has b)

/-- Ranges that are the free space between blocks. -/
structure Unused (blocks ranges : List Extent) : Prop where
  size_nonneg : ∀ r ∈ ranges, 0 ≤ r.size
  /-- The header is what is in front of the first block. -/
  header : ∀ x ∈ blocks, (∀ y ∈ blocks, x.offset ≤ y.offset) →
    ∀ r ∈ ranges, ∀ b, r.Has b → ¬ (0 ≤ b ∧ b < x.offset)
  live : ∀ x ∈ blocks, ∀ r ∈ ranges, ∀ b, ¬ (r.Has b ∧ x.Has b)
  /-- Whatever is free from the end of the first block to the last block is in one range. -/
  once : ∀ x ∈ blocks, (∀ y ∈ blocks, x.offset ≤ y.offset) →
    ∀ z ∈ blocks, (∀ y ∈ blocks, y.offset ≤ z.offset) →
    ∀ b, x.stop ≤ b → b < z.offset → (∀ y ∈ blocks, ¬ y.Has b) →
    ranges.countP (fun r => r.Has b) = 1

/-- What is printed is the free space. -/
def PrintsUnused (dump : List Char) : Prop :=
  ∃ ranges, main dump = some ranges ∧ Unused (blocks dump) ranges

/-- The lines that are read as a position and a size. -/
def entry (line : Line) : Option (Int × Int) := do
  let r ← row line
  guard (0 ≤ r.blocknum ∧ 0 ≤ r.offset)
  return (r.offset, r.size)

/-- The first entry for any position is one for position 0, without a size. -/
def Harmless (lines : List Line) : Prop :=
  ∀ offset e, findKey Prod.fst offset (lines.filterMap entry) = some e → e.1 = 0 ∧ e.2 ≤ 0

/-! ## The table -/

/-- **A line is read** if it is an entry, and the first one for its position. -/
theorem readLine_eq (btt : List (Int × Int)) (line : Line) :
    readLine btt line = match entry line with
      | some e => insertNew Prod.fst btt e
      | none => btt := by
  unfold readLine tryLine entry row
  split
  · next l0 l1 l2 _ =>
    cases int l0 with
    | none => rfl
    | some blocknum =>
      cases int l1 with
      | none => simp
      | some offset =>
        cases int l2 with
        | none => simp
        | some size =>
          by_cases hblock : 0 ≤ blocknum <;> by_cases hoffset : 0 ≤ offset <;>
            by_cases hnew : findKey Prod.fst offset btt = none <;>
            simp [hblock, hoffset, hnew, insertNew]
  · rfl

theorem foldl_readLine (lines : List Line) (btt : List (Int × Int)) :
    lines.foldl readLine btt = (lines.filterMap entry).foldl (insertNew Prod.fst) btt := by
  rw [List.foldl_filterMap]
  refine congrArg (fun f => lines.foldl f btt) ?_
  funext btt line
  rw [readLine_eq]
  cases entry line <;> rfl

/-- Where the entry for a position ends. -/
def stopOf (btt : List (Int × Int)) (offset : Int) : Int :=
  offset + ((findKey Prod.fst offset btt).map Prod.snd).getD 0

theorem stopOf_of_find {btt : List (Int × Int)} {offset size : Int}
    (h : findKey Prod.fst offset btt = some (offset, size)) : stopOf btt offset = offset + size := by
  rw [stopOf, h]
  rfl

/-- What `holes` prints. -/
def printed (stop : Int → Int) : Int → List Int → List Extent
  | _, [] => []
  | lastoffset, offset :: bat =>
    (if 0 < lastoffset then [⟨lastoffset, offset - lastoffset⟩] else []) ++
      printed stop (stop offset) bat

theorem holes_eq {btt : List (Int × Int)} {bat : List Int} (lastoffset : Int)
    (h : ∀ offset ∈ bat, offset ∈ btt.map Prod.fst) :
    holes btt lastoffset bat = some (printed (stopOf btt) lastoffset bat) := by
  induction bat generalizing lastoffset with
  | nil => rfl
  | cons offset bat ih =>
    have hkey := findKey_isSome_iff.mpr (h offset (by simp))
    obtain ⟨⟨key, size⟩, hfind⟩ := Option.isSome_iff_exists.mp hkey
    obtain rfl : key = offset := (mem_of_findKey hfind).2
    rw [holes, hfind, printed, stopOf_of_find hfind]
    simp only [bind, Option.bind_some, ih _ fun o ho => h o (by simp [ho]), pure]

/-- **`main` prints** what is between the entries, in the order of their positions. -/
theorem main_eq (dump : List Char) :
    ∃ bat, main dump = some (printed (stopOf ((lines dump).filterMap entry)) 0 bat) ∧
      bat.Pairwise (· < ·) ∧
      ∀ offset, offset ∈ bat ↔ offset ∈ ((lines dump).filterMap entry).map Prod.fst := by
  have hfold := foldl_readLine (lines dump) []
  have hfind : ∀ offset, findKey Prod.fst offset ((lines dump).foldl readLine []) =
      findKey Prod.fst offset ((lines dump).filterMap entry) := by
    intro offset
    rw [hfold, findKey_foldl_insertNew]
    rfl
  have hnodup : (((lines dump).foldl readLine []).map Prod.fst).Nodup := by
    rw [hfold]
    exact nodup_foldl_insertNew _ List.nodup_nil
  have hstop : stopOf ((lines dump).foldl readLine []) = stopOf ((lines dump).filterMap entry) := by
    funext offset
    rw [stopOf, hfind, stopOf]
  have hperm := List.perm_insertionSort (· ≤ ·) (((lines dump).foldl readLine []).map Prod.fst)
  have hsorted := List.pairwise_insertionSort (· ≤ ·) (((lines dump).foldl readLine []).map Prod.fst)
  refine ⟨(((lines dump).foldl readLine []).map Prod.fst).insertionSort (· ≤ ·), ?_, ?_, ?_⟩
  · rw [← hstop]
    exact holes_eq 0 fun offset ho => hperm.mem_iff.mp ho
  · have hne := hperm.nodup_iff.mpr hnodup
    exact (hsorted.and hne).imp fun h => lt_of_le_of_ne h.1 h.2
  · intro offset
    rw [hperm.mem_iff, ← findKey_isSome_iff, hfind, findKey_isSome_iff]

/-! ## Entries and blocks -/

theorem block_eq_some {line : Line} {x : Extent} :
    block line = some x ↔ ∃ r, row line = some r ∧
      (0 ≤ r.blocknum ∧ 0 < r.offset ∧ 0 < r.size) ∧ ⟨r.offset, r.size⟩ = x := by
  simp [block, Option.bind_eq_some_iff, Option.guard_eq_some']

theorem entry_eq_some {line : Line} {e : Int × Int} :
    entry line = some e ↔ ∃ r, row line = some r ∧
      (0 ≤ r.blocknum ∧ 0 ≤ r.offset) ∧ (r.offset, r.size) = e := by
  simp [entry, Option.bind_eq_some_iff, Option.guard_eq_some']

/-- A block is an entry. -/
theorem entry_of_block {line : Line} {x : Extent} (h : block line = some x) :
    entry line = some (x.offset, x.size) ∧ 0 < x.offset ∧ 0 < x.size := by
  obtain ⟨r, hrow, ⟨hblock, hoffset, hsize⟩, rfl⟩ := block_eq_some.mp h
  exact ⟨entry_eq_some.mpr ⟨r, hrow, ⟨hblock, hoffset.le⟩, rfl⟩, hoffset, hsize⟩

/-- An entry is not in front of the file, and with a position and a size it is a block. -/
theorem block_of_entry {line : Line} {e : Int × Int} (h : entry line = some e) :
    0 ≤ e.1 ∧ (0 < e.1 → 0 < e.2 → block line = some ⟨e.1, e.2⟩) := by
  obtain ⟨r, hrow, ⟨hblock, hoffset⟩, rfl⟩ := entry_eq_some.mp h
  exact ⟨hoffset, fun hpos hsize => block_eq_some.mpr ⟨r, hrow, ⟨hblock, hpos, hsize⟩, rfl⟩⟩

/-- Blocks do not matter for position 0. -/
theorem findKey_zero (lines : List Line) :
    findKey Prod.fst 0 (lines.filterMap entry) =
      findKey Prod.fst 0 ((lines.filter fun line => block line = none).filterMap entry) := by
  induction lines with
  | nil => rfl
  | cons line lines ih =>
    unfold findKey at ih ⊢
    cases hblock : block line with
    | none =>
      rw [List.filter_cons_of_pos (by simpa using hblock)]
      cases hentry : entry line with
      | none => rw [List.filterMap_cons_none hentry, List.filterMap_cons_none hentry, ih]
      | some e =>
        rw [List.filterMap_cons_some hentry, List.filterMap_cons_some hentry, List.find?_cons,
          List.find?_cons, ih]
    | some x =>
      obtain ⟨hentry, hpos, -⟩ := entry_of_block hblock
      rw [List.filter_cons_of_neg (by simp [hblock]), List.filterMap_cons_some hentry,
        List.find?_cons_of_neg (by simp [hpos.ne']), ih]

section

variable {dump : List Char} {e : Int × Int} {x : Extent}

theorem mem_blocks : x ∈ blocks dump ↔ ∃ line ∈ lines dump, block line = some x :=
  List.mem_filterMap

/-- A position that is read belongs to an entry, and the first one counts. -/
theorem exists_entry {lines : List Line} {offset : Int}
    (h : offset ∈ (lines.filterMap entry).map Prod.fst) :
    ∃ line ∈ lines, ∃ size, entry line = some (offset, size) ∧
      findKey Prod.fst offset (lines.filterMap entry) = some (offset, size) := by
  obtain ⟨⟨key, size⟩, hfind⟩ := Option.isSome_iff_exists.mp (findKey_isSome_iff.mpr h)
  obtain ⟨hmem, rfl⟩ := mem_of_findKey hfind
  obtain ⟨line, hline, hentry⟩ := List.mem_filterMap.mp hmem
  exact ⟨line, hline, size, hentry, hfind⟩

/-! ## Lines that do no harm -/

/-- Without harm, a position is the one of a block. -/
theorem Harmless.block (h : Harmless (others dump)) {line : Line} (hline : line ∈ lines dump)
    (he : entry line = some e) (hpos : 0 < e.1) : block line = some ⟨e.1, e.2⟩ := by
  cases hblock : FractalTree.block line with
  | none =>
    have hother : e ∈ (others dump).filterMap entry :=
      List.mem_filterMap.mpr ⟨line, List.mem_filter.mpr ⟨hline, by simpa using hblock⟩, he⟩
    obtain ⟨-, -, size, -, hfind⟩ := exists_entry (List.mem_map_of_mem (f := Prod.fst) hother)
    exact absurd (h _ _ hfind).1 hpos.ne'
  | some x =>
    rw [(entry_of_block hblock).1] at he
    cases he
    rfl

/-- **A block is where its position is read**, and ends where it does. -/
theorem stopOf_block (h : Harmless (others dump)) (hapart : BlocksApart dump)
    (hx : x ∈ blocks dump) : x.offset ∈ ((lines dump).filterMap entry).map Prod.fst ∧
      (0 < x.offset ∧ 0 < x.size) ∧ stopOf ((lines dump).filterMap entry) x.offset = x.stop := by
  obtain ⟨line, hline, hblock⟩ := mem_blocks.mp hx
  obtain ⟨hentry, hpos, hsize⟩ := entry_of_block hblock
  have hkey : x.offset ∈ ((lines dump).filterMap entry).map Prod.fst :=
    List.mem_map.mpr ⟨_, List.mem_filterMap.mpr ⟨line, hline, hentry⟩, rfl⟩
  obtain ⟨line', hline', size, hentry', hfind⟩ := exists_entry hkey
  have hblock' := h.block hline' hentry' hpos
  refine ⟨hkey, ⟨hpos, hsize⟩, ?_⟩
  rw [stopOf_of_find hfind]
  -- the first line for the position is this block again
  rcases hapart x hx _ (mem_blocks.mpr ⟨line', hline', hblock'⟩) with heq | hdisjoint
  · rw [heq]
    rfl
  · have hsize' := (entry_of_block hblock').2.2
    refine absurd ⟨⟨le_rfl, ?_⟩, ⟨le_rfl, ?_⟩⟩ (hdisjoint x.offset)
    · unfold Extent.stop
      omega
    · simp only [Extent.stop] at hsize' ⊢
      omega

theorem exists_block (h : Harmless (others dump)) {offset : Int} (hpos : 0 < offset)
    (hkey : offset ∈ ((lines dump).filterMap entry).map Prod.fst) :
    ∃ x ∈ blocks dump, x.offset = offset := by
  obtain ⟨line, hline, size, hentry, -⟩ := exists_entry hkey
  exact ⟨_, mem_blocks.mpr ⟨line, hline, h.block hline hentry hpos⟩, rfl⟩

end

theorem printed_of_pos {stop : Int → Int} {lastoffset : Int} {bat : List Int}
    (hlast : 0 < lastoffset) (hpos : ∀ q ∈ bat, 0 < stop q) :
    printed stop lastoffset bat = match bat with
      | [] => []
      | offset :: _ => ⟨lastoffset, offset - lastoffset⟩ :: gaps stop bat := by
  induction bat generalizing lastoffset with
  | nil => rfl
  | cons offset bat ih =>
    rw [printed, if_pos hlast, ih (hpos offset (by simp)) fun q hq => hpos q (by simp [hq])]
    cases bat <;> rfl

/-- **Where every entry stops behind the front of the file**, the gaps are printed. -/
theorem printed_eq_gaps {stop : Int → Int} {lastoffset : Int} {bat : List Int}
    (hlast : lastoffset ≤ 0) (hpos : ∀ q ∈ bat, 0 < stop q) :
    printed stop lastoffset bat = gaps stop bat := by
  cases bat with
  | nil => rfl
  | cons offset bat =>
    rw [printed, if_neg (not_lt.mpr hlast), List.nil_append,
      printed_of_pos (hpos offset (by simp)) fun q hq => hpos q (by simp [hq])]
    cases bat <;> rfl

/-- An entry for position 0 comes first, and is not seen if it has no size. -/
theorem printed_filter {stop : Int → Int} {bat : List Int} (hsorted : bat.Pairwise (· < ·))
    (hnonneg : ∀ p ∈ bat, 0 ≤ p) (hzero : 0 ∈ bat → stop 0 ≤ 0)
    (hpos : ∀ p ∈ bat, 0 < p → 0 < stop p) :
    printed stop 0 bat = gaps stop (bat.filter fun p => 0 < p) := by
  cases bat with
  | nil => rfl
  | cons offset bat =>
    have hlater : ∀ p ∈ bat, 0 < p := fun p hp =>
      lt_of_le_of_lt (hnonneg offset (by simp)) ((List.pairwise_cons.mp hsorted).1 p hp)
    have hbat : bat.filter (fun p => 0 < p) = bat :=
      List.filter_eq_self.mpr fun p hp => decide_eq_true (hlater p hp)
    have hstops : ∀ p ∈ bat, 0 < stop p := fun p hp => hpos p (by simp [hp]) (hlater p hp)
    rcases (hnonneg offset (by simp)).eq_or_lt with rfl | hoffset
    · rw [List.filter_cons_of_neg (by simp), hbat, printed, if_neg (lt_irrefl 0), List.nil_append]
      exact printed_eq_gaps (hzero (by simp)) hstops
    · rw [List.filter_cons_of_pos (by simpa using hoffset), hbat]
      refine printed_eq_gaps le_rfl ?_
      rintro p (_ | ⟨_, hp⟩)
      · exact hpos offset (by simp) hoffset
      · exact hstops p hp

/-- **The gaps between the blocks** are the free space. -/
theorem unused_gaps {blocks : List Extent} {stop : Int → Int} {points : List Int}
    (hsize : ∀ x ∈ blocks, 0 < x.size)
    (hpoint : ∀ x ∈ blocks, x.offset ∈ points ∧ stop x.offset = x.stop)
    (hblock : ∀ p ∈ points, ∃ x ∈ blocks, x.offset = p) (hapart : Apart stop points) :
    Unused blocks (gaps stop points) := by
  constructor
  case size_nonneg => exact size_nonneg_of_mem_gaps hapart
  case header =>
    rintro x hx hfirst r hr b hb ⟨-, hlt⟩
    obtain ⟨⟨p, hp, hle⟩, -⟩ := missing_of_mem_gaps hapart hr hb
    obtain ⟨y, hy, rfl⟩ := hblock p hp
    exact absurd (hfirst y hy) (by omega)
  case live =>
    rintro x hx r hr b ⟨hb, hxb⟩
    obtain ⟨hmem, hstop⟩ := hpoint x hx
    exact (missing_of_mem_gaps hapart hr hb).2.2 _ hmem ⟨hxb.1, hstop ▸ hxb.2⟩
  case once =>
    intro x hx _ z hz _ b hlow hhigh hfree
    have hxsize := hsize x hx
    rw [countP_gaps hapart, if_pos]
    refine ⟨⟨_, (hpoint x hx).1, ?_⟩, ⟨_, (hpoint z hz).1, hhigh⟩, fun p hp hb => ?_⟩
    · unfold Extent.stop at hlow
      omega
    · obtain ⟨y, hy, rfl⟩ := hblock p hp
      exact hfree y hy ⟨hb.1, (hpoint y hy).2 ▸ hb.2⟩

/-- **Only free space is printed** if the other lines do no harm. -/
theorem printsUnused_of_harmless {dump : List Char} (h : Harmless (others dump))
    (hapart : BlocksApart dump) : PrintsUnused dump := by
  obtain ⟨bat, hmain, hsorted, hmem⟩ := main_eq dump
  have hnonneg : ∀ p ∈ bat, 0 ≤ p := by
    intro p hp
    obtain ⟨line, -, size, hentry, -⟩ := exists_entry ((hmem p).mp hp)
    exact (block_of_entry hentry).1
  have hzero : 0 ∈ bat → stopOf ((lines dump).filterMap entry) 0 ≤ 0 := by
    intro hbat
    obtain ⟨-, -, size, -, hfind⟩ := exists_entry ((hmem 0).mp hbat)
    rw [stopOf_of_find hfind, Int.zero_add]
    rw [findKey_zero] at hfind
    exact (h _ _ hfind).2
  have hblock : ∀ p ∈ bat.filter fun p => 0 < p, ∃ x ∈ blocks dump, x.offset = p := by
    intro p hp
    obtain ⟨hbat, hpos⟩ := List.mem_filter.mp hp
    exact exists_block h (by simpa using hpos) ((hmem p).mp hbat)
  have hpoint : ∀ x ∈ blocks dump, x.offset ∈ (bat.filter fun p => 0 < p) ∧
      stopOf ((lines dump).filterMap entry) x.offset = x.stop := by
    intro x hx
    obtain ⟨hkey, ⟨hpos, -⟩, hstop⟩ := stopOf_block h hapart hx
    exact ⟨List.mem_filter.mpr ⟨(hmem _).mpr hkey, by simpa using hpos⟩, hstop⟩
  have hpositive : ∀ x ∈ blocks dump, 0 < x.offset ∧ 0 < x.size :=
    fun x hx => (stopOf_block h hapart hx).2.1
  have hpoints : Apart (stopOf ((lines dump).filterMap entry)) (bat.filter fun p => 0 < p) := by
    constructor
    · intro p hp
      obtain ⟨x, hx, rfl⟩ := hblock p hp
      have hsize := (hpositive x hx).2
      rw [(hpoint x hx).2, Extent.stop]
      omega
    · refine ((hsorted.sublist List.filter_sublist).imp_of_mem ?_)
      intro p q hp hq hlt
      obtain ⟨x, hx, rfl⟩ := hblock p hp
      obtain ⟨y, hy, rfl⟩ := hblock q hq
      rw [(hpoint x hx).2]
      rcases hapart x hx y hy with rfl | hdisjoint
      · exact absurd hlt (lt_irrefl _)
      · exact Extent.stop_le (hpositive y hy).2 hdisjoint hlt.le
  refine ⟨_, hmain, ?_⟩
  rw [printed_filter hsorted hnonneg hzero]
  · exact unused_gaps (fun x hx => (hpositive x hx).2) hpoint hblock hpoints
  · intro p hp hpos
    have hlt := hpoints.lt_stop p (List.mem_filter.mpr ⟨hp, by simpa using hpos⟩)
    omega

/-! ## Lines that do harm -/

/-- A line for a block of one byte. -/
def blockLine (offset : Nat) : Line := '1' :: ' ' :: (Nat.toDigits 10 offset ++ [' ', '1'])

/-- Lines, and blocks behind them. -/
def withBlocks (lines : List Line) (offsets : List Nat) : List Char :=
  ['\n'].intercalate (lines ++ offsets.map blockLine)

theorem isDigit_toDigits {n : Nat} {c : Char} (h : c ∈ Nat.toDigits 10 n) : c.isDigit = true :=
  Nat.isDigit_of_mem_toDigits (by decide) (by decide) h

theorem isSpace_of_isDigit {c : Char} (h : c.isDigit = true) : isSpace c = false := by
  have hrange : 48 ≤ c.toNat := by
    rw [Char.isDigit, Bool.and_eq_true, decide_eq_true_eq] at h
    exact h.1
  have hspace : c ≠ ' ' := by
    rintro rfl
    exact absurd hrange (by decide)
  have hcontrol : ¬ c ≤ '\r' := fun hle => by
    have hle' : c.toNat ≤ 13 := hle
    omega
  rw [isSpace, decide_eq_false hspace, decide_eq_false hcontrol, Bool.and_false, Bool.or_false]

theorem row_blockLine (offset : Nat) : row (blockLine offset) = some ⟨1, offset, 1⟩ := by
  have hdigits : ∀ c ∈ Nat.toDigits 10 offset, isSpace c = false :=
    fun c hc => isSpace_of_isDigit (isDigit_toDigits hc)
  have hfields : fields (blockLine offset) = [['1'], Nat.toDigits 10 offset, ['1']] := by
    have hsplit : (blockLine offset).splitOnP isSpace = [['1'], Nat.toDigits 10 offset, ['1']] := by
      have hrest : ['1'].splitOnP isSpace = [['1']] := List.splitOnP_eq_singleton fun c hc => by
        rw [List.mem_singleton.mp hc]
        decide
      have hone : ∀ c ∈ ['1'], isSpace c = false := by
        intro c hc
        rw [List.mem_singleton.mp hc]
        decide
      have hfirst := List.splitOnP_append_cons_of_forall_mem hone ' ' rfl
        (Nat.toDigits 10 offset ++ [' ', '1'])
      rw [List.splitOnP_append_cons_of_forall_mem hdigits ' ' rfl, hrest] at hfirst
      exact hfirst
    rw [fields, hsplit]
    simp [Nat.toDigits_ne_nil]
  rw [row, hfields]
  simp only [int, signedValue_toDigits]
  rfl

theorem newline_notMem_blockLine (offset : Nat) : '\n' ∉ blockLine offset := by
  have hdigits : '\n' ∉ Nat.toDigits 10 offset := fun h =>
    absurd (isDigit_toDigits h) (by decide)
  simp [blockLine, hdigits]

theorem newline_notMem_lines (dump : List Char) : ∀ line ∈ lines dump, '\n' ∉ line := by
  unfold lines
  induction dump with
  | nil => simp
  | cons c dump ih =>
    rw [List.splitOn_cons_eq_if_modifyHead]
    split
    · simpa using ih
    · next hc =>
      cases hpieces : dump.splitOn '\n' with
      | nil => exact absurd hpieces (List.splitOn_ne_nil _ _)
      | cons piece pieces =>
        rw [hpieces] at ih
        rintro line (_ | ⟨_, hline⟩)
        · rw [List.mem_cons, not_or]
          exact ⟨fun h => hc (by simp [h.symm]), ih piece (by simp)⟩
        · exact ih line (List.mem_cons_of_mem _ hline)

theorem printed_last {stop : Int → Int} {m n : Int} (lastoffset : Int) (before : List Int) :
    printed stop lastoffset (before ++ [m, n]) = printed stop lastoffset (before ++ [m]) ++
      if 0 < stop m then [⟨stop m, n - stop m⟩] else [] := by
  induction before generalizing lastoffset with
  | nil => simp [printed]
  | cons p before ih =>
    simp only [List.cons_append, printed, ih, List.append_assoc]

/-- A range ends at a position. -/
theorem stop_mem_of_mem_printed {stop : Int → Int} {lastoffset : Int} {bat : List Int} {r : Extent}
    (h : r ∈ printed stop lastoffset bat) : r.stop ∈ bat := by
  induction bat generalizing lastoffset with
  | nil => cases h
  | cons offset bat ih =>
    rw [printed, List.mem_append] at h
    rcases h with h | h
    · split at h
      · rw [List.mem_singleton.mp h, Extent.stop, add_sub_cancel]
        exact List.mem_cons_self
      · cases h
    · exact List.mem_cons_of_mem _ (ih h)

/-- The end of a list in order. -/
theorem exists_eq_append_pair {bat : List Int} {m n : Int} (hsorted : bat.Pairwise (· < ·))
    (hm : m ∈ bat) (hn : n ∈ bat) (hlt : m < n) (hlast : ∀ p ∈ bat, p ≤ m ∨ p = n) :
    ∃ before, bat = before ++ [m, n] := by
  obtain ⟨before, after, rfl⟩ := List.append_of_mem hm
  have hafter := List.pairwise_append.mp hsorted
  obtain ⟨hgt, hrest⟩ := List.pairwise_cons.mp hafter.2.1
  have heq : ∀ p ∈ after, p = n := by
    intro p hp
    have hmp := hgt p hp
    rcases hlast p (by simp [hp]) with h | h
    · omega
    · exact h
  have hmem : n ∈ after := by
    rcases List.mem_append.mp hn with h | h
    · exact absurd (hafter.2.2 n h m (by simp)) (by omega)
    · rcases List.mem_cons.mp h with h | h
      · omega
      · exact h
  refine ⟨before, ?_⟩
  cases after with
  | nil => cases hmem
  | cons q after =>
    obtain rfl := heq q (by simp)
    cases after with
    | nil => rfl
    | cons q' after =>
      have hless := (List.pairwise_cons.mp hrest).1 q' (by simp)
      exact absurd (heq q' (by simp)) (by omega)

section

variable {ls : List Line} {offsets : List Nat}

theorem lines_withBlocks (hlines : ∀ line ∈ ls, '\n' ∉ line) (hne : offsets ≠ []) :
    lines (withBlocks ls offsets) = ls ++ offsets.map blockLine := by
  refine List.splitOn_intercalate '\n' (fun line hline => ?_) (by simp [hne])
  rcases List.mem_append.mp hline with h | h
  · exact hlines line h
  · obtain ⟨offset, -, rfl⟩ := List.mem_map.mp h
    exact newline_notMem_blockLine offset

theorem block_blockLine {offset : Nat} (h : 0 < offset) :
    block (blockLine offset) = some ⟨offset, 1⟩ :=
  block_eq_some.mpr ⟨_, row_blockLine offset, ⟨Int.one_nonneg, Int.natCast_pos.mpr h, Int.one_pos⟩, rfl⟩

/-- What the script makes of lines that are not blocks, with blocks behind them. -/
theorem withBlocks_spec (offsets : List Nat) (hother : ∀ line ∈ ls, block line = none ∧ '\n' ∉ line)
    (hpos : ∀ offset ∈ offsets, 0 < offset) (hne : offsets ≠ []) :
    others (withBlocks ls offsets) = ls ∧
      blocks (withBlocks ls offsets) = offsets.map (fun offset : Nat => ⟨offset, 1⟩) ∧
      (lines (withBlocks ls offsets)).filterMap entry =
        ls.filterMap entry ++ offsets.map fun offset : Nat => ((offset : Int), 1) := by
  have hlines := lines_withBlocks (fun line h => (hother line h).2) hne
  have hblock : ∀ line ∈ offsets.map blockLine, ∃ offset ∈ offsets, line = blockLine offset ∧
      block line = some ⟨offset, 1⟩ := by
    intro line h
    obtain ⟨offset, hoffset, rfl⟩ := List.mem_map.mp h
    exact ⟨offset, hoffset, rfl, block_blockLine (hpos offset hoffset)⟩
  refine ⟨?_, ?_, ?_⟩
  · rw [others, hlines, List.filter_append, List.filter_eq_self.mpr, List.filter_eq_nil_iff.mpr,
      List.append_nil]
    · intro line h
      obtain ⟨offset, -, -, hsome⟩ := hblock line h
      simp [hsome]
    · intro line h
      exact decide_eq_true (hother line h).1
  · rw [blocks, hlines, List.filterMap_append, List.filterMap_eq_nil_iff.mpr fun line h =>
      (hother line h).1, List.nil_append, List.filterMap_map]
    refine List.filterMap_eq_map_iff_forall_eq_some.mpr fun offset h => ?_
    exact block_blockLine (hpos offset h)
  · rw [hlines, List.filterMap_append, List.filterMap_map]
    refine congrArg _ (List.filterMap_eq_map_iff_forall_eq_some.mpr fun offset h => ?_)
    exact (entry_of_block (block_blockLine (hpos offset h))).1

/-- Blocks of one byte are equal, or have nothing in common. -/
theorem blocksApart_of_bytes {dump : List Char}
    (h : blocks dump = offsets.map fun offset : Nat => ⟨offset, 1⟩) : BlocksApart dump := by
  unfold BlocksApart
  rw [h]
  intro x hx y hy
  obtain ⟨i, -, rfl⟩ := List.mem_map.mp hx
  obtain ⟨j, -, rfl⟩ := List.mem_map.mp hy
  by_cases hij : i = j
  · exact .inl (by rw [hij])
  · refine .inr fun b hb => ?_
    simp only [Extent.Has, Extent.stop] at hb
    omega

/-- **What is printed at the end**: the range from where the last entry but one stops. -/
theorem main_last (dump : List Char) {m n : Int}
    (hm : m ∈ ((lines dump).filterMap entry).map Prod.fst)
    (hn : n ∈ ((lines dump).filterMap entry).map Prod.fst) (hlt : m < n)
    (hlast : ∀ p ∈ ((lines dump).filterMap entry).map Prod.fst, p ≤ m ∨ p = n) :
    ∃ before, main dump = some (before ++
        if 0 < stopOf ((lines dump).filterMap entry) m then
          [⟨stopOf ((lines dump).filterMap entry) m,
            n - stopOf ((lines dump).filterMap entry) m⟩] else []) ∧
      ∀ r ∈ before, r.stop ≤ m := by
  obtain ⟨bat, hmain, hsorted, hmem⟩ := main_eq dump
  obtain ⟨before, rfl⟩ := exists_eq_append_pair hsorted ((hmem m).mpr hm) ((hmem n).mpr hn) hlt
    fun p hp => hlast p ((hmem p).mp hp)
  rw [printed_last] at hmain
  refine ⟨_, hmain, fun r hr => ?_⟩
  rcases List.mem_append.mp (stop_mem_of_mem_printed hr) with h | h
  · exact ((List.pairwise_append.mp hsorted).2.2 _ h m (by simp)).le
  · rw [List.mem_singleton.mp h]

/-- The first entry for a position is still there when blocks come behind it. -/
theorem stopOf_append {es fs : List (Int × Int)} {offset size : Int}
    (h : findKey Prod.fst offset es = some (offset, size)) :
    stopOf (es ++ fs) offset = offset + size := by
  refine stopOf_of_find ?_
  unfold findKey at h ⊢
  rw [List.find?_append, h]
  rfl

/-- **A row for a position without a block** takes away a byte of a block at that position, or
hides the space behind it. -/
theorem not_printsUnused_of_row (hother : ∀ line ∈ ls, block line = none ∧ '\n' ∉ line) {m : Nat}
    (hm : (m : Int) ∈ (ls.filterMap entry).map Prod.fst) (hpos : 0 < m)
    (hmax : ∀ p ∈ (ls.filterMap entry).map Prod.fst, p ≤ m) :
    ¬ PrintsUnused (withBlocks ls [m, m + 2]) := by
  rintro ⟨ranges, hmain, hunused⟩
  obtain ⟨-, hblocks, hentries⟩ := withBlocks_spec [m, m + 2] hother (by simp; omega) (by simp)
  obtain ⟨line, hline, size, hentry, hfind⟩ := exists_entry hm
  have hsize : size ≤ 0 := by
    by_contra hnot
    have hsome := (block_of_entry hentry).2 (Int.natCast_pos.mpr hpos) (not_le.mp hnot)
    rw [(hother line hline).1] at hsome
    cases hsome
  have hlast : ∀ p ∈ ((lines (withBlocks ls [m, m + 2])).filterMap entry).map Prod.fst,
      p ≤ m ∨ p = ((m + 2 : Nat) : Int) := by
    rw [hentries]
    intro p hp
    simp only [List.map_append, List.map_cons, List.map_nil, List.mem_append, List.mem_cons,
      List.not_mem_nil, or_false] at hp
    rcases hp with hp | rfl | rfl
    · exact .inl (hmax p hp)
    · exact .inl le_rfl
    · exact .inr rfl
  obtain ⟨before, hprinted, hbefore⟩ := main_last (withBlocks ls [m, m + 2])
    (by rw [hentries]; simp) (by rw [hentries]; simp) (by omega) hlast
  rw [hentries, stopOf_append hfind, hmain] at hprinted
  cases hprinted
  rw [hblocks] at hunused
  by_cases hstop : 0 < (m : Int) + size
  · -- the range begins in front of the block
    rw [if_pos hstop] at hunused
    refine hunused.live ⟨m, 1⟩ (by simp) _ (List.mem_append_right _ (List.mem_singleton_self _)) m
      ⟨?_, le_rfl, ?_⟩
    · simp only [Extent.Has, Extent.stop]
      omega
    · simp only [Extent.stop]
      omega
  · -- there is no range behind it
    have honce := hunused.once ⟨m, 1⟩ (by simp) (by simp) ⟨(m + 2 : Nat), 1⟩ (by simp)
      (by simp) (m + 1) le_rfl (by dsimp only; omega) (by
        simp only [List.map_cons, List.map_nil, List.mem_cons, List.not_mem_nil, or_false,
          Extent.Has, Extent.stop]
        rintro y (rfl | rfl) <;> dsimp only <;> omega)
    rw [if_neg hstop, List.append_nil] at honce
    have hzero : before.countP (fun r => r.Has ((m : Int) + 1)) = 0 := by
      refine List.countP_eq_zero.mpr fun r hr hhas => ?_
      have hle := hbefore r hr
      have hlt := (of_decide_eq_true hhas).2
      omega
    omega

/-- **A row for position 0 with a size** takes away the header behind it. -/
theorem not_printsUnused_of_front (hother : ∀ line ∈ ls, block line = none ∧ '\n' ∉ line) {m : Nat}
    (hfront : ∀ p ∈ (ls.filterMap entry).map Prod.fst, p = 0)
    (hfind : findKey Prod.fst 0 (ls.filterMap entry) = some (0, (m : Int))) (hpos : 0 < m) :
    ¬ PrintsUnused (withBlocks ls [m + 1]) := by
  rintro ⟨ranges, hmain, hunused⟩
  obtain ⟨-, hblocks, hentries⟩ := withBlocks_spec [m + 1] hother (by simp) (by simp)
  have hkey : (0 : Int) ∈ (ls.filterMap entry).map Prod.fst :=
    List.mem_map_of_mem (f := Prod.fst) (mem_of_findKey hfind).1
  have hlast : ∀ p ∈ ((lines (withBlocks ls [m + 1])).filterMap entry).map Prod.fst,
      p ≤ 0 ∨ p = ((m + 1 : Nat) : Int) := by
    rw [hentries]
    intro p hp
    rw [List.map_append, List.mem_append] at hp
    rcases hp with hp | hp
    · exact .inl (hfront p hp).le
    · exact .inr (by simpa using hp)
  obtain ⟨before, hprinted, -⟩ := main_last (withBlocks ls [m + 1])
    (by rw [hentries, List.map_append]; exact List.mem_append_left _ hkey)
    (by rw [hentries]; simp) (by omega) hlast
  rw [hentries, stopOf_append hfind, hmain, if_pos (by omega)] at hprinted
  cases hprinted
  rw [hblocks] at hunused
  refine hunused.header ⟨(m + 1 : Nat), 1⟩ (by simp) (by simp) _
    (List.mem_append_right _ (List.mem_singleton_self _)) m ?_ ⟨by omega, by dsimp only; omega⟩
  simp only [Extent.Has, Extent.stop]
  omega

end

/-- **Only free space is printed**, whatever the blocks are, exactly if the other lines do no
harm. -/
theorem unused_iff (dump : List Char) :
    (∀ dump', others dump' = others dump → BlocksApart dump' → PrintsUnused dump') ↔
      Harmless (others dump) := by
  constructor
  · intro h offset e hfind
    have hother : ∀ line ∈ others dump, block line = none ∧ '\n' ∉ line := by
      intro line hline
      obtain ⟨hmem, hblock⟩ := List.mem_filter.mp hline
      exact ⟨by simpa using hblock, newline_notMem_lines dump line hmem⟩
    have hnonneg : ∀ p ∈ ((others dump).filterMap entry).map Prod.fst, 0 ≤ p := by
      intro p hp
      obtain ⟨line, -, size, hentry, -⟩ := exists_entry hp
      exact (block_of_entry hentry).1
    -- no row for a position
    have hfront : ∀ p ∈ ((others dump).filterMap entry).map Prod.fst, p = 0 := by
      by_contra hnot
      simp only [not_forall] at hnot
      obtain ⟨p, hp, hne⟩ := hnot
      obtain ⟨m, hm, hmax⟩ := Finset.exists_max_image
        (((others dump).filterMap entry).map Prod.fst).toFinset id ⟨p, List.mem_toFinset.mpr hp⟩
      have hmax' : ∀ q ∈ ((others dump).filterMap entry).map Prod.fst, q ≤ m :=
        fun q hq => hmax q (List.mem_toFinset.mpr hq)
      rw [List.mem_toFinset] at hm
      obtain ⟨k, rfl⟩ := Int.eq_ofNat_of_zero_le (hnonneg m hm)
      have hpos : 0 < k := by
        have hp₀ := hnonneg p hp
        have hpm := hmax' p hp
        omega
      obtain ⟨hothers, hblocks, -⟩ := withBlocks_spec [k, k + 2] hother (by simp; omega) (by simp)
      exact not_printsUnused_of_row hother hm hpos hmax'
        (h _ hothers (blocksApart_of_bytes hblocks))
    obtain ⟨hmem, rfl⟩ := mem_of_findKey hfind
    have hzero := hfront e.1 (List.mem_map_of_mem hmem)
    refine ⟨hzero, ?_⟩
    by_contra hsize
    obtain ⟨m, hm⟩ := Int.eq_ofNat_of_zero_le (not_le.mp hsize).le
    obtain ⟨hothers, hblocks, -⟩ := withBlocks_spec [m + 1] hother (by simp) (by simp)
    refine not_printsUnused_of_front hother hfront ?_ (by omega)
      (h _ hothers (blocksApart_of_bytes hblocks))
    rw [hzero] at hfind
    rw [hfind, ← hm, ← hzero]
  · intro h dump' hothers hapart
    exact printsUnused_of_harmless (hothers ▸ h) hapart

/-- Two blocks, and a row of the free list with 3 for the next free block. -/
def freeListDump : List Char :=
  ['0', '\t', '8', '1', '9', '2', '\t', '1', '0', '2', '4', '\n',
   '1', '\t', '1', '2', '2', '8', '8', '\t', '5', '1', '2', '\n',
   '2', '\t', '3', '\t', '-', '1', '\n']

/-- The first range begins at 2, and takes away the header. -/
theorem unused_takes_header : ¬ ∀ dump, BlocksApart dump → PrintsUnused dump := by
  intro h
  have hblocks : blocks freeListDump = [⟨8192, 1024⟩, ⟨12288, 512⟩] := by decide
  have hmain : main freeListDump = some [⟨2, 8190⟩, ⟨9216, 3072⟩] := by decide
  have hapart : BlocksApart freeListDump := by
    unfold BlocksApart
    rw [hblocks]
    simp only [List.mem_cons, List.not_mem_nil, or_false, Extent.Has, Extent.stop]
    rintro x (rfl | rfl) y (rfl | rfl)
    · exact .inl rfl
    · exact .inr fun b hb => by dsimp only at hb; omega
    · exact .inr fun b hb => by dsimp only at hb; omega
    · exact .inl rfl
  obtain ⟨ranges, hprinted, hunused⟩ := h freeListDump hapart
  rw [hmain] at hprinted
  cases hprinted
  rw [hblocks] at hunused
  exact hunused.header ⟨8192, 1024⟩ (by simp) (by simp) ⟨2, 8190⟩ (by simp) 2 (by decide)
    (by decide)

end TokuQa.FractalTree
