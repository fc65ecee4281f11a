import TokuQa.Tpcc.GenLines
import TokuQa.Tpcc.LoadTables

/-!
# `gen.c`: what it writes

With the number of warehouses alone, `gen.c` opens its nine files and writes what `load.c` inserts.
With a part and a range of warehouses it writes that part, and has opened no file.

The lines are right where the statement has no constant: `PrintBind` is given what was bound.
-/

set_option autoImplicit false

namespace TokuQa.Tpcc

open TokuQa.Lib

/-! ## Everything drawn is plain -/

theorem mem_makeString {array : List Char} {arrmax x y : Nat} {d : StringDraws} {c : Char}
    (h : c ∈ (makeString array arrmax x y d).toList) : c ∈ array ∨ c = '0' := by
  rw [makeString, String.toList_ofList, List.mem_map] at h
  obtain ⟨i, -, rfl⟩ := h
  rw [List.getD_eq_getElem?_getD]
  cases hget : array[randomNumber (d.chars i) 0 arrmax]? with
  | none => exact .inr rfl
  | some a => exact .inl (List.mem_of_getElem? hget)

/-- Only letters and digits. -/
theorem plain_makeAlphaString {x y : Nat} {d : StringDraws} :
    (Bind.string (makeAlphaString x y d)).Plain := by
  intro c hc
  have hall : alphanum.all plain = true := by decide
  rcases mem_makeString hc with hmem | rfl
  · exact List.all_eq_true.mp hall c hmem
  · decide

theorem plain_makeNumberString {x y : Nat} {d : StringDraws} :
    (Bind.string (makeNumberString x y d)).Plain := by
  intro c hc
  have hall : numeric.all plain = true := by decide
  rcases mem_makeString hc with hmem | rfl
  · exact List.all_eq_true.mp hall c hmem
  · decide

theorem plain_makeData {data : StringDraws} {orig : Bool} {pos : Nat} :
    (Bind.string (makeData data orig pos)).Plain := by
  have hdata : ∀ c ∈ (makeAlphaString 26 50 data).toList, plain c = true := plain_makeAlphaString
  have hword : ∀ c ∈ "original".toList, plain c = true := List.all_eq_true.mp (by decide)
  intro c hc
  simp only [makeData, String.toList_ofList] at hc
  split at hc
  · rcases List.mem_append.mp hc with hc | hc
    · rcases List.mem_append.mp hc with hc | hc
      · exact hdata c (List.mem_of_mem_take hc)
      · exact hword c hc
    · exact hdata c (List.mem_of_mem_drop hc)
  · exact hdata c hc

theorem plain_lastname {num : Nat} : (Bind.string (lastname num)).Plain := by
  have hall : ("" :: syllables).all (fun s => s.toList.all plain) = true := by decide
  have hget : ∀ n, syllables.getD n "" ∈ "" :: syllables := by
    intro n
    rw [List.getD_eq_getElem?_getD]
    cases hget : syllables[n]? with
    | none => exact List.mem_cons_self
    | some s => exact List.mem_cons_of_mem _ (List.mem_of_getElem? hget)
  intro c hc
  rw [lastname, String.toList_append, String.toList_append, List.mem_append, List.mem_append] at hc
  have hplain := fun n => List.all_eq_true.mp (List.all_eq_true.mp hall _ (hget n))
  rcases hc with (hc | hc) | hc <;> exact hplain _ c hc

theorem plain_append_cons {cs cs' : List Char} {sep : Char} (h : ∀ c ∈ cs, plain c = true)
    (hsep : plain sep = true) (h' : ∀ c ∈ cs', plain c = true) :
    ∀ c ∈ cs ++ sep :: cs', plain c = true :=
  List.forall_mem_append.mpr ⟨h, List.forall_mem_cons.mpr ⟨hsep, h'⟩⟩

theorem plain_gettimestamp (tm : Tm) : (Bind.string (gettimestamp tm)).Plain := by
  have hdigits : ∀ n, ∀ c ∈ Nat.toDigits 10 n, plain c = true :=
    fun n c hc => plain_of_isDigit (isDigit_toDigits hc)
  have htwo : ∀ n, ∀ c ∈ twoDigits n, plain c = true := by
    intro n c hc
    rw [twoDigits] at hc
    split at hc
    · rcases List.mem_cons.mp hc with rfl | hc
      · decide
      · exact hdigits n c hc
    · exact hdigits n c hc
  intro c hc
  rw [gettimestamp, String.toList_ofList] at hc
  refine plain_append_cons (plain_append_cons (plain_append_cons (plain_append_cons
    (plain_append_cons (hdigits _) ?_ (htwo _)) ?_ (htwo _)) ?_ (htwo _)) ?_ (htwo _)) ?_ (htwo _)
    c hc <;> decide

theorem plain_hundredths (n : Nat) : (Bind.float ((n : ℚ) / 100)).Plain :=
  HasDecimals.mono ⟨n, by norm_num⟩ (by decide : 2 ≤ 6)

theorem plain_integer (m : Int) : (Bind.float (m : ℚ)).Plain := hasDecimals_intCast 6 m

theorem itemInsert_plain (d : ItemDraws) (iId : Int) : (itemInsert d iId).Plain := by
  simp only [Insert.Plain, itemInsert, Insert.param, List.forall_mem_cons]
  exact ⟨trivial, trivial, plain_makeAlphaString, plain_hundredths _, plain_makeData, by simp⟩

theorem wareInsert_plain (d : WareDraws) (wId : Int) : (wareInsert d wId).Plain := by
  simp only [Insert.Plain, wareInsert, makeAddress, Insert.param, List.forall_mem_cons]
  exact ⟨trivial, plain_makeAlphaString, plain_makeAlphaString, plain_makeAlphaString,
    plain_makeAlphaString, plain_makeAlphaString, plain_makeNumberString, plain_hundredths _,
    plain_integer 3000000, by simp⟩

theorem stockInsert_plain (d : StockDraws) (wId sIId : Int) : (stockInsert d wId sIId).Plain := by
  simp only [Insert.Plain, stockInsert, Insert.param, List.forall_mem_cons, Vector.getElem_ofFn]
  exact ⟨trivial, trivial, trivial, plain_makeAlphaString, plain_makeAlphaString,
    plain_makeAlphaString, plain_makeAlphaString, plain_makeAlphaString, plain_makeAlphaString,
    plain_makeAlphaString, plain_makeAlphaString, plain_makeAlphaString, plain_makeAlphaString,
    plain_makeData, by simp⟩

theorem districtInsert_plain (d : DistrictDraws) (wId dId : Int) :
    (districtInsert d wId dId).Plain := by
  simp only [Insert.Plain, districtInsert, makeAddress, Insert.param, List.forall_mem_cons]
  exact ⟨trivial, trivial, plain_makeAlphaString, plain_makeAlphaString, plain_makeAlphaString,
    plain_makeAlphaString, plain_makeAlphaString, plain_makeNumberString, plain_hundredths _,
    plain_integer 30000, trivial, by simp⟩

section

variable (tm : Tm)

theorem customerInsert_plain (d : CustomerDraws) (wId dId cId : Int) :
    (customerInsert d (gettimestamp tm) wId dId cId).Plain := by
  have hmiddle : (Bind.string "OE").Plain := by
    exact List.all_eq_true.mp (by decide : "OE".toList.all plain = true)
  have hcredit : (Bind.string (if randomNumber d.credit 0 1 ≠ 0 then "GC" else "BC")).Plain := by
    split
    · exact List.all_eq_true.mp (by decide : "GC".toList.all plain = true)
    · exact List.all_eq_true.mp (by decide : "BC".toList.all plain = true)
  simp only [Insert.Plain, customerInsert, makeAddress, Insert.param, List.forall_mem_cons]
  exact ⟨trivial, trivial, trivial, plain_makeAlphaString, hmiddle, plain_lastname,
    plain_makeAlphaString, plain_makeAlphaString, plain_makeAlphaString, plain_makeAlphaString,
    plain_makeNumberString, plain_makeNumberString, plain_gettimestamp tm, hcredit, trivial,
    plain_hundredths _, plain_integer (-10), plain_makeAlphaString, by simp⟩

theorem historyInsert_plain (d : CustomerDraws) (wId dId cId : Int) :
    (historyInsert d (gettimestamp tm) wId dId cId).Plain := by
  simp only [Insert.Plain, historyInsert, Insert.param, List.forall_mem_cons]
  exact ⟨trivial, trivial, trivial, trivial, trivial, plain_gettimestamp tm, plain_integer 10,
    plain_makeAlphaString, by simp⟩

theorem orderInserts_plain (d : OrderDraws) (wId dId oId oCId : Int) :
    ∀ i ∈ orderInserts d (gettimestamp tm) wId dId oId oCId, i.Plain := by
  unfold orderInserts
  split
  · simp only [List.forall_mem_cons, Insert.Plain, Insert.param]
    exact ⟨⟨trivial, trivial, trivial, trivial, plain_gettimestamp tm, trivial, by simp⟩,
      ⟨trivial, trivial, trivial, by simp⟩, by simp⟩
  · simp only [List.forall_mem_cons, Insert.Plain, Insert.param]
    exact ⟨⟨trivial, trivial, trivial, trivial, plain_gettimestamp tm, trivial, trivial, by simp⟩,
      by simp⟩

theorem lineInsert_plain (d : LineDraws) (wId dId oId ol : Int) :
    (lineInsert d (gettimestamp tm) wId dId oId ol).Plain := by
  unfold lineInsert
  split
  · simp only [Insert.Plain, Insert.param, List.forall_mem_cons]
    exact ⟨trivial, trivial, trivial, trivial, trivial, trivial, trivial, plain_integer 0,
      plain_makeAlphaString, by simp⟩
  · simp only [Insert.Plain, Insert.param, List.forall_mem_cons]
    exact ⟨trivial, trivial, trivial, trivial, trivial, trivial, plain_gettimestamp tm, trivial,
      plain_hundredths _, plain_makeAlphaString, by simp⟩

end

/-! ## The program -/

section

variable (d : LoadDraws) (now : String) (args : List Int)

/-- What `part_no` is loaded. -/
def partInserts (partNo minWare maxWare : Int) : List Insert :=
  if partNo = 1 then itemInserts d.item
  else if partNo = 2 then (wares minWare maxWare).flatMap (wareInserts d)
  else if partNo = 3 then (districtsOf minWare maxWare).flatMap fun k =>
    customerInserts (d.customer k.1 k.2) now k.1 k.2
  else if partNo = 4 then (districtsOf minWare maxWare).flatMap fun k =>
    ordersInserts (d.orders k.1 k.2) now k.1 k.2
  else []

/-- The statements of `load.c` for the same arguments: what `atoi` makes of them. Both programs
refuse other numbers of arguments, and a number of warehouses that is not positive. -/
def loaded : Option (List Insert) :=
  match args with
  | [countWare] => if countWare ≤ 0 then none else some (allInserts d now 1 countWare)
  | [countWare, partNo, minWare, maxWare] =>
    if countWare ≤ 0 then none else some (partInserts d now partNo minWare maxWare)
  | _ => none

/-- Which of the nine `FILE *` are not `NULL`. -/
abbrev Files := Table → Bool

def noFiles : Files := fun _ => false

/-- `OpenFiles`; `fopen` does not fail, or an assertion does. -/
def openFiles (_ : Files) : Files := fun _ => true

/-- A line, the file it goes to, and whether it is open then. -/
structure Write where
  file : Table
  opened : Bool
  line : List Char

def write (files : Files) (i : Insert) : Write := ⟨i.table, files i.table, i.line⟩

/-- What `main` writes. -/
def gen : Option (List Write) :=
  match args with
  | [countWare] =>
    if countWare ≤ 0 then none
    else
      let files := openFiles noFiles
      some ((allInserts d now 1 countWare).map (write files))
  | [countWare, partNo, minWare, maxWare] =>
    if countWare ≤ 0 then none
    else some ((partInserts d now partNo minWare maxWare).map (write noFiles))
  | _ => none

/-- Each line that is written is right, and the rows are those of `load.c`. -/
def LinesRight : Prop :=
  ∀ writes ∈ gen d now args, ∃ inserts ∈ loaded d now args,
    List.Forall₂ (fun w i => w.file = i.table ∧ LineRight w.line i) writes inserts

/-- Nothing is written to a file that is not open. -/
def FilesOpened : Prop := ∀ writes ∈ gen d now args, ∀ w ∈ writes, w.opened = true

/-- The arguments with which nothing is written: they are refused, or there is no such part or no
warehouse in it. -/
def Silent : Prop :=
  match args with
  | [countWare] => countWare ≤ 0
  | [countWare, partNo, minWare, maxWare] =>
    countWare ≤ 0 ∨ ¬ (partNo = 1 ∨ ((partNo = 2 ∨ partNo = 3 ∨ partNo = 4) ∧ minWare ≤ maxWare))
  | _ => True

/-- The arguments with which only the items are written. -/
def OnlyItems : Prop := ∃ countWare minWare maxWare, args = [countWare, 1, minWare, maxWare]

end

/-- The files as they are when `main` writes. -/
def filesFor (args : List Int) : Files := if args.length = 1 then openFiles noFiles else noFiles

section

variable {d : LoadDraws} {now : String} {args : List Int} {files : Files} {l : List Insert}
  {partNo minWare maxWare : Int}

theorem gen_eq : gen d now args = (loaded d now args).map (List.map (write (filesFor args))) := by
  unfold gen loaded filesFor
  split
  · split <;> rfl
  · split <;> rfl
  · rfl

/-! ## Every statement is plain -/

theorem wareInserts_plain (wId : Int) : ∀ i ∈ wareInserts d wId, i.Plain := by
  refine List.forall_mem_cons.mpr ⟨wareInsert_plain _ wId, List.forall_mem_append.mpr ⟨?_, ?_⟩⟩
  · exact List.forall_mem_map.mpr fun sIId _ => stockInsert_plain _ wId sIId
  · exact List.forall_mem_map.mpr fun dId _ => districtInsert_plain _ wId dId

theorem customerInserts_plain (tm : Tm) (draws : Int → CustomerDraws) (wId dId : Int) :
    ∀ i ∈ customerInserts draws (gettimestamp tm) wId dId, i.Plain := by
  refine List.forall_mem_flatMap.mpr fun cId _ => ?_
  exact List.forall_mem_cons.mpr ⟨customerInsert_plain tm _ wId dId cId,
    List.forall_mem_singleton.mpr (historyInsert_plain tm _ wId dId cId)⟩

theorem ordersInserts_plain (tm : Tm) (draws : OrdersDraws) (wId dId : Int) :
    ∀ i ∈ ordersInserts draws (gettimestamp tm) wId dId, i.Plain := by
  refine List.forall_mem_flatMap.mpr fun oId _ => List.forall_mem_append.mpr ⟨?_, ?_⟩
  · exact orderInserts_plain tm _ wId dId oId _
  · exact List.forall_mem_map.mpr fun ol _ => lineInsert_plain tm _ wId dId oId ol

theorem partInserts_plain (tm : Tm) :
    ∀ i ∈ partInserts d (gettimestamp tm) partNo minWare maxWare, i.Plain := by
  unfold partInserts
  split_ifs
  · exact List.forall_mem_map.mpr fun iId _ => itemInsert_plain _ iId
  · exact List.forall_mem_flatMap.mpr fun wId _ => wareInserts_plain wId
  · exact List.forall_mem_flatMap.mpr fun k _ => customerInserts_plain tm _ k.1 k.2
  · exact List.forall_mem_flatMap.mpr fun k _ => ordersInserts_plain tm _ k.1 k.2
  · exact fun i hi => absurd hi (List.not_mem_nil)

/-- The whole load is its four parts. -/
theorem allInserts_eq : allInserts d now minWare maxWare =
    partInserts d now 1 minWare maxWare ++ (partInserts d now 2 minWare maxWare ++
      (partInserts d now 3 minWare maxWare ++ partInserts d now 4 minWare maxWare)) := rfl

/-- The arguments are refused, a number of warehouses, or a part of them. -/
theorem loaded_cases (d : LoadDraws) (now : String) (args : List Int) :
    (loaded d now args = none ∧ Silent args) ∨
    (∃ countWare, args = [countWare] ∧ 0 < countWare ∧
      loaded d now args = some (allInserts d now 1 countWare)) ∨
    ∃ countWare partNo minWare maxWare, args = [countWare, partNo, minWare, maxWare] ∧
      0 < countWare ∧ loaded d now args = some (partInserts d now partNo minWare maxWare) := by
  match args with
  | [countWare] =>
    by_cases h : countWare ≤ 0
    · exact .inl ⟨if_pos h, h⟩
    · exact .inr (.inl ⟨countWare, rfl, not_le.mp h, if_neg h⟩)
  | [countWare, partNo, minWare, maxWare] =>
    by_cases h : countWare ≤ 0
    · exact .inl ⟨if_pos h, .inl h⟩
    · exact .inr (.inr ⟨countWare, partNo, minWare, maxWare, rfl, not_le.mp h, if_neg h⟩)
  | [] => exact .inl ⟨rfl, trivial⟩
  | [_, _] => exact .inl ⟨rfl, trivial⟩
  | [_, _, _] => exact .inl ⟨rfl, trivial⟩
  | _ :: _ :: _ :: _ :: _ :: _ => exact .inl ⟨rfl, trivial⟩

theorem loaded_plain (tm : Tm) (hl : loaded d (gettimestamp tm) args = some l) :
    ∀ i ∈ l, i.Plain := by
  rcases loaded_cases d (gettimestamp tm) args with ⟨h, -⟩ | ⟨n, -, -, h⟩ | ⟨n, p, lo, hi, -, -, h⟩
  · cases h.symm.trans hl
  · obtain rfl := Option.some.inj (h.symm.trans hl)
    intro i hi
    rw [allInserts_eq, List.mem_append, List.mem_append, List.mem_append] at hi
    rcases hi with hi | hi | hi | hi <;> exact partInserts_plain tm i hi
  · obtain rfl := Option.some.inj (h.symm.trans hl)
    exact partInserts_plain tm

/-! ## Which statements have constants -/

theorem itemInsert_onlyParams (draws : ItemDraws) (iId : Int) :
    (itemInsert draws iId).OnlyParams := rfl

theorem not_onlyParams_stockInsert (draws : StockDraws) (wId sIId : Int) :
    ¬ (stockInsert draws wId sIId).OnlyParams := nofun

theorem not_onlyParams_customerInsert (draws : CustomerDraws) (wId dId cId : Int) :
    ¬ (customerInsert draws now wId dId cId).OnlyParams := nofun

theorem exists_not_onlyParams_orderInserts (draws : OrderDraws) (now : String)
    (wId dId oId oCId : Int) :
    ∃ i ∈ orderInserts draws now wId dId oId oCId, ¬ i.OnlyParams := by
  unfold orderInserts
  split
  · exact ⟨_, List.mem_cons_self, nofun⟩
  · exact ⟨_, List.mem_cons_self, nofun⟩

theorem first_mem_districtsOf (h : minWare ≤ maxWare) :
    (minWare, 1) ∈ districtsOf minWare maxWare :=
  List.mem_flatMap.mpr ⟨minWare, mem_wares.mpr ⟨le_rfl, h⟩,
    List.mem_map.mpr ⟨1, mem_upTo.mpr (by decide), rfl⟩⟩

/-- The warehouses, the customers and the orders have constants. -/
theorem exists_not_onlyParams (d : LoadDraws) (now : String)
    (hpart : partNo = 2 ∨ partNo = 3 ∨ partNo = 4) (h : minWare ≤ maxWare) :
    ∃ i ∈ partInserts d now partNo minWare maxWare, ¬ i.OnlyParams := by
  rcases hpart with rfl | rfl | rfl
  · refine ⟨_, List.mem_flatMap.mpr ⟨minWare, mem_wares.mpr ⟨le_rfl, h⟩, List.mem_cons_of_mem _
      (List.mem_append_left _ (List.mem_map_of_mem (mem_upTo.mpr ?_)))⟩,
      not_onlyParams_stockInsert _ minWare 1⟩
    decide
  · refine ⟨_, List.mem_flatMap.mpr ⟨(minWare, 1), first_mem_districtsOf h, List.mem_flatMap.mpr
      ⟨1, mem_upTo.mpr ?_, List.mem_cons_self⟩⟩, not_onlyParams_customerInsert _ minWare 1 1⟩
    decide
  · obtain ⟨i, hi, hnot⟩ := exists_not_onlyParams_orderInserts
      ((d.orders minWare 1).order 1) now minWare 1 1 ((d.orders minWare 1).oCId 1)
    refine ⟨i, List.mem_flatMap.mpr ⟨(minWare, 1), first_mem_districtsOf h, List.mem_flatMap.mpr
      ⟨1, mem_upTo.mpr ?_, List.mem_append_left _ hi⟩⟩, hnot⟩
    decide

theorem linesRight_writes (hplain : ∀ i ∈ l, i.Plain) :
    List.Forall₂ (fun w i => w.file = i.table ∧ LineRight w.line i) (l.map (write files)) l ↔
      ∀ i ∈ l, i.OnlyParams := by
  rw [List.forall₂_map_left_iff, List.forall₂_same]
  exact forall₂_congr fun i hi => (and_iff_right rfl).trans (lineRight_iff (hplain i hi))

/-- The lines are right if there are no constants. -/
theorem linesRight_iff (tm : Tm) : LinesRight d (gettimestamp tm) args ↔
    ∀ l ∈ loaded d (gettimestamp tm) args, ∀ i ∈ l, i.OnlyParams := by
  rw [LinesRight, gen_eq]
  cases h : loaded d (gettimestamp tm) args with
  | none => simp
  | some l =>
    have hplain := loaded_plain tm h
    simp only [Option.map_some, Option.mem_some_iff, forall_eq', exists_eq_left']
    exact linesRight_writes hplain

/-- The files are open if there is no part. -/
theorem filesOpened_iff :
    FilesOpened d now args ↔ args.length = 1 ∨ ∀ l ∈ loaded d now args, l = [] := by
  rw [FilesOpened, gen_eq]
  cases h : loaded d now args with
  | none => simp
  | some l =>
    simp only [Option.map_some, Option.mem_some_iff, forall_eq', List.forall_mem_map]
    by_cases hlen : args.length = 1
    · rw [filesFor, if_pos hlen]
      exact iff_of_true (fun i _ => rfl) (.inl hlen)
    · rw [filesFor, if_neg hlen, or_iff_right hlen]
      constructor
      · intro hopened
        refine List.eq_nil_iff_forall_not_mem.mpr fun i hi => ?_
        exact Bool.false_ne_true (hopened i hi)
      · rintro rfl
        exact fun i hi => absurd hi (List.not_mem_nil)

/-- A part has no statements if there is no such part, or no warehouse. -/
theorem partInserts_eq_nil_iff : partInserts d now partNo minWare maxWare = [] ↔
    ¬ (partNo = 1 ∨ ((partNo = 2 ∨ partNo = 3 ∨ partNo = 4) ∧ minWare ≤ maxWare)) := by
  constructor
  · rintro h (rfl | ⟨hpart, hle⟩)
    · have hmem : itemInsert (d.item 1) 1 ∈ partInserts d now 1 minWare maxWare :=
        List.mem_map_of_mem (mem_upTo.mpr (by decide))
      exact List.not_mem_nil (h ▸ hmem)
    · obtain ⟨i, hi, -⟩ := exists_not_onlyParams d now hpart hle
      exact List.not_mem_nil (h ▸ hi)
  · intro h
    have hwares : partNo = 2 ∨ partNo = 3 ∨ partNo = 4 → wares minWare maxWare = [] := by
      intro hpart
      have hlt := lt_of_not_ge fun hle => h (.inr ⟨hpart, hle⟩)
      rw [wares, Int.toNat_eq_zero.mpr (by omega), List.range_zero, List.map_nil]
    unfold partInserts
    split_ifs with h1 h2 h3 h4
    · exact absurd (.inl h1) h
    · rw [hwares (.inl h2), List.flatMap_nil]
    · rw [districtsOf, hwares (.inr (.inl h3)), List.flatMap_nil, List.flatMap_nil]
    · rw [districtsOf, hwares (.inr (.inr h4)), List.flatMap_nil, List.flatMap_nil]
    · rfl

/-- A part has no constants if it is the items, or nothing. -/
theorem partInserts_onlyParams_iff :
    (∀ i ∈ partInserts d now partNo minWare maxWare, i.OnlyParams) ↔
      partNo = 1 ∨ partInserts d now partNo minWare maxWare = [] := by
  constructor
  · intro h
    by_cases h1 : partNo = 1
    · exact .inl h1
    · refine .inr (partInserts_eq_nil_iff.mpr ?_)
      rintro (h1' | ⟨hpart, hle⟩)
      · exact h1 h1'
      · obtain ⟨i, hi, hnot⟩ := exists_not_onlyParams d now hpart hle
        exact hnot (h i hi)
  · rintro (rfl | h)
    · exact List.forall_mem_map.mpr fun iId _ => itemInsert_onlyParams _ iId
    · rw [h]
      exact fun i hi => absurd hi (List.not_mem_nil)

end

/-! ## What is right of all that is written -/

theorem exists_not_onlyParams_allInserts (d : LoadDraws) (now : String) {countWare : Int}
    (h : 0 < countWare) : ∃ i ∈ allInserts d now 1 countWare, ¬ i.OnlyParams := by
  obtain ⟨i, hi, hnot⟩ := exists_not_onlyParams d now (.inl rfl) h
  rw [allInserts_eq]
  exact ⟨i, List.mem_append_right _ (List.mem_append_left _ hi), hnot⟩

theorem loaded_eq_nil_iff (d : LoadDraws) (now : String) (args : List Int) :
    (∀ l ∈ loaded d now args, l = []) ↔ Silent args := by
  rcases loaded_cases d now args with ⟨h, hsilent⟩ | ⟨n, rfl, hn, h⟩ | ⟨n, p, lo, hi, rfl, hn, h⟩
  · rw [h]
    exact iff_of_true (fun l hl => nomatch hl) hsilent
  · rw [h]
    refine iff_of_false (fun hnil => ?_) (not_le.mpr hn)
    obtain ⟨i, hi, -⟩ := exists_not_onlyParams_allInserts d now hn
    exact List.not_mem_nil (hnil _ rfl ▸ hi)
  · rw [h]
    simp only [Option.mem_some_iff, forall_eq', partInserts_eq_nil_iff]
    exact (or_iff_right (not_le.mpr hn)).symm

theorem loaded_onlyParams_iff (d : LoadDraws) (now : String) (args : List Int) :
    (∀ l ∈ loaded d now args, ∀ i ∈ l, i.OnlyParams) ↔ Silent args ∨ OnlyItems args := by
  rw [← loaded_eq_nil_iff d now args]
  rcases loaded_cases d now args with ⟨h, -⟩ | ⟨n, rfl, hn, h⟩ | ⟨n, p, lo, hi, rfl, hn, h⟩
  · rw [h]
    exact iff_of_true (fun l hl => nomatch hl) (.inl fun l hl => nomatch hl)
  · rw [h]
    obtain ⟨i, hi, hnot⟩ := exists_not_onlyParams_allInserts d now hn
    refine iff_of_false (fun hall => hnot (hall _ rfl i hi)) ?_
    rintro (hnil | ⟨_, _, _, hargs⟩)
    · exact List.not_mem_nil (hnil _ rfl ▸ hi)
    · cases hargs
  · rw [h]
    simp only [Option.mem_some_iff, forall_eq', partInserts_onlyParams_iff]
    constructor
    · rintro (rfl | hnil)
      · exact .inr ⟨n, lo, hi, rfl⟩
      · exact .inl hnil
    · rintro (hnil | ⟨_, _, _, hargs⟩)
      · exact .inr hnil
      · cases hargs
        exact .inl rfl

end TokuQa.Tpcc
