import TokuQa.Lib.Decimal
import TokuQa.Tpcc.Load

/-!
# A line of `gen.c` beside a statement of `load.c`

`load.c` prepares eleven statements. What they insert beside their parameters, constants and
`NULL`s, stands in their texts. `gen.c` has the comments of these statements, and writes the
parameters.
-/

set_option autoImplicit false

namespace TokuQa.Tpcc

open TokuQa.Lib

/-! ## Tables -/

inductive Table where
  | item | warehouse | stock | district | customer | history | orders | newOrders | orderLine
deriving DecidableEq

/-- Text is a `varchar`, a `char`, a `text` or a `datetime`. -/
inductive ColumnType where
  | int
  | text
  | decimal (scale : Nat)
deriving DecidableEq

/-- The columns of `create_schema_tokudb.sql`. -/
def Table.columns : Table → List ColumnType
  | .item => [.int, .int, .text, .decimal 2, .text]
  | .warehouse => [.int, .text, .text, .text, .text, .text, .text, .decimal 2, .decimal 2]
  | .stock => [.int, .int, .int, .text, .text, .text, .text, .text, .text, .text, .text, .text,
      .text, .decimal 0, .int, .int, .text]
  | .district => [.int, .int, .text, .text, .text, .text, .text, .text, .decimal 2, .decimal 2,
      .int]
  | .customer => [.int, .int, .int, .text, .text, .text, .text, .text, .text, .text, .text, .text,
      .text, .text, .int, .decimal 2, .decimal 2, .decimal 2, .int, .int, .text]
  | .history => [.int, .int, .int, .int, .int, .text, .decimal 2, .text]
  | .newOrders => [.int, .int, .int]
  | .orders => [.int, .int, .int, .int, .text, .int, .int, .int]
  | .orderLine => [.int, .int, .int, .int, .int, .int, .text, .int, .decimal 2, .text]

/-- What a column of a row holds. -/
inductive Cell where
  | null
  | int (x : Int)
  | text (s : String)
  | decimal (x : ℚ)
deriving DecidableEq

/-- A row as it is stored: a `decimal` has the decimals of its column. -/
def Row.cells : Row → List Cell
  | .item r => [.int r.iId, .int r.iImId, .text r.iName, .decimal (roundTo 2 r.iPrice),
      .text r.iData]
  | .warehouse r => [.int r.wId, .text r.wName, .text r.wStreet1, .text r.wStreet2, .text r.wCity,
      .text r.wState, .text r.wZip, .decimal (roundTo 2 r.wTax), .decimal (roundTo 2 r.wYtd)]
  | .stock r => [.int r.sIId, .int r.sWId, .int r.sQuantity, .text r.sDist[0], .text r.sDist[1],
      .text r.sDist[2], .text r.sDist[3], .text r.sDist[4], .text r.sDist[5], .text r.sDist[6],
      .text r.sDist[7], .text r.sDist[8], .text r.sDist[9], .decimal (roundTo 0 r.sYtd),
      .int r.sOrderCnt, .int r.sRemoteCnt, .text r.sData]
  | .district r => [.int r.dId, .int r.dWId, .text r.dName, .text r.dStreet1, .text r.dStreet2,
      .text r.dCity, .text r.dState, .text r.dZip, .decimal (roundTo 2 r.dTax),
      .decimal (roundTo 2 r.dYtd), .int r.dNextOId]
  | .customer r => [.int r.cId, .int r.cDId, .int r.cWId, .text r.cFirst, .text r.cMiddle,
      .text r.cLast, .text r.cStreet1, .text r.cStreet2, .text r.cCity, .text r.cState,
      .text r.cZip, .text r.cPhone, .text r.cSince, .text r.cCredit, .int r.cCreditLim,
      .decimal (roundTo 2 r.cDiscount), .decimal (roundTo 2 r.cBalance),
      .decimal (roundTo 2 r.cYtdPayment), .int r.cPaymentCnt, .int r.cDeliveryCnt, .text r.cData]
  | .history r => [.int r.hCId, .int r.hCDId, .int r.hCWId, .int r.hDId, .int r.hWId, .text r.hDate,
      .decimal (roundTo 2 r.hAmount), .text r.hData]
  | .newOrder r => [.int r.noOId, .int r.noDId, .int r.noWId]
  | .order r => [.int r.oId, .int r.oDId, .int r.oWId, .int r.oCId, .text r.oEntryD,
      (r.oCarrierId.map Cell.int).getD .null, .int r.oOlCnt, .int r.oAllLocal]
  | .orderLine r => [.int r.olOId, .int r.olDId, .int r.olWId, .int r.olNumber, .int r.olIId,
      .int r.olSupplyWId, (r.olDeliveryD.map Cell.text).getD .null, .int r.olQuantity,
      .decimal (roundTo 2 r.olAmount), .text r.olDistInfo]

/-! ## Parameters and texts -/

/-- A `MYSQL_BIND`: its `buffer_type` is `MYSQL_TYPE_LONG`, `_STRING` or `_FLOAT`. -/
inductive Bind where
  | long (x : Int)
  | string (s : String)
  | float (x : ℚ)

def Insert.table : Insert → Table
  | .item .. => .item
  | .warehouse .. => .warehouse
  | .stock .. => .stock
  | .district .. => .district
  | .customer .. => .customer
  | .history .. => .history
  | .undeliveredOrder .. => .orders
  | .newOrder .. => .newOrders
  | .deliveredOrder .. => .orders
  | .undeliveredLine .. => .orderLine
  | .deliveredLine .. => .orderLine

/-- `param`. -/
def Insert.param : Insert → List Bind
  | .item iId iImId iName iPrice iData =>
    [.long iId, .long iImId, .string iName, .float iPrice, .string iData]
  | .warehouse wId wName a wTax wYtd =>
    [.long wId, .string wName, .string a.street1, .string a.street2, .string a.city,
      .string a.state, .string a.zip, .float wTax, .float wYtd]
  | .stock sIId sWId sQuantity sDist sData =>
    [.long sIId, .long sWId, .long sQuantity, .string sDist[0], .string sDist[1], .string sDist[2],
      .string sDist[3], .string sDist[4], .string sDist[5], .string sDist[6], .string sDist[7],
      .string sDist[8], .string sDist[9], .string sData]
  | .district dId dWId dName a dTax dYtd dNextOId =>
    [.long dId, .long dWId, .string dName, .string a.street1, .string a.street2, .string a.city,
      .string a.state, .string a.zip, .float dTax, .float dYtd, .long dNextOId]
  | .customer cId cDId cWId cFirst cMiddle cLast a cPhone timestamp cCredit cCreditLim cDiscount
      cBalance cData =>
    [.long cId, .long cDId, .long cWId, .string cFirst, .string cMiddle, .string cLast,
      .string a.street1, .string a.street2, .string a.city, .string a.state, .string a.zip,
      .string cPhone, .string timestamp, .string cCredit, .long cCreditLim, .float cDiscount,
      .float cBalance, .string cData]
  | .history cId cDId cWId timestamp hAmount hData =>
    [.long cId, .long cDId, .long cWId, .long cDId, .long cWId, .string timestamp, .float hAmount,
      .string hData]
  | .undeliveredOrder oId oDId oWId oCId timestamp oOlCnt =>
    [.long oId, .long oDId, .long oWId, .long oCId, .string timestamp, .long oOlCnt]
  | .newOrder oId oDId oWId => [.long oId, .long oDId, .long oWId]
  | .deliveredOrder oId oDId oWId oCId timestamp oCarrierId oOlCnt =>
    [.long oId, .long oDId, .long oWId, .long oCId, .string timestamp, .long oCarrierId,
      .long oOlCnt]
  | .undeliveredLine oId oDId oWId ol olIId olSupplyWId olQuantity olAmount olDistInfo =>
    [.long oId, .long oDId, .long oWId, .long ol, .long olIId, .long olSupplyWId, .long olQuantity,
      .float olAmount, .string olDistInfo]
  | .deliveredLine oId oDId oWId ol olIId olSupplyWId timestamp olQuantity tmpFloat olDistInfo =>
    [.long oId, .long oDId, .long oWId, .long ol, .long olIId, .long olSupplyWId, .string timestamp,
      .long olQuantity, .float tmpFloat, .string olDistInfo]

/-- An item of the `values` of a statement: a `?`, a number or `NULL`. -/
inductive Slot where
  | param
  | literal (v : Bind)
  | null

/-- `n` times `?`. -/
def params (n : Nat) : List Slot := List.replicate n .param

/-- The `values` of the eleven statements. -/
def Insert.text : Insert → List Slot
  | .item .. => params 5
  | .warehouse .. => params 9
  | .stock .. => params 13 ++ [.literal (.long 0), .literal (.long 0), .literal (.long 0), .param]
  | .district .. => params 11
  | .customer .. =>
    params 17 ++ [.literal (.float 10), .literal (.long 1), .literal (.long 0), .param]
  | .history .. => params 8
  | .undeliveredOrder .. => params 5 ++ [.null, .param, .literal (.long 1)]
  | .newOrder .. => params 3
  | .deliveredOrder .. => params 7 ++ [.literal (.long 1)]
  | .undeliveredLine .. => params 6 ++ [.null, .param, .param, .param]
  | .deliveredLine .. => params 10

/-- What a column makes of a value. No statement gives one of another kind. -/
def stored : ColumnType → Bind → Option Cell
  | .int, .long x => some (.int x)
  | .text, .string s => some (.text s)
  | .decimal d, .float x => some (.decimal (roundTo d x))
  | .decimal d, .long x => some (.decimal (roundTo d x))
  | _, _ => none

/-- The execution of a prepared statement. -/
def executed : List ColumnType → List Slot → List Bind → Option (List Cell)
  | c :: cs, .param :: slots, v :: vs => do return (← stored c v) :: (← executed cs slots vs)
  | c :: cs, .literal v :: slots, vs => do return (← stored c v) :: (← executed cs slots vs)
  | _ :: cs, .null :: slots, vs => (executed cs slots vs).map fun cells => .null :: cells
  | [], [], [] => some []
  | _, _, _ => none

/-- **The row of a statement** is the one its text and its parameters make. -/
theorem executed_eq (i : Insert) : executed i.table.columns i.text i.param = some i.row.cells := by
  cases i <;> simp [executed, stored, params, Insert.table, Table.columns, Insert.text, Insert.param,
    Insert.row, Row.cells, List.replicate]

/-! ## Lines -/

def printOneBind : Bind → List Char
  | .long x => longToString x
  | .string s => s.toList
  | .float x => printF x

def printBind (param : List Bind) : List Char :=
  ['\t'].intercalate (param.map printOneBind) ++ ['\n']

/-- The fields of a line. -/
def lineFields (line : List Char) : List (List Char) := (line.takeWhile (· ≠ '\n')).splitOn '\t'

def readValue : ColumnType → List Char → Option Cell
  | .int, s => (signedValue s).map Cell.int
  | .text, s => some (.text (String.ofList s))
  | .decimal d, s => (decimalValue s).map fun x => .decimal (roundTo d x)

/-- What a column makes of a field. `NULL` is written `\N`. -/
def readField (c : ColumnType) (s : List Char) : Option Cell :=
  if s = ['\\', 'N'] then some .null else readValue c s

/-- Reads a line positionally: neither a column nor a field may be left over. -/
def readFields : List ColumnType → List (List Char) → Option (List Cell)
  | [], [] => some []
  | c :: cs, s :: ss => do return (← readField c s) :: (← readFields cs ss)
  | _, _ => none

def Insert.line (i : Insert) : List Char := printBind i.param

/-- The line has a field for each column, and is read as the row that is inserted. -/
def LineRight (line : List Char) (i : Insert) : Prop :=
  (lineFields line).length = i.table.columns.length ∧
    readFields i.table.columns (lineFields line) = executed i.table.columns i.text i.param

/-- A character that is neither a separator nor an escape. -/
def plain (c : Char) : Bool := c ≠ '\t' && c ≠ '\n' && c ≠ '\\'

/-- A value that is as it is printed. -/
def Bind.Plain : Bind → Prop
  | .long _ => True
  | .string s => ∀ c ∈ s.toList, plain c = true
  | .float x => HasDecimals 6 x

def Insert.Plain (i : Insert) : Prop := ∀ v ∈ i.param, v.Plain

/-- A text with nothing but parameters. -/
def Insert.OnlyParams (i : Insert) : Prop := i.text = params i.text.length

theorem plain_iff {c : Char} : plain c = true ↔ c ≠ '\t' ∧ c ≠ '\n' ∧ c ≠ '\\' := by
  simp [plain, and_assoc]

theorem plain_of_isDigit {c : Char} (h : c.isDigit = true) : plain c = true := by
  rw [plain_iff]
  refine ⟨?_, ?_, ?_⟩ <;> rintro rfl <;> exact absurd h (by decide)

theorem plain_printOneBind {v : Bind} (h : v.Plain) : ∀ c ∈ printOneBind v, plain c = true := by
  intro c hc
  cases v with
  | long x =>
    rcases longToString_ascii x c hc with rfl | hdigit
    · decide
    · exact plain_of_isDigit hdigit
  | string s => exact h c hc
  | float x =>
    rcases mem_printFixed hc with rfl | rfl | hdigit
    · decide
    · decide
    · exact plain_of_isDigit hdigit

/-- The fields of a line are the values that were printed. -/
theorem lineFields_printBind {vs : List Bind} (hne : vs ≠ []) (h : ∀ v ∈ vs, v.Plain) :
    lineFields (printBind vs) = vs.map printOneBind := by
  have hplain : ∀ s ∈ vs.map printOneBind, ∀ c ∈ s, plain c = true := by
    intro s hs
    obtain ⟨v, hv, rfl⟩ := List.mem_map.mp hs
    exact plain_printOneBind (h v hv)
  have hmem : ∀ {ss : List (List Char)} {c : Char}, c ∈ ['\t'].intercalate ss →
      c = '\t' ∨ ∃ s ∈ ss, c ∈ s := by
    intro ss c hc
    induction ss with
    | nil => exact absurd hc (List.not_mem_nil)
    | cons s ss ih =>
      cases ss with
      | nil =>
        rw [List.intercalate_singleton] at hc
        exact .inr ⟨s, List.mem_cons_self, hc⟩
      | cons s' ss =>
        rw [List.intercalate_cons_cons, List.mem_append, List.mem_append, List.mem_singleton] at hc
        rcases hc with (hc | hc) | hc
        · exact .inr ⟨s, List.mem_cons_self, hc⟩
        · exact .inl hc
        · exact (ih hc).imp_right fun ⟨s, hs, hc⟩ => ⟨s, List.mem_cons_of_mem _ hs, hc⟩
  have hline : ∀ c ∈ ['\t'].intercalate (vs.map printOneBind), decide (c ≠ '\n') = true := by
    intro c hc
    rw [decide_eq_true_eq]
    rcases hmem hc with rfl | ⟨s, hs, hc⟩
    · decide
    · exact (plain_iff.mp (hplain s hs c hc)).2.1
  rw [lineFields, printBind, List.takeWhile_append_of_pos hline,
    List.takeWhile_cons_of_neg (by decide), List.append_nil]
  refine List.splitOn_intercalate '\t' (fun s hs ht => ?_) (by simpa using hne)
  exact (plain_iff.mp (hplain s hs '\t' ht)).1 rfl

/-- **A plain value is read back** from its field, by any column that takes it. -/
theorem readField_printOneBind {c : ColumnType} {v : Bind} {cell : Cell} (hplain : v.Plain)
    (h : stored c v = some cell) : readField c (printOneBind v) = some cell := by
  have hnull : printOneBind v ≠ ['\\', 'N'] := fun he =>
    (plain_iff.mp (plain_printOneBind hplain '\\' (by rw [he]; simp))).2.2 rfl
  rw [readField, if_neg hnull]
  cases c with
  | int =>
    cases v with
    | long x =>
      cases h
      exact congrArg (Option.map Cell.int) (signedValue_longToString x)
    | string s => cases h
    | float x => cases h
  | text =>
    cases v with
    | string s =>
      cases h
      exact congrArg some (congrArg Cell.text String.ofList_toList)
    | long x => cases h
    | float x => cases h
  | decimal d =>
    cases v with
    | float x =>
      cases h
      exact congrArg (Option.map _) (decimalValue_printFixed hplain)
    | long x =>
      cases h
      exact congrArg (Option.map _) (decimalValue_longToString x)
    | string s => cases h

/-- A line of parameters is read as the statement that has no more than these. -/
theorem readFields_printOneBind {cs : List ColumnType} {vs : List Bind} {cells : List Cell}
    (hplain : ∀ v ∈ vs, v.Plain) (h : executed cs (params vs.length) vs = some cells) :
    readFields cs (vs.map printOneBind) = some cells := by
  induction vs generalizing cs cells with
  | nil =>
    cases cs with
    | nil => exact h
    | cons c cs => cases h
  | cons v vs ih =>
    cases cs with
    | nil => cases h
    | cons c cs =>
      simp only [executed, params, List.length_cons, List.replicate_succ, Option.bind_eq_bind,
        Option.bind_eq_some_iff] at h
      obtain ⟨cell, hcell, cells', hcells, hpure⟩ := h
      cases hpure
      have hfield := readField_printOneBind (hplain v List.mem_cons_self) hcell
      have hrest := ih (fun v hv => hplain v (List.mem_cons_of_mem _ hv)) hcells
      rw [List.map_cons, readFields, hfield, hrest]
      rfl

theorem eq_params_cons {slot : Slot} {slots : List Slot} :
    slot :: slots = params (slot :: slots).length ↔
      slot = .param ∧ slots = params slots.length := by
  rw [List.length_cons, params, List.replicate_succ, List.cons.injEq, params]

/-- A statement has a value for each column, and parameters only if there is one bound for each. -/
theorem length_of_executed {cs : List ColumnType} {slots : List Slot} {vs : List Bind}
    {cells : List Cell} (h : executed cs slots vs = some cells) :
    cs.length = slots.length ∧ vs.length ≤ slots.length ∧
      (vs.length = slots.length ↔ slots = params slots.length) := by
  induction cs, slots, vs using executed.induct generalizing cells with
  | case1 c cs slots v vs ih =>
    simp only [executed, Option.bind_eq_bind, Option.bind_eq_some_iff] at h
    obtain ⟨_, _, cells', hcells, _⟩ := h
    obtain ⟨hlen, hle, hparams⟩ := ih hcells
    refine ⟨congrArg (· + 1) hlen, Nat.succ_le_succ hle, ?_⟩
    rw [eq_params_cons, ← hparams, List.length_cons, List.length_cons, Nat.add_right_cancel_iff]
    exact (and_iff_right rfl).symm
  | case2 c cs v slots vs ih =>
    simp only [executed, Option.bind_eq_bind, Option.bind_eq_some_iff] at h
    obtain ⟨_, _, cells', hcells, _⟩ := h
    obtain ⟨hlen, hle, _⟩ := ih hcells
    refine ⟨congrArg (· + 1) hlen, Nat.le_succ_of_le hle, ?_⟩
    rw [eq_params_cons]
    exact iff_of_false (fun he => absurd (he ▸ hle) (Nat.not_succ_le_self _)) fun he => nomatch he.1
  | case3 c cs slots vs ih =>
    rw [executed, Option.map_eq_some_iff] at h
    obtain ⟨cells', hcells, _⟩ := h
    obtain ⟨hlen, hle, _⟩ := ih hcells
    refine ⟨congrArg (· + 1) hlen, Nat.le_succ_of_le hle, ?_⟩
    rw [eq_params_cons]
    exact iff_of_false (fun he => absurd (he ▸ hle) (Nat.not_succ_le_self _)) fun he => nomatch he.1
  | case4 => exact ⟨rfl, Nat.le_refl _, iff_of_true rfl rfl⟩
  | case5 cs slots vs h1 h2 h3 h4 => simp [executed] at h

/-- **A line is right if and only if its statement has parameters only.** -/
theorem lineRight_iff {i : Insert} (hplain : i.Plain) :
    LineRight i.line i ↔ i.OnlyParams := by
  have hexecuted := executed_eq i
  obtain ⟨hlen, -, hparams⟩ := length_of_executed hexecuted
  have hne : i.param ≠ [] := by cases i <;> exact List.cons_ne_nil _ _
  rw [LineRight, Insert.line, lineFields_printBind hne hplain, List.length_map]
  constructor
  · rintro ⟨hfields, -⟩
    exact hparams.mp (hfields.trans hlen)
  · intro honly
    have hcount := hparams.mpr honly
    have hread := hexecuted
    rw [honly, ← hcount] at hread
    exact ⟨hcount.trans hlen.symm, (readFields_printOneBind hplain hread).trans hexecuted.symm⟩

end TokuQa.Tpcc
