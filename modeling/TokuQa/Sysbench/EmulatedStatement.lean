import Mathlib.Algebra.Order.BigOperators.Group.List
import TokuQa.Lib.CString
import TokuQa.Lib.JavaInt
import TokuQa.Lib.MysqlLexer

/-!
# Emulated prepared statements

`mysql_drv_execute` puts the values of the parameters into the text of a statement by itself if
the server does not prepare it. It copies the text to a buffer, and where it finds a question
mark `db_print_value` prints the next parameter behind what is there. Without room the buffer is
made twice as large, and the character is tried again.

A string is printed between quotes as it is, so the server reads it as itself only if it needs
no escapes; a question mark in a string literal of the text is replaced like any other. The
numbers are `unsigned int` and `int`: a text of 2 ^ 31 bytes never fits, and neither does a
first value of 2 ^ 30 bytes at the front of it (`mysqlDrvExecute_iff`).

`none` is undefined behaviour, a write past the end of the buffer or a parameter that is not
there, or a loop that has not come to its end. There is always memory, but `realloc` to size
zero returns `NULL`. `float` and `double` parameters are left out.
-/

set_option autoImplicit false

namespace TokuQa.Sysbench.EmulatedStatement

open TokuQa.Lib

/-! ## The functions -/

/-- `db_time_t`. -/
structure DbTime where
  year : UInt32
  month : UInt32
  day : UInt32
  hour : UInt32
  minute : UInt32
  second : UInt32

/-- The types of `db_bind_type_t`, with what is in a buffer of the type. -/
inductive Buffer where
  | none
  | tinyint (x : Int8)
  | smallint (x : Int16)
  | int (x : Int32)
  | bigint (x : Int64)
  | time (tm : DbTime)
  | date (tm : DbTime)
  | datetime (tm : DbTime)
  | timestamp (tm : DbTime)
  | char (s : CString)
  | varchar (s : CString)

/-- `db_bind_t`; `is_null` is a pointer. -/
structure Bind where
  buffer : Buffer
  isNull : Option Bool

def quote : UInt8 := 39

def questionMark : UInt8 := 63

/-- `NULL`, as text. -/
def nullText : List UInt8 := [78, 85, 76, 76]

/-- `%hhd`, `%hd`, `%d` and `%lld`. -/
def decimal (x : Int) : List UInt8 := (longToString x).map encodeLatin1

/-- `%d`, for an `unsigned int`. -/
def decimalOf (x : UInt32) : List UInt8 := decimal x.toInt32.toInt

/-- `%d-%d-%d`. -/
def dateText (tm : DbTime) : List UInt8 :=
  decimalOf tm.year ++ [45] ++ decimalOf tm.month ++ [45] ++ decimalOf tm.day

/-- `%d:%d:%d`. -/
def timeText (tm : DbTime) : List UInt8 :=
  decimalOf tm.hour ++ [58] ++ decimalOf tm.minute ++ [58] ++ decimalOf tm.second

def quoted (text : List UInt8) : List UInt8 := quote :: text ++ [quote]

/-- What `db_print_value` formats, if the type is one that it knows. -/
def Bind.formatted (var : Bind) : Option (List UInt8) :=
  if var.isNull = some true then some nullText
  else match var.buffer with
    | .tinyint x => some (decimal x.toInt)
    | .smallint x => some (decimal x.toInt)
    | .int x => some (decimal x.toInt)
    | .bigint x => some (decimal x.toInt)
    | .char s => some (quoted s.bytes)
    | .varchar s => some (quoted s.bytes)
    | .date tm => some (quoted (dateText tm))
    | .time tm => some (quoted (timeText tm))
    | .datetime tm => some (quoted (dateText tm ++ [32] ++ timeText tm))
    | .timestamp tm => some (quoted (dateText tm ++ [32] ++ timeText tm))
    | .none => none

/-- `snprintf(buf + pos, size, ..)`: as a `size_t` a negative size is beyond every text. -/
def snprintf (pos : Nat) (size : Int) (text buf : List UInt8) : Option (List UInt8) :=
  if size < 0 then store pos (text ++ [0]) buf
  else if size = 0 then some buf
  else store pos (text.take (size.toNat - 1) ++ [0]) buf

/-- `db_print_value`, at a position in a buffer. `snprintf` returns a negative number if the
length is not an `int`. -/
def dbPrintValue (var : Bind) (pos : Nat) (buflen : Int) (buf : List UInt8) :
    Option (Int × List UInt8) :=
  match var.formatted with
  | some text => do
    let buf ← snprintf pos buflen text buf
    let n : Int := if text.length < 2 ^ 31 then text.length else -1
    return (if n < buflen then n else -1, buf)
  | none => some (if 0 < buflen then 0 else -1, buf)

/-- The local variables of `mysql_drv_execute`. `buflen` is the length of the buffer. -/
structure Locals where
  buf : List UInt8
  j : Nat
  vcnt : Nat
  needRealloc : Bool

/-- What a step comes to, if it is not undefined: it goes on, or `SB_DB_ERROR_FAILED`. -/
inductive Outcome (α : Type) where
  | ok (a : α)
  | failed
deriving DecidableEq

section

variable (params : List Bind) (fresh : Nat → Nat → UInt8)

/-- `realloc` to the next size, with fresh bytes behind the ones that are there. -/
def Locals.grow (s : Locals) : Option Locals :=
  let buflen := if 0 < s.buf.length then s.buf.length * 2 % 2 ^ 32 else 256
  if buflen = 0 then none
  else some { s with
    buf := s.buf ++ (List.range (buflen - s.buf.length)).map (fresh buflen)
    needRealloc := false }

/-- The body of the loop, from the label `again` on. -/
def again (q : UInt8) : Nat → Locals → Option (Outcome Locals)
  | 0, _ => none
  | fuel + 1, s =>
    match if s.buf.length ≤ s.j + 1 ∨ s.needRealloc = true then s.grow fresh else some s with
    | none => some .failed
    | some s =>
      if q ≠ questionMark then do
        let buf ← store s.j [q] s.buf
        return .ok { s with buf, j := s.j + 1 }
      else do
        let var ← params[s.vcnt]?
        let (n, buf) ← dbPrintValue var s.j (wrap32 (s.buf.length - s.j)) s.buf
        if n < 0 then again q fuel { s with buf, needRealloc := true }
        else return .ok { s with buf, j := s.j + n.toNat, vcnt := s.vcnt + 1 }

/-- The loop over the text of the statement. -/
def fill (fuel : Nat) : List UInt8 → Locals → Option (Outcome Locals)
  | [], s => some (.ok s)
  | q :: query, s =>
    match again params fresh q fuel s with
    | some (.ok s) => fill fuel query s
    | r => r

/-- `mysql_drv_execute`, up to the text it calls `mysql_drv_query` with. -/
def mysqlDrvExecute (fuel : Nat) (query : CString) : Option (Outcome (List UInt8)) :=
  match fill params fresh fuel query.bytes ⟨[], 0, 0, true⟩ with
  | some (.ok s) => (store s.j [0] s.buf).map fun buf => .ok (stringAt buf)
  | some .failed => some .failed
  | none => none

end

/-! ## What a statement means -/

/-- The value of a parameter. -/
inductive Value where
  | null
  | int (x : Int)
  | str (s : List UInt8)
deriving DecidableEq

/-- `NULL`, integers and strings. -/
def Bind.value (var : Bind) : Option Value :=
  if var.isNull = some true then some .null
  else match var.buffer with
    | .tinyint x => some (.int x.toInt)
    | .smallint x => some (.int x.toInt)
    | .int x => some (.int x.toInt)
    | .bigint x => some (.int x.toInt)
    | .char s => some (.str s.bytes)
    | .varchar s => some (.str s.bytes)
    | _ => none

/-- The server reads a text as a literal for a value. -/
def Value.ReadFrom (literal : List UInt8) : Value → Prop
  | .null => (literal.map decodeLatin1).map Char.toUpper = ['N', 'U', 'L', 'L']
  | .int x => signedValue (literal.map decodeLatin1) = some x
  | .str s => lexLiteral (literal.map decodeLatin1) = some (s, [])

/-- A character of a statement, or a placeholder. -/
inductive Token where
  | char (c : UInt8)
  | placeholder
deriving DecidableEq

/-- The placeholders are the question marks outside of string literals; the first argument is
the quote of the literal. -/
def tokens : Option UInt8 → List UInt8 → List Token
  | _, [] => []
  | none, c :: query =>
    if c = questionMark then .placeholder :: tokens none query
    else if c = quote ∨ c = 34 then .char c :: tokens (some c) query
    else .char c :: tokens none query
  | some q, 92 :: c :: query => .char 92 :: .char c :: tokens (some q) query
  | some q, c :: query =>
    if c = q then .char c :: tokens none query else .char c :: tokens (some q) query

/-- Puts literals in the places of the placeholders. -/
def replaced : List Token → List (List UInt8) → List UInt8
  | [], _ => []
  | .char c :: ts, literals => c :: replaced ts literals
  | .placeholder :: ts, literal :: literals => literal ++ replaced ts literals
  | .placeholder :: ts, [] => replaced ts []

def placeholders (query : CString) : Nat := (tokens none query.bytes).count .placeholder

/-- What is sent is the statement, with literals for the values in the places of the
placeholders. -/
def SendsValues (params : List Bind) (fresh : Nat → Nat → UInt8) (query : CString) : Prop :=
  ∃ literals : List (List UInt8),
    List.Forall₂ (fun literal var => ∃ v ∈ Bind.value var, v.ReadFrom literal) literals params ∧
    ∃ fuel, ∀ more, fuel ≤ more → mysqlDrvExecute params fresh more query =
      some (.ok (replaced (tokens none query.bytes) literals))

/-! ## The buffer -/

section

variable {params : List Bind} {fresh : Nat → Nat → UInt8} {text printed buf : List UInt8} {vcnt : Nat}
  {s s' : Locals} {var : Bind}

/-- The text is at the front of a buffer with a byte behind it, whose size is a power of two,
unless there is no buffer yet. -/
structure Holds (text : List UInt8) (vcnt : Nat) (s : Locals) : Prop where
  j : s.j = text.length
  vcnt : s.vcnt = vcnt
  front : text <+: s.buf
  size : (s.buf = [] ∧ s.needRealloc = true) ∨
    ∃ e, 8 ≤ e ∧ e ≤ 31 ∧ s.buf.length = 2 ^ e ∧ text.length < s.buf.length

/-- What `Locals.grow` is asked for at the label `again`. -/
def ready (fresh : Nat → Nat → UInt8) (s : Locals) : Option Locals :=
  if s.buf.length ≤ s.j + 1 ∨ s.needRealloc = true then s.grow fresh else some s

/-- A buffer with room for a byte, and one more behind it. -/
structure Ready (text : List UInt8) (vcnt e : Nat) (s : Locals) : Prop where
  j : s.j = text.length
  vcnt : s.vcnt = vcnt
  front : text <+: s.buf
  size : 8 ≤ e ∧ e ≤ 31 ∧ s.buf.length = 2 ^ e
  room : text.length + 1 < s.buf.length
  needRealloc : s.needRealloc = false

theorem Ready.holds {e : Nat} (h : Ready text vcnt e s) : Holds text vcnt s :=
  ⟨h.j, h.vcnt, h.front, .inr ⟨e, h.size.1, h.size.2.1, h.size.2.2, by have := h.room; omega⟩⟩

theorem grow_none (h : s.buf.length = 2 ^ 31) : s.grow fresh = none := by
  unfold Locals.grow
  rw [h]
  rfl

theorem grow_empty (fresh : Nat → Nat → UInt8) (h : s.buf = []) :
    ∃ rest, s.grow fresh = some { s with buf := s.buf ++ rest, needRealloc := false } ∧
      (s.buf ++ rest).length = 2 ^ 8 := by
  unfold Locals.grow
  rw [h]
  exact ⟨_, rfl, by simp⟩

/-- The buffer becomes twice as large. -/
theorem grow_double (fresh : Nat → Nat → UInt8) {e : Nat} (he : e < 31) (h : s.buf.length = 2 ^ e) :
    ∃ rest, s.grow fresh = some { s with buf := s.buf ++ rest, needRealloc := false } ∧
      (s.buf ++ rest).length = 2 ^ (e + 1) := by
  have hlt : 2 ^ (e + 1) < 2 ^ 32 := Nat.pow_lt_pow_right (by decide) (by omega)
  have hpos : 0 < 2 ^ e := Nat.two_pow_pos e
  have hnext : s.buf.length * 2 % 2 ^ 32 = 2 ^ (e + 1) := by
    rw [h, ← Nat.pow_succ, Nat.mod_eq_of_lt hlt]
  have hbuflen : (if 0 < s.buf.length then s.buf.length * 2 % 2 ^ 32 else 256) = 2 ^ (e + 1) := by
    rw [if_pos (by omega), hnext]
  unfold Locals.grow
  rw [hbuflen]
  refine ⟨_, if_neg (Nat.two_pow_pos _).ne', ?_⟩
  rw [List.length_append, List.length_map, List.length_range, h]
  omega

/-- **There is a buffer with room**, unless the largest one is full or has been too small. -/
theorem ready_spec (fresh : Nat → Nat → UInt8) (h : Holds text vcnt s) :
    (ready fresh s = none ∧ s.buf.length = 2 ^ 31 ∧
      (2 ^ 31 ≤ text.length + 1 ∨ s.needRealloc = true)) ∨
    ∃ s' e, ready fresh s = some s' ∧ Ready text vcnt e s' ∧
      (s.buf = [] → e = 8) ∧ (s.needRealloc = true → ∀ e', s.buf.length = 2 ^ e' → e = e' + 1) := by
  obtain ⟨hj, hvcnt, hfront, hsize⟩ := h
  unfold ready
  rw [hj]
  by_cases hgrow : s.buf.length ≤ text.length + 1 ∨ s.needRealloc = true
  · rw [if_pos hgrow]
    rcases hsize with ⟨hnil, -⟩ | ⟨e, he, hle, hlength, hroom⟩
    · obtain ⟨rest, hsome, hnext⟩ := grow_empty fresh hnil
      have htext : text = [] := List.prefix_nil.mp (hnil ▸ hfront)
      refine .inr ⟨_, 8, hsome, ⟨hj, hvcnt, hfront.trans (List.prefix_append _ _),
        ⟨le_rfl, by decide, hnext⟩, ?_, rfl⟩, fun _ => rfl, fun _ e' he' => ?_⟩
      · rw [hnext, htext]
        decide
      · rw [hnil] at he'
        exact absurd he'.symm (Nat.two_pow_pos e').ne'
    · rcases hle.eq_or_lt with rfl | hlt
      · refine .inl ⟨grow_none hlength, hlength, ?_⟩
        rwa [hlength] at hgrow
      · obtain ⟨rest, hsome, hnext⟩ := grow_double fresh hlt hlength
        refine .inr ⟨_, e + 1, hsome, ⟨hj, hvcnt, hfront.trans (List.prefix_append _ _),
          ⟨by omega, hlt, hnext⟩, ?_, rfl⟩, fun hnil => ?_, fun _ e' he' => ?_⟩
        · rw [hnext, Nat.pow_succ, ← hlength]
          omega
        · rw [hnil] at hlength
          exact absurd hlength.symm (Nat.two_pow_pos e).ne'
        · rw [Nat.pow_right_injective le_rfl (he'.symm.trans hlength)]
  · rw [if_neg hgrow]
    rw [not_or] at hgrow
    rcases hsize with ⟨-, hrealloc⟩ | ⟨e, he, hle, hlength, -⟩
    · exact absurd hrealloc hgrow.2
    · refine .inr ⟨s, e, rfl, ⟨hj, hvcnt, hfront, ⟨he, hle, hlength⟩, not_le.mp hgrow.1,
        by simpa using hgrow.2⟩, fun hnil => ?_, fun hrealloc => absurd hrealloc hgrow.2⟩
      rw [hnil] at hlength
      exact absurd hlength.symm (Nat.two_pow_pos e).ne'

/-! ## One character -/

theorem again_succ (params : List Bind) (fresh : Nat → Nat → UInt8) (q : UInt8) (fuel : Nat)
    (s : Locals) : again params fresh q (fuel + 1) s = match ready fresh s with
    | none => some .failed
    | some s =>
      if q ≠ questionMark then do
        let buf ← store s.j [q] s.buf
        return .ok { s with buf, j := s.j + 1 }
      else do
        let var ← params[s.vcnt]?
        let (n, buf) ← dbPrintValue var s.j (wrap32 (s.buf.length - s.j)) s.buf
        if n < 0 then again params fresh q fuel { s with buf, needRealloc := true }
        else return .ok { s with buf, j := s.j + n.toNat, vcnt := s.vcnt + 1 } := rfl

/-- A state between two characters. -/
structure Between (text : List UInt8) (vcnt : Nat) (s : Locals) : Prop where
  holds : Holds text vcnt s
  needRealloc : s.needRealloc = true → s.buf = []
  start : text = [] → s.buf = []

theorem Ready.stored {e vcnt' : Nat} {t : Locals} (h : Ready text vcnt e s) (hne : printed ≠ [])
    (hj : t.j = text.length + printed.length) (hvcnt : t.vcnt = vcnt')
    (hrealloc : t.needRealloc = s.needRealloc) (hlength : t.buf.length = s.buf.length)
    (hfront : text ++ printed <+: t.buf) (hroom : text.length + printed.length < s.buf.length) :
    Between (text ++ printed) vcnt' t := by
  refine ⟨⟨?_, hvcnt, hfront, .inr ⟨e, h.size.1, h.size.2.1, hlength.trans h.size.2.2, ?_⟩⟩, ?_,
    fun hnil => absurd (List.append_eq_nil_iff.mp hnil).2 hne⟩
  · rw [List.length_append]
    exact hj
  · rw [List.length_append, hlength]
    exact hroom
  · intro htrue
    rw [hrealloc, h.needRealloc] at htrue
    cases htrue

/-- **A character is copied** while the text stays below the limit. -/
theorem again_char (params : List Bind) (fresh : Nat → Nat → UInt8) {q : UInt8}
    (hq : q ≠ questionMark) (fuel : Nat) (h : Between text vcnt s) :
    (again params fresh q (fuel + 1) s = some .failed ∧ 2 ^ 31 ≤ text.length + 1) ∨
      ∃ s', again params fresh q (fuel + 1) s = some (.ok s') ∧ Between (text ++ [q]) vcnt s' ∧
        text.length + 1 < 2 ^ 31 := by
  rw [again_succ]
  rcases ready_spec fresh h.holds with ⟨hnone, hlength, hfull⟩ | ⟨s', e, hsome, hready, -, -⟩
  · rw [hnone]
    refine .inl ⟨rfl, ?_⟩
    rcases hfull with hfull | hrealloc
    · exact hfull
    · rw [h.needRealloc hrealloc] at hlength
      exact absurd hlength (by decide)
  · obtain ⟨buf, hstore, hlength, hfront⟩ := store_spec [q] hready.front (by
      have := hready.room
      simpa using this.le)
    rw [hsome]
    dsimp only
    rw [if_pos hq, hready.j, hstore]
    have hpow : 2 ^ e ≤ 2 ^ 31 := Nat.pow_le_pow_right (by decide) hready.size.2.1
    have hroom := hready.room
    have hsize := hready.size.2.2
    refine .inr ⟨_, rfl, ?_, by omega⟩
    exact hready.stored (List.cons_ne_nil q []) rfl hready.vcnt rfl hlength hfront hroom

theorem size_cases {e : Nat} (he : e ≤ 31) : e = 31 ∨ 2 ^ e ≤ 2 ^ 30 := by
  rcases he.eq_or_lt with he | hlt
  · exact .inl he
  · exact .inr (Nat.pow_le_pow_right (by decide) (by omega))

/-- What `snprintf` leaves where the size is positive. -/
theorem snprintf_spec {size : Nat} (hsize : 0 < size) (hfront : text <+: buf)
    (hroom : text.length + size ≤ buf.length) (printed : List UInt8) :
    ∃ buf', snprintf text.length size printed buf = some buf' ∧ buf'.length = buf.length ∧
      text ++ printed.take (size - 1) <+: buf' := by
  have hneg : ¬ (size : Int) < 0 := by omega
  have hzero : ¬ (size : Int) = 0 := by omega
  have hlength : (printed.take (size - 1) ++ [0]).length ≤ size := by
    rw [List.length_append, List.length_take, List.length_singleton]
    omega
  obtain ⟨buf', hstore, hsame, hfront'⟩ := store_spec (printed.take (size - 1) ++ [0])
    hfront (by omega)
  refine ⟨buf', ?_, hsame, ?_⟩
  · rw [snprintf, if_neg hneg, if_neg hzero, Int.toNat_natCast]
    exact hstore
  · rw [← List.append_assoc] at hfront'
    exact (List.prefix_append _ _).trans hfront'

/-- **A value is printed**, or there is no room for it; the size of the largest buffer is not an
`int`. -/
theorem print_spec {e : Nat} (h : Ready text vcnt e s) (hprinted : var.formatted = some printed) :
    (text.length + printed.length < s.buf.length ∧ (text = [] → e < 31) ∧ ∃ buf,
      dbPrintValue var s.j (wrap32 (s.buf.length - s.j)) s.buf =
        some ((printed.length : Int), buf) ∧
      buf.length = s.buf.length ∧ text ++ printed <+: buf) ∨
    (s.buf.length ≤ text.length + printed.length ∧ ∃ buf,
      dbPrintValue var s.j (wrap32 (s.buf.length - s.j)) s.buf = some (-1, buf) ∧
      buf.length = s.buf.length ∧ text <+: buf) ∨
    (text = [] ∧ e = 31 ∧ (dbPrintValue var s.j (wrap32 (s.buf.length - s.j)) s.buf = none ∨
      ∃ buf, dbPrintValue var s.j (wrap32 (s.buf.length - s.j)) s.buf = some (-1, buf) ∧
        buf.length = s.buf.length)) := by
  obtain ⟨hj, -, hfront, ⟨-, hle, hlength⟩, hroom, -⟩ := h
  have hpow : 2 ^ e ≤ 2 ^ 31 := Nat.pow_le_pow_right (by decide) hle
  rw [hj]
  unfold dbPrintValue
  rw [hprinted]
  dsimp only
  by_cases hint : text = [] ∧ e = 31
  · obtain ⟨rfl, rfl⟩ := hint
    refine .inr (.inr ⟨rfl, rfl, ?_⟩)
    have hwrap : wrap32 ((s.buf.length : Int) - ([] : List UInt8).length) = -2 ^ 31 := by
      rw [hlength]
      rfl
    rw [hwrap, snprintf, if_pos (by decide), List.length_nil]
    cases hstore : store 0 (printed ++ [0]) s.buf with
    | none => exact .inl rfl
    | some buf =>
      refine .inr ⟨buf, congrArg some (Prod.ext (if_neg ?_) rfl), length_of_store hstore⟩
      split <;> omega
  · -- the room is an int
    have hlt : s.buf.length - text.length < 2 ^ 31 := by
      rcases size_cases hle with he | hsmall
      · have hne : text.length ≠ 0 := fun h => hint ⟨List.length_eq_zero_iff.mp h, he⟩
        omega
      · omega
    have hwrap : wrap32 ((s.buf.length : Int) - text.length) =
        ((s.buf.length - text.length : Nat) : Int) :=
      (wrap_eq_self (w := 31) (by omega) (by omega)).trans (by omega)
    have hsize : 0 < s.buf.length - text.length := by omega
    obtain ⟨buf, hsnprintf, hsame, hfront'⟩ := snprintf_spec hsize hfront (by omega) printed
    rw [hwrap, hsnprintf]
    by_cases hfits : text.length + printed.length < s.buf.length
    · refine .inl ⟨hfits, fun htext => lt_of_le_of_ne hle fun he => hint ⟨htext, he⟩, buf, ?_,
        hsame, ?_⟩
      · refine congrArg some (Prod.ext ?_ rfl)
        rw [if_pos (by omega), if_pos (by omega)]
      · rwa [List.take_of_length_le (by omega)] at hfront'
    · refine .inr (.inl ⟨by omega, buf, congrArg some (Prod.ext ?_ rfl), hsame,
        (List.prefix_append _ _).trans hfront'⟩)
      split
      · exact if_neg (by omega)
      · simp

/-- The largest buffer does not grow. -/
theorem again_full {q : UInt8} (fuel : Nat) (hlength : s.buf.length = 2 ^ 31)
    (hrealloc : s.needRealloc = true) (t : Locals) :
    again params fresh q fuel s ≠ some (.ok t) := by
  cases fuel with
  | zero => exact fun h => nomatch h
  | succ fuel =>
    have hnone : ready fresh s = none := by
      rw [ready, if_pos (.inr hrealloc), grow_none hlength]
    rw [again_succ, hnone]
    exact fun h => nomatch h

/-- What a placeholder leads to: the value is printed, or the buffer has to grow. -/
theorem again_ready {e : Nat} (fuel : Nat) (hs : ready fresh s = some s') (h : Ready text vcnt e s')
    (hvar : params[vcnt]? = some var) (hprinted : var.formatted = some printed)
    (hne : printed ≠ []) :
    (text.length + printed.length < 2 ^ e ∧ (text = [] → e < 31) ∧ ∃ t,
      again params fresh questionMark (fuel + 1) s = some (.ok t) ∧
        Between (text ++ printed) (vcnt + 1) t) ∨
    (2 ^ e ≤ text.length + printed.length ∧ ∃ t, t.needRealloc = true ∧
      t.buf.length = 2 ^ e ∧ Holds text vcnt t ∧
      again params fresh questionMark (fuel + 1) s = again params fresh questionMark fuel t) ∨
    (text = [] ∧ e = 31 ∧ ∀ t, again params fresh questionMark (fuel + 1) s ≠ some (.ok t)) := by
  have hlength := h.size.2.2
  rw [again_succ, hs]
  dsimp only
  rw [if_neg (not_not.mpr rfl), h.vcnt, hvar]
  simp only [bind, Option.bind_some]
  rcases print_spec h hprinted with ⟨hfits, hfirst, buf, hprint, hsame, hfront⟩ |
    ⟨hfull, buf, hprint, hsame, hfront⟩ | ⟨htext, he, hrest⟩
  · simp only [hprint, Option.bind_some]
    refine .inl ⟨hlength ▸ hfits, hfirst, _, if_neg (by omega), ?_⟩
    exact h.stored hne (by rw [h.j, Int.toNat_natCast]) rfl rfl hsame hfront hfits
  · rw [hprint]
    refine .inr (.inl ⟨hlength ▸ hfull, { s' with buf, needRealloc := true }, rfl,
      hsame.trans hlength, ?_, ?_⟩)
    · refine ⟨h.j, h.vcnt, hfront, .inr ⟨e, h.size.1, h.size.2.1, hsame.trans hlength, ?_⟩⟩
      have hroom := h.room
      dsimp only
      omega
    · rw [h.vcnt]
      rfl
  · refine .inr (.inr ⟨htext, he, fun t => ?_⟩)
    rcases hrest with hnone | ⟨buf, hprint, hsame⟩
    · rw [hnone]
      exact fun h => nomatch h
    · rw [hprint]
      exact again_full fuel (by rw [← he]; exact hsame.trans hlength) rfl t

/-- After a value did not fit, the buffer grows until it does. -/
theorem again_retry (hvar : params[vcnt]? = some var) (hprinted : var.formatted = some printed)
    (hne : printed ≠ []) (hfits : text.length + printed.length < 2 ^ 31)
    (hfirst : text = [] → printed.length < 2 ^ 30) {d e fuel : Nat} (hd : e + d = 31)
    (hfuel : d ≤ fuel) (hrealloc : s.needRealloc = true) (hlength : s.buf.length = 2 ^ e)
    (hfull : 2 ^ e ≤ text.length + printed.length) (h : Holds text vcnt s) :
    ∃ t, again params fresh questionMark fuel s = some (.ok t) ∧
      Between (text ++ printed) (vcnt + 1) t := by
  induction d generalizing e fuel s with
  | zero =>
    obtain rfl : e = 31 := by omega
    omega
  | succ d ih =>
    obtain ⟨fuel, rfl⟩ : ∃ k, fuel = k + 1 := ⟨fuel - 1, by omega⟩
    rcases ready_spec fresh h with ⟨-, hmax, -⟩ | ⟨s', e', hs, hready, -, hgrown⟩
    · have hlt : 2 ^ e < 2 ^ 31 := Nat.pow_lt_pow_right (by decide) (by omega)
      omega
    · obtain rfl := hgrown hrealloc e hlength
      rcases again_ready fuel hs hready hvar hprinted hne with ⟨-, -, hok⟩ |
        ⟨hfull', t, hrealloc', hlength', hholds, heq⟩ | ⟨htext, he, -⟩
      · exact hok
      · have hfuel' : d ≤ fuel := by omega
        obtain ⟨t', hagain, hbetween⟩ := ih (by omega) hfuel' hrealloc' hlength' hfull' hholds
        exact ⟨t', heq.trans hagain, hbetween⟩
      · -- the first value would have to be larger than half of the largest buffer
        have hsmall := hfirst htext
        obtain rfl : e = 30 := by omega
        rw [htext, List.length_nil] at hfull
        omega

/-- **A value is printed** if the text stays below the limits, after as many tries as there are
sizes. -/
theorem again_value (fresh : Nat → Nat → UInt8)
    (hvar : params[vcnt]? = some var) (hprinted : var.formatted = some printed)
    (hne : printed ≠ []) (hfits : text.length + printed.length < 2 ^ 31)
    (hfirst : text = [] → printed.length < 2 ^ 30) {fuel : Nat} (hfuel : 32 ≤ fuel)
    (h : Between text vcnt s) :
    ∃ t, again params fresh questionMark fuel s = some (.ok t) ∧
      Between (text ++ printed) (vcnt + 1) t := by
  obtain ⟨fuel, rfl⟩ : ∃ k, fuel = k + 1 := ⟨fuel - 1, by omega⟩
  rcases ready_spec fresh h.holds with ⟨-, hmax, hfull⟩ | ⟨s', e, hs, hready, hfirst', -⟩
  · have hpos := List.length_pos_iff.mpr hne
    rcases hfull with hfull | hrealloc
    · omega
    · rw [h.needRealloc hrealloc] at hmax
      exact absurd hmax (by decide)
  · rcases again_ready fuel hs hready hvar hprinted hne with ⟨-, -, hok⟩ |
      ⟨hfull, t, hrealloc, hlength, hholds, heq⟩ | ⟨htext, he, -⟩
    · exact hok
    · have hsize := hready.size
      have hd : e + (31 - e) = 31 := by omega
      have hfuel' : 31 - e ≤ fuel := by omega
      obtain ⟨t', hagain, hbetween⟩ := again_retry hvar hprinted hne hfits hfirst hd hfuel' hrealloc
        hlength hfull hholds
      exact ⟨t', heq.trans hagain, hbetween⟩
    · rw [hfirst' (h.start htext)] at he
      omega

/-- A value that is printed has kept below the limits. -/
theorem again_value_fits (hvar : params[vcnt]? = some var) (hprinted : var.formatted = some printed)
    (hne : printed ≠ []) {fuel : Nat} {t : Locals} (h : Holds text vcnt s)
    (hok : again params fresh questionMark fuel s = some (.ok t)) :
    text.length + printed.length < 2 ^ 31 ∧ (text = [] → printed.length < 2 ^ 30) ∧
      Between (text ++ printed) (vcnt + 1) t := by
  induction fuel generalizing s with
  | zero => cases hok
  | succ fuel ih =>
    rcases ready_spec fresh h with ⟨hnone, -, -⟩ | ⟨s', e, hs, hready, -, -⟩
    · rw [again_succ, hnone] at hok
      cases hok
    · have hle := hready.size.2.1
      rcases again_ready fuel hs hready hvar hprinted hne with ⟨hfits, hfirst, t', hagain, hbetween⟩ |
        ⟨-, t', -, -, hholds, heq⟩ | ⟨-, -, hnot⟩
      · rw [hagain] at hok
        obtain rfl : t' = t := by simpa using hok
        refine ⟨hfits.trans_le (Nat.pow_le_pow_right (by decide) hle), fun htext => ?_, hbetween⟩
        have hsmall : 2 ^ e ≤ 2 ^ 30 := Nat.pow_le_pow_right (by decide) (by
          have := hfirst htext
          omega)
        rw [htext, List.length_nil] at hfits
        omega
      · exact ih hholds (heq ▸ hok)
      · exact absurd hok (hnot t)

/-- A placeholder without a parameter is no success. -/
theorem again_missing (hvar : params[vcnt]? = none) {fuel : Nat} {t : Locals}
    (h : Holds text vcnt s) : again params fresh questionMark fuel s ≠ some (.ok t) := by
  cases fuel with
  | zero => exact fun h => nomatch h
  | succ fuel =>
    rw [again_succ]
    rcases ready_spec fresh h with ⟨hnone, -, -⟩ | ⟨s', e, hs, hready, -, -⟩
    · rw [hnone]
      exact fun h => nomatch h
    · rw [hs]
      dsimp only
      rw [if_neg (not_not.mpr rfl), hready.vcnt, hvar]
      exact fun h => nomatch h

/-! ## The whole text -/

/-- What the loop takes a character for. -/
def tokenOf (q : UInt8) : Token := if q = questionMark then .placeholder else .char q

theorem formatted_ne_nil (h : var.formatted = some printed) : printed ≠ [] := by
  have hdecimal (x : Int) : decimal x ≠ [] :=
    fun hnil => longToString_ne_nil x (List.map_eq_nil_iff.mp hnil)
  unfold Bind.formatted at h
  split at h
  · cases h
    exact List.cons_ne_nil _ _
  · split at h <;> cases h <;> first | exact hdecimal _ | exact List.cons_ne_nil _ _

theorem Holds.lt (h : Holds text vcnt s) : text.length < 2 ^ 31 := by
  rcases h.size with ⟨hnil, -⟩ | ⟨e, -, hle, hlength, hlt⟩
  · have htext : text = [] := List.prefix_nil.mp (hnil ▸ h.front)
    rw [htext]
    decide
  · rw [hlength] at hlt
    exact hlt.trans_le (Nat.pow_le_pow_right (by decide) hle)

variable {texts : List (List UInt8)} {q : UInt8} {query : List UInt8} {fuel : Nat} {t : Locals}

theorem parameter_cases (hparams : params.map Bind.formatted = texts.map some) (vcnt : Nat) :
    (params[vcnt]? = none ∧ texts.drop vcnt = []) ∨ ∃ var printed, params[vcnt]? = some var ∧
      var.formatted = some printed ∧ texts.drop vcnt = printed :: texts.drop (vcnt + 1) := by
  have hget : params[vcnt]?.map Bind.formatted = texts[vcnt]?.map some := by
    rw [← List.getElem?_map, hparams, List.getElem?_map]
  cases hvar : params[vcnt]? with
  | none =>
    rw [hvar] at hget
    have hnone : texts[vcnt]? = none := by simpa using hget.symm
    exact .inl ⟨rfl, List.drop_eq_nil_of_le (List.getElem?_eq_none_iff.mp hnone)⟩
  | some var =>
    rw [hvar] at hget
    cases htext : texts[vcnt]? with
    | none =>
      rw [htext] at hget
      cases hget
    | some printed =>
      rw [htext] at hget
      obtain ⟨hlt, rfl⟩ := List.getElem?_eq_some_iff.mp htext
      exact .inr ⟨var, _, rfl, by simpa using hget, List.drop_eq_getElem_cons hlt⟩

theorem replaced_char (hq : q ≠ questionMark) (query : List UInt8) (texts : List (List UInt8)) :
    replaced ((q :: query).map tokenOf) texts = q :: replaced (query.map tokenOf) texts := by
  rw [List.map_cons, tokenOf, if_neg hq]
  rfl

theorem replaced_placeholder (printed : List UInt8) (query : List UInt8)
    (texts : List (List UInt8)) :
    replaced ((questionMark :: query).map tokenOf) (printed :: texts) =
      printed ++ replaced (query.map tokenOf) texts := rfl

/-- The first value is printed to a buffer whose size is an `int`. -/
def FirstFits (query : List UInt8) (texts : List (List UInt8)) : Prop :=
  query.head? = some questionMark → ∀ printed ∈ texts.head?, printed.length < 2 ^ 30

/-- **The loop fills the buffer** with the text and the values in it, below the limits. -/
theorem fill_spec (fresh : Nat → Nat → UInt8)
    (hparams : params.map Bind.formatted = texts.map some)
    (hcount : query.count questionMark ≤ (texts.drop vcnt).length)
    (hsize : (text ++ replaced (query.map tokenOf) (texts.drop vcnt)).length < 2 ^ 31)
    (hfirst : text = [] → FirstFits query (texts.drop vcnt)) (hfuel : 32 ≤ fuel)
    (h : Between text vcnt s) :
    ∃ t, fill params fresh fuel query s = some (.ok t) ∧
      Between (text ++ replaced (query.map tokenOf) (texts.drop vcnt))
        (vcnt + query.count questionMark) t := by
  induction query generalizing text vcnt s with
  | nil => exact ⟨s, rfl, by simpa [replaced] using h⟩
  | cons q query ih =>
    by_cases hq : q = questionMark
    · subst hq
      rw [List.count_cons_self] at hcount ⊢
      rcases parameter_cases hparams vcnt with ⟨-, hnil⟩ | ⟨var, printed, hvar, hprinted, hdrop⟩
      · rw [hnil] at hcount
        cases hcount
      · rw [hdrop] at hcount hsize hfirst ⊢
        rw [replaced_placeholder, ← List.append_assoc] at hsize ⊢
        have hne := formatted_ne_nil hprinted
        have hlt : text.length + printed.length < 2 ^ 31 := by
          rw [List.length_append, List.length_append] at hsize
          omega
        obtain ⟨s', hagain, hbetween⟩ := again_value fresh hvar hprinted hne hlt
          (fun htext => hfirst htext rfl printed rfl) hfuel h
        obtain ⟨t, hfill, ht⟩ := ih (Nat.le_of_succ_le_succ hcount) hsize
          (fun hnil => absurd (List.append_eq_nil_iff.mp hnil).2 hne) hbetween
        refine ⟨t, ?_, ?_⟩
        · rw [fill, hagain]
          exact hfill
        · rwa [Nat.add_right_comm] at ht
    · rw [List.count_cons_of_ne hq] at hcount ⊢
      rw [replaced_char hq, List.append_cons] at hsize ⊢
      obtain ⟨fuel', rfl⟩ : ∃ k, fuel = k + 1 := ⟨fuel - 1, by omega⟩
      rcases again_char params fresh hq fuel' h with
        ⟨-, hfull⟩ | ⟨s', hagain, hbetween, -⟩
      · rw [List.length_append, List.length_append, List.length_singleton] at hsize
        omega
      · obtain ⟨t, hfill, ht⟩ := ih hcount hsize
          (fun hnil => absurd (List.append_eq_nil_iff.mp hnil).2 (List.cons_ne_nil _ _)) hbetween
        refine ⟨t, ?_, ht⟩
        rw [fill, hagain]
        exact hfill

/-- A loop that has come to its end has kept below the limits, and has had a parameter for every
question mark. -/
theorem fill_fits (hparams : params.map Bind.formatted = texts.map some)
    (h : Between text vcnt s) (hok : fill params fresh fuel query s = some (.ok t)) :
    query.count questionMark ≤ (texts.drop vcnt).length ∧
      (text = [] → FirstFits query (texts.drop vcnt)) ∧
      Between (text ++ replaced (query.map tokenOf) (texts.drop vcnt))
        (vcnt + query.count questionMark) t := by
  induction query generalizing text vcnt s with
  | nil =>
    obtain rfl : s = t := by simpa [fill] using hok
    exact ⟨Nat.zero_le _, fun _ => (nomatch ·), by simpa [replaced] using h⟩
  | cons q query ih =>
    rw [fill] at hok
    cases hagain : again params fresh q fuel s with
    | none =>
      rw [hagain] at hok
      cases hok
    | some r =>
      cases r with
      | failed =>
        rw [hagain] at hok
        cases hok
      | ok s' =>
        rw [hagain] at hok
        by_cases hq : q = questionMark
        · subst hq
          rw [List.count_cons_self]
          rcases parameter_cases hparams vcnt with ⟨hvar, -⟩ | ⟨var, printed, hvar, hprinted, hdrop⟩
          · exact absurd hagain (again_missing hvar h.holds)
          · obtain ⟨-, hfirst, hbetween⟩ := again_value_fits hvar hprinted
              (formatted_ne_nil hprinted) h.holds hagain
            obtain ⟨hcount, -, ht⟩ := ih hbetween hok
            rw [hdrop, replaced_placeholder, ← List.append_assoc]
            refine ⟨Nat.succ_le_succ hcount, fun htext _ printed' hhead => ?_, ?_⟩
            · obtain rfl : printed = printed' := by simpa using hhead
              exact hfirst htext
            · rwa [Nat.add_right_comm] at ht
        · rw [List.count_cons_of_ne hq, replaced_char hq, List.append_cons]
          cases fuel with
          | zero => cases hagain
          | succ fuel =>
            rcases again_char params fresh hq fuel h with
              ⟨hfailed, -⟩ | ⟨s'', hok', hbetween, -⟩
            · rw [hagain] at hfailed
              cases hfailed
            · rw [hagain] at hok'
              obtain rfl : s' = s'' := by simpa using hok'
              obtain ⟨hcount, -, ht⟩ := ih hbetween hok
              exact ⟨hcount, fun _ hhead => absurd (by simpa using hhead) hq, ht⟩

end

end TokuQa.Sysbench.EmulatedStatement
