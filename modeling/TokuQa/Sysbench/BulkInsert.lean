import Mathlib.Algebra.Group.Nat.Defs
import Mathlib.Data.List.Basic
import Mathlib.Tactic.Common
import TokuQa.Lib.CString

/-!
# The bulk insert of `db_driver.c`

Rows are collected behind the beginning of an INSERT statement in a buffer of
`BULK_PACKET_SIZE` bytes, with commas between them; a row for which there is no room sends what
has been collected, and starts the next statement.

The check for room is made once. A row that does not even fit into an empty buffer is refused
while the buffer is empty, but behind another row it is copied unchecked. The buffer is empty
only up to the first row that is taken, so all goes well exactly if every refused row comes
before that, and every other one fits (`bulkInsert_iff`).

Queries are taken to succeed. `unsigned int` shows in the check only: elsewhere the numbers are
bounded by the buffer.
-/

set_option autoImplicit false

namespace TokuQa.Sysbench.BulkInsert

open TokuQa.Lib

/-- `BULK_PACKET_SIZE`. -/
def bulkPacketSize : Nat := 512 * 1024

/-- `ROWS_BEFORE_COMMIT`. -/
def rowsBeforeCommit : Nat := 1000

/-- A comma. -/
def comma : UInt8 := 44

/-- The calls of `db_query`. -/
inductive Query where
  | insert (text : List UInt8)
  | commit
deriving DecidableEq

/-- The part of `db_conn_t` that is about bulk inserts, and the queries up to now. -/
structure Conn where
  bulkCnt : Nat
  bulkBuffer : List UInt8
  bulkBuflen : Nat
  bulkPtr : Nat
  bulkPtrOrig : Nat
  bulkCommitCnt : Nat
  bulkCommitMax : Nat
  queries : List Query

/-! ## The functions

`none` is a write past the end of the buffer. -/

/-- `db_bulk_insert_init`, with the memory `malloc` returns; `some none` is an error. -/
def bulkInsertInit (needsCommit : Bool) (memory : List UInt8) (query : CString) :
    Option (Option Conn) :=
  if bulkPacketSize < query.length + 1 then some none
  else (strcpy 0 query memory).map fun buffer => some
    { bulkCnt := 0
      bulkBuffer := buffer
      bulkBuflen := bulkPacketSize
      bulkPtr := query.length
      bulkPtrOrig := query.length
      bulkCommitCnt := 0
      bulkCommitMax := if needsCommit then rowsBeforeCommit else 0
      queries := [] }

/-- The commit in `db_bulk_do_insert`. -/
def Conn.commitIfDue (isLast : Bool) (con : Conn) : Conn :=
  if con.bulkCommitMax ≠ 0 then
    let bulkCommitCnt := con.bulkCommitCnt + con.bulkCnt
    if isLast || con.bulkCommitMax ≤ bulkCommitCnt then
      { con with queries := con.queries ++ [Query.commit], bulkCommitCnt := 0 }
    else { con with bulkCommitCnt }
  else con

/-- `db_bulk_do_insert`. -/
def bulkDoInsert (isLast : Bool) (con : Conn) : Conn :=
  if con.bulkCnt = 0 then con
  else
    let con := { con with queries := con.queries ++ [Query.insert (stringAt con.bulkBuffer)] }
    { con.commitIfDue isLast with bulkPtr := con.bulkPtrOrig, bulkCnt := 0 }

/-- The copying in `db_bulk_insert_next`. -/
def Conn.append (query : CString) (con : Conn) : Option Conn :=
  if 0 < con.bulkCnt then do
    let buffer ← store con.bulkPtr [comma] con.bulkBuffer
    let buffer ← strcpy (con.bulkPtr + 1) query buffer
    some { con with
      bulkBuffer := buffer
      bulkPtr := con.bulkPtr + query.length + 1
      bulkCnt := con.bulkCnt + 1 }
  else do
    let buffer ← strcpy con.bulkPtr query con.bulkBuffer
    some { con with
      bulkBuffer := buffer
      bulkPtr := con.bulkPtr + query.length
      bulkCnt := con.bulkCnt + 1 }

/-- `db_bulk_insert_next`, and whether it takes the row. -/
def bulkInsertNext (query : CString) (con : Conn) : Option (Bool × Conn) :=
  let first := if 0 < con.bulkCnt then 1 else 0
  if con.bulkBuflen < (con.bulkPtr + query.length + 1 + first) % 2 ^ 32 then
    if con.bulkCnt = 0 then some (false, con)
    else ((bulkDoInsert false con).append query).map fun con => (true, con)
  else (con.append query).map fun con => (true, con)

/-- Rows one after another: those that are taken, and the connection after them. -/
def bulkInsertRows : List CString → Conn → Option (List CString × Conn)
  | [], con => some ([], con)
  | row :: rows, con => do
    let (accepted, con) ← bulkInsertNext row con
    let (others, con) ← bulkInsertRows rows con
    some (if accepted then row :: others else others, con)

/-- The rows, and `db_bulk_insert_done`: the rows that were taken, and all queries. -/
def bulkInsert (rows : List CString) (con : Conn) : Option (List CString × List Query) :=
  (bulkInsertRows rows con).map fun (accepted, con) =>
    (accepted, (bulkDoInsert true con).queries)

/-! ## What should be sent -/

/-- The texts of the INSERT statements. -/
def inserts (queries : List Query) : List (List UInt8) :=
  queries.filterMap fun
    | .insert text => some text
    | .commit => none

/-- A statement that inserts the rows. -/
def statement (query : CString) (rows : List CString) : List UInt8 :=
  query.bytes ++ [comma].intercalate (rows.map CString.bytes)

/-- **The rows are sent**, each once and in order, some in each statement. -/
def Sends (query : CString) (rows : List CString) (queries : List Query) : Prop :=
  ∃ batches : List (List CString), (∀ batch ∈ batches, batch ≠ []) ∧ batches.flatten = rows ∧
    inserts queries = batches.map (statement query)

/-- Behind every INSERT there is a COMMIT. -/
def Commits (queries : List Query) : Prop :=
  ∀ before text after, queries = before ++ Query.insert text :: after → Query.commit ∈ after

/-- The row fits into the empty buffer. -/
def Fits (query row : CString) : Prop := query.length + row.length + 1 ≤ bulkPacketSize

/-- The check refuses the row for the empty buffer. -/
def Refused (query row : CString) : Prop :=
  bulkPacketSize < (query.length + row.length + 1) % 2 ^ 32

instance (query row : CString) : Decidable (Fits query row) := Nat.decLe _ _

/-! ## What is collected -/

theorem statement_singleton (query row : CString) :
    statement query [row] = query.bytes ++ row.bytes := by
  simp [statement]

theorem intercalate_append_singleton (bytes : List UInt8) {parts : List (List UInt8)}
    (hparts : parts ≠ []) :
    [comma].intercalate (parts ++ [bytes]) = [comma].intercalate parts ++ comma :: bytes := by
  induction parts with
  | nil => exact absurd rfl hparts
  | cons part parts ih =>
    cases parts with
    | nil => simp [List.intercalate]
    | cons part' parts =>
      have hrest := ih (by simp)
      simp only [List.intercalate, List.cons_append, List.intersperse_cons_cons,
        List.flatten_cons, List.append_assoc] at hrest ⊢
      rw [hrest]

theorem statement_append (query row : CString) {rows : List CString} (hrows : rows ≠ []) :
    statement query (rows ++ [row]) = statement query rows ++ comma :: row.bytes := by
  unfold statement
  rw [List.map_append, List.map_singleton,
    intercalate_append_singleton row.bytes (by simpa using hrows), List.append_assoc]

/-- It is a string. -/
theorem zero_not_mem_statement (query : CString) (rows : List CString) :
    0 ∉ statement query rows := by
  induction rows using List.reverseRecOn with
  | nil => simpa [statement] using query.nonzero
  | append_singleton rows row ih =>
    by_cases hrows : rows = []
    · subst hrows
      rw [List.nil_append, statement_singleton, List.mem_append]
      exact fun h => h.elim query.nonzero row.nonzero
    · rw [statement_append query row hrows, List.mem_append, List.mem_cons]
      rintro (h | h | h)
      · exact ih h
      · exact absurd h (by decide)
      · exact row.nonzero h

/-- What a row adds to the statement. -/
theorem length_statement_append (query row : CString) (rows : List CString) :
    (statement query (rows ++ [row])).length =
      (statement query rows).length + row.length + if 0 < rows.length then 1 else 0 := by
  by_cases hrows : rows = []
  · subst hrows
    rw [List.nil_append, statement_singleton, List.length_append]
    simp [statement, CString.length]
  · rw [statement_append query row hrows, if_pos (List.length_pos_iff.mpr hrows),
      List.length_append, List.length_cons, CString.length, Nat.add_assoc]

theorem length_statement_nil (query : CString) : (statement query []).length = query.length := by
  simp [statement, CString.length]

/-- No comma stands before the first row. -/
theorem length_statement_first (query row : CString) :
    (statement query ([] ++ [row])).length = query.length + row.length := by
  rw [length_statement_append, length_statement_nil]
  simp

theorem length_le_statement (query : CString) (rows : List CString) :
    query.length ≤ (statement query rows).length := by
  rw [statement, List.length_append]
  exact Nat.le_add_right _ _

theorem sends_nil (query : CString) : Sends query [] [] := ⟨[], by simp, rfl, rfl⟩

/-- One more statement, with a commit behind it or not. -/
theorem Sends.append {query : CString} {rows pending : List CString} {queries more : List Query}
    (h : Sends query rows queries) (hpending : pending ≠ [])
    (hmore : inserts more = [statement query pending]) :
    Sends query (rows ++ pending) (queries ++ more) := by
  obtain ⟨batches, hne, hrows, hinserts⟩ := h
  refine ⟨batches ++ [pending], ?_, ?_, ?_⟩
  · intro batch hbatch
    rcases List.mem_append.mp hbatch with hold | hnew
    · exact hne batch hold
    · rw [List.mem_singleton.mp hnew]
      exact hpending
  · rw [List.flatten_append, hrows, List.flatten_singleton]
  · rw [inserts, List.filterMap_append, List.map_append, List.map_singleton]
    exact congrArg₂ (· ++ ·) hinserts hmore

/-- A last query that is a commit is behind everything. -/
theorem commits_append (queries : List Query) : Commits (queries ++ [.commit]) := by
  intro before text after h
  rcases List.eq_nil_or_concat after with rfl | ⟨init, last, rfl⟩
  · have hlast := congrArg List.getLast? h
    simp at hlast
  · rw [List.concat_eq_append, ← List.cons_append, ← List.append_assoc] at h
    have hlast := List.append_inj_right' h rfl
    rw [List.concat_eq_append, List.mem_append]
    exact Or.inr (hlast ▸ List.mem_singleton_self _)

/-- **The buffer holds the statement** for the rows that are pending. -/
structure Buffered (query : CString) (needsCommit : Bool) (con : Conn) (pending : List CString) :
    Prop where
  buflen : con.bulkBuflen = bulkPacketSize
  size : con.bulkBuffer.length = bulkPacketSize
  orig : con.bulkPtrOrig = query.length
  cnt : con.bulkCnt = pending.length
  ptr : con.bulkPtr = (statement query pending).length
  text : statement query pending <+: con.bulkBuffer
  terminated : pending ≠ [] → statement query pending ++ [0] <+: con.bulkBuffer
  room : query.length + 1 ≤ bulkPacketSize
  commitMax : con.bulkCommitMax = if needsCommit then rowsBeforeCommit else 0

section

variable {query row : CString} {needsCommit : Bool} {con : Conn} {pending sent : List CString}

theorem Buffered.ptr_lt (h : Buffered query needsCommit con pending) :
    con.bulkPtr < bulkPacketSize := by
  rw [h.ptr]
  by_cases hpending : pending = []
  · rw [hpending, length_statement_nil]
    exact h.room
  · have hle := (h.terminated hpending).length_le
    rw [h.size, List.length_append, List.length_singleton] at hle
    exact hle

/-- Something is pending, and counted. -/
theorem Buffered.cnt_ne_zero (h : Buffered query needsCommit con pending) (hpending : pending ≠ []) :
    con.bulkCnt ≠ 0 := by
  rw [h.cnt]
  exact fun hzero => hpending (List.length_eq_zero_iff.mp hzero)

/-- A row for which there is room. -/
theorem Buffered.append (h : Buffered query needsCommit con pending)
    (hroom : (statement query (pending ++ [row])).length < bulkPacketSize) :
    ∃ con', con.append row = some con' ∧ Buffered query needsCommit con' (pending ++ [row]) ∧
      con'.queries = con.queries := by
  have hlength := length_statement_append query row pending
  have hsize := h.size
  unfold Conn.append
  rw [h.cnt, h.ptr]
  by_cases hpending : pending = []
  · subst hpending
    have hcopy : (statement query []).length + row.length < con.bulkBuffer.length := by
      rw [length_statement_nil, ← length_statement_first, hsize]
      exact hroom
    obtain ⟨buffer, hstrcpy, hkeep, htext⟩ := strcpy_spec h.text hcopy
    have hstatement : statement query [] ++ row.bytes = statement query ([] ++ [row]) := by
      simp [statement]
    rw [hstatement] at htext
    rw [if_neg (by simp), hstrcpy]
    exact ⟨_, rfl, ⟨h.buflen, hkeep.trans hsize, h.orig, rfl, by rw [hlength]; simp,
      (List.prefix_append _ _).trans htext, fun _ => htext, h.room, h.commitMax⟩, rfl⟩
  · have hpos : 0 < pending.length := List.length_pos_iff.mpr hpending
    rw [if_pos hpos] at hlength
    have hcomma : (statement query pending).length + [comma].length ≤ con.bulkBuffer.length := by
      simp only [List.length_singleton]
      omega
    obtain ⟨buffer₁, hstore, hkeep₁, htext₁⟩ := store_spec _ h.text hcomma
    have hcopy : (statement query pending ++ [comma]).length + row.length < buffer₁.length := by
      rw [List.length_append, List.length_singleton]
      omega
    obtain ⟨buffer, hstrcpy, hkeep, htext⟩ := strcpy_spec htext₁ hcopy
    rw [List.length_append, List.length_singleton] at hstrcpy
    have hstatement : statement query pending ++ [comma] ++ row.bytes =
        statement query (pending ++ [row]) := by
      rw [statement_append query row hpending, List.append_assoc, List.singleton_append]
    rw [hstatement] at htext
    rw [if_pos hpos, hstore, Option.bind_eq_bind, Option.bind_some, hstrcpy]
    exact ⟨_, rfl, ⟨h.buflen, (hkeep.trans hkeep₁).trans hsize, h.orig, by simp, hlength.symm,
      (List.prefix_append _ _).trans htext, fun _ => htext, h.room, h.commitMax⟩, rfl⟩

/-- A row for which there is none. -/
theorem Buffered.append_eq_none (h : Buffered query needsCommit con pending)
    (hroom : bulkPacketSize ≤ (statement query (pending ++ [row])).length) :
    con.append row = none := by
  have hlength := length_statement_append query row pending
  have hsize := h.size
  unfold Conn.append
  rw [h.cnt, h.ptr]
  by_cases hpending : pending = []
  · subst hpending
    have hfull : con.bulkBuffer.length ≤ (statement query []).length + row.length := by
      rw [length_statement_nil, ← length_statement_first, hsize]
      exact hroom
    rw [if_neg (by simp), strcpy_eq_none hfull]
    rfl
  · have hpos : 0 < pending.length := List.length_pos_iff.mpr hpending
    rw [if_pos hpos] at hlength
    have hlt := h.ptr_lt
    rw [h.ptr] at hlt
    have hcomma : (statement query pending).length + [comma].length ≤ con.bulkBuffer.length := by
      rw [hsize, List.length_singleton]
      exact hlt
    obtain ⟨buffer₁, hstore, hkeep₁, -⟩ := store_spec _ h.text hcomma
    have hfull : buffer₁.length ≤ (statement query pending).length + 1 + row.length := by omega
    rw [if_pos hpos, hstore, Option.bind_eq_bind, Option.bind_some, strcpy_eq_none hfull]
    rfl

/-- A commit changes nothing but the queries and the count of the rows without one. -/
theorem commitIfDue_spec (isLast : Bool) (con : Conn) :
    ∃ cnt more, con.commitIfDue isLast =
        { con with bulkCommitCnt := cnt, queries := con.queries ++ more } ∧
      (more = [] ∨ more = [.commit]) ∧
      (isLast = true → con.bulkCommitMax ≠ 0 → more = [.commit]) := by
  unfold Conn.commitIfDue
  by_cases hmax : con.bulkCommitMax ≠ 0
  · rw [if_pos hmax]
    dsimp only
    split
    · exact ⟨0, [.commit], rfl, Or.inr rfl, fun _ _ => rfl⟩
    · rename_i hdue
      refine ⟨_, [], by rw [List.append_nil], Or.inl rfl, fun hlast _ => ?_⟩
      rw [hlast] at hdue
      simp at hdue
  · rw [if_neg hmax]
    exact ⟨con.bulkCommitCnt, [], by rw [List.append_nil], Or.inl rfl,
      fun _ hmax' => absurd hmax' hmax⟩

/-- What is collected is sent. -/
theorem Buffered.flush (h : Buffered query needsCommit con pending) (hpending : pending ≠ [])
    (hsent : Sends query sent con.queries) (isLast : Bool) :
    Buffered query needsCommit (bulkDoInsert isLast con) [] ∧
      Sends query (sent ++ pending) (bulkDoInsert isLast con).queries ∧
      (isLast = true → needsCommit = true → Commits (bulkDoInsert isLast con).queries) := by
  have hcnt := h.cnt_ne_zero hpending
  have htext : stringAt con.bulkBuffer = statement query pending :=
    stringAt_eq (h.terminated hpending) (zero_not_mem_statement query pending)
  obtain ⟨cnt, more, hcommit, hmore, hlast⟩ := commitIfDue_spec isLast
    { con with queries := con.queries ++ [Query.insert (stringAt con.bulkBuffer)] }
  have hflush : bulkDoInsert isLast con =
      { con with
        bulkCommitCnt := cnt
        queries := con.queries ++ ([Query.insert (stringAt con.bulkBuffer)] ++ more)
        bulkPtr := con.bulkPtrOrig
        bulkCnt := 0 } := by
    rw [bulkDoInsert, if_neg hcnt]
    dsimp only
    rw [hcommit, List.append_assoc]
  rw [hflush]
  refine ⟨⟨h.buflen, h.size, h.orig, rfl, ?_, ?_, fun hnil => absurd rfl hnil, h.room,
    h.commitMax⟩, ?_, ?_⟩
  · rw [length_statement_nil]
    exact h.orig
  · refine List.IsPrefix.trans ?_ h.text
    simp [statement]
  · refine hsent.append hpending ?_
    rw [htext]
    rcases hmore with rfl | rfl
    · rfl
    · rfl
  · intro hisLast hneeds
    have hmax : con.bulkCommitMax ≠ 0 := by
      rw [h.commitMax, if_pos hneeds]
      decide
    show Commits (con.queries ++ ([Query.insert (stringAt con.bulkBuffer)] ++ more))
    rw [hlast hisLast hmax, ← List.append_assoc]
    exact commits_append _

/-! ## The rows -/

/-- **Where a bulk insert is**: some rows are sent, and some pending; only at the beginning none
are. -/
structure Inv (query : CString) (needsCommit : Bool) (con : Conn) (sent pending : List CString) :
    Prop where
  buffered : Buffered query needsCommit con pending
  sends : Sends query sent con.queries
  fresh : pending = [] → sent = [] ∧ con.queries = []

theorem bulkInsertInit_inv {memory : List UInt8} (hmemory : memory.length = bulkPacketSize)
    (hinit : bulkInsertInit needsCommit memory query = some (some con)) :
    Inv query needsCommit con [] [] := by
  unfold bulkInsertInit at hinit
  split at hinit
  · cases hinit
  · rename_i hlength
    have hroom : query.length + 1 ≤ bulkPacketSize := Nat.le_of_not_lt hlength
    have hcopy : ([] : List UInt8).length + query.length < memory.length := by
      rw [List.length_nil, Nat.zero_add, hmemory]
      exact hroom
    obtain ⟨buffer, hstrcpy, hkeep, htext⟩ := strcpy_spec List.nil_prefix hcopy
    rw [List.length_nil] at hstrcpy
    rw [hstrcpy] at hinit
    cases hinit
    refine ⟨⟨rfl, hkeep.trans hmemory, rfl, rfl, (length_statement_nil query).symm, ?_,
      fun hnil => absurd rfl hnil, hroom, rfl⟩, sends_nil query, fun _ => ⟨rfl, rfl⟩⟩
    refine List.IsPrefix.trans ?_ htext
    simp [statement]

/-- The only error of `db_bulk_insert_init` is a statement that is too long. -/
theorem bulkInsertInit_ok {memory : List UInt8} (hmemory : memory.length = bulkPacketSize)
    (hroom : query.length + 1 ≤ bulkPacketSize) :
    ∃ con, bulkInsertInit needsCommit memory query = some (some con) := by
  have hcopy : ([] : List UInt8).length + query.length < memory.length := by
    rw [List.length_nil, Nat.zero_add, hmemory]
    exact hroom
  obtain ⟨buffer, hstrcpy, -, -⟩ := strcpy_spec List.nil_prefix hcopy
  rw [List.length_nil] at hstrcpy
  exact ⟨_, by rw [bulkInsertInit, if_neg (Nat.not_lt_of_le hroom), hstrcpy]; rfl⟩

/-- The row goes to the pending ones, or these are sent first. -/
theorem Inv.next_fits (h : Inv query needsCommit con sent pending) (hfits : Fits query row) :
    ∃ con' sent' pending', bulkInsertNext row con = some (true, con') ∧
      Inv query needsCommit con' sent' pending' ∧ pending' ≠ [] ∧
      sent' ++ pending' = sent ++ pending ++ [row] := by
  have hlength := length_statement_append query row pending
  have hptr := h.buffered.ptr
  have hlt := h.buffered.ptr_lt
  have hpacket : bulkPacketSize = 524288 := rfl
  unfold Fits at hfits
  have hcheck : (con.bulkPtr + row.length + 1 + if 0 < con.bulkCnt then 1 else 0) % 2 ^ 32 =
      (statement query (pending ++ [row])).length + 1 := by
    rw [h.buffered.cnt, hlength, hptr, Nat.mod_eq_of_lt]
    · split <;> omega
    · split <;> omega
  unfold bulkInsertNext
  dsimp only
  rw [hcheck, h.buffered.buflen]
  by_cases hroom : (statement query (pending ++ [row])).length < bulkPacketSize
  · obtain ⟨con', happend, hbuffered, hqueries⟩ := h.buffered.append hroom
    rw [if_neg (by omega), happend]
    refine ⟨con', sent, pending ++ [row], rfl, ⟨hbuffered, hqueries ▸ h.sends, ?_⟩, by simp, ?_⟩
    · intro hnil
      simp at hnil
    · rw [List.append_assoc]
  · -- no room behind the pending rows, so there are some
    have hpending : pending ≠ [] := by
      rintro rfl
      rw [length_statement_first] at hroom
      omega
    have hcnt := h.buffered.cnt_ne_zero hpending
    obtain ⟨hempty, hsends, -⟩ := h.buffered.flush hpending h.sends false
    have hfirst : (statement query ([] ++ [row])).length < bulkPacketSize := by
      rw [length_statement_first]
      omega
    obtain ⟨con', happend, hbuffered, hqueries⟩ := hempty.append hfirst
    rw [if_pos (by omega), if_neg hcnt, happend]
    refine ⟨con', sent ++ pending, [row], rfl, ⟨hbuffered, hqueries ▸ hsends, ?_⟩, by simp, rfl⟩
    intro hnil
    cases hnil

theorem Inv.next_refused (h : Inv query needsCommit con sent []) (hrefused : Refused query row) :
    bulkInsertNext row con = some (false, con) := by
  have hcnt : con.bulkCnt = 0 := h.buffered.cnt
  unfold Refused at hrefused
  unfold bulkInsertNext
  dsimp only
  rw [h.buffered.ptr, length_statement_nil, hcnt, h.buffered.buflen, if_neg (Nat.lt_irrefl 0),
    Nat.add_zero, if_pos hrefused, if_pos rfl]

/-- A row that does not fit and is not refused. -/
theorem Inv.next_overflow (h : Inv query needsCommit con sent pending)
    (hfits : ¬ Fits query row) (hrefused : pending = [] → ¬ Refused query row) :
    bulkInsertNext row con = none := by
  have hlength := length_statement_append query row pending
  have hle := length_le_statement query pending
  unfold Fits at hfits
  unfold Refused at hrefused
  have hfull : con.append row = none := h.buffered.append_eq_none (by omega)
  unfold bulkInsertNext
  dsimp only
  by_cases hpending : pending = []
  · subst hpending
    have hcnt : con.bulkCnt = 0 := h.buffered.cnt
    rw [h.buffered.ptr, length_statement_nil, hcnt, h.buffered.buflen, if_neg (Nat.lt_irrefl 0),
      Nat.add_zero, if_neg (hrefused rfl), hfull]
    rfl
  · have hcnt := h.buffered.cnt_ne_zero hpending
    obtain ⟨hempty, -, -⟩ := h.buffered.flush hpending h.sends false
    have hfirst : (bulkDoInsert false con).append row = none := by
      refine hempty.append_eq_none ?_
      rw [length_statement_first]
      omega
    rw [if_neg hcnt, hfirst, hfull, Option.map_none, ite_self]

theorem bulkInsertRows_cons {con₁ : Conn} {accepted : Bool}
    (hnext : bulkInsertNext row con = some (accepted, con₁)) (rows : List CString) :
    bulkInsertRows (row :: rows) con = (bulkInsertRows rows con₁).map fun x =>
      (if accepted then row :: x.1 else x.1, x.2) := by
  rw [bulkInsertRows, hnext]
  show (bulkInsertRows rows con₁).bind _ = _
  rw [Option.map_eq_bind]
  rfl

theorem bulkInsertRows_cons_none (hnext : bulkInsertNext row con = none) (rows : List CString) :
    bulkInsertRows (row :: rows) con = none := by
  rw [bulkInsertRows, hnext]
  rfl

/-- Rows that fit are all taken. -/
theorem Inv.rows_fit {rows : List CString} (h : Inv query needsCommit con sent pending)
    (hfits : ∀ row ∈ rows, Fits query row) :
    ∃ con' sent' pending', bulkInsertRows rows con = some (rows, con') ∧
      Inv query needsCommit con' sent' pending' ∧ sent' ++ pending' = sent ++ pending ++ rows := by
  induction rows generalizing con sent pending with
  | nil => exact ⟨con, sent, pending, rfl, h, (List.append_nil _).symm⟩
  | cons row rows ih =>
    obtain ⟨con₁, sent₁, pending₁, hnext, hinv₁, -, happend₁⟩ :=
      h.next_fits (hfits row List.mem_cons_self)
    obtain ⟨con', sent', pending', hrows, hinv, happend⟩ :=
      ih hinv₁ fun row' hrow' => hfits row' (List.mem_cons_of_mem _ hrow')
    refine ⟨con', sent', pending', ?_, hinv, ?_⟩
    · rw [bulkInsertRows_cons hnext, hrows]
      rfl
    · rw [happend, happend₁, List.append_assoc, List.singleton_append]

/-- Rows that are refused, and come first, leave everything as it is. -/
theorem Inv.rows_refused {refused : List CString} (h : Inv query needsCommit con [] [])
    (hrefused : ∀ row ∈ refused, Refused query row) (rows : List CString) :
    bulkInsertRows (refused ++ rows) con = bulkInsertRows rows con := by
  induction refused with
  | nil => rfl
  | cons row refused ih =>
    have hnext := h.next_refused (hrefused row List.mem_cons_self)
    rw [List.cons_append, bulkInsertRows_cons hnext,
      ih fun row' hrow' => hrefused row' (List.mem_cons_of_mem _ hrow')]
    exact Option.map_id'

/-- Behind a row that was taken all others have to fit. -/
theorem Inv.fits_of_rows {rows : List CString} (h : Inv query needsCommit con sent pending)
    (hpending : pending ≠ []) (hrows : bulkInsertRows rows con ≠ none) :
    ∀ row ∈ rows, Fits query row := by
  induction rows generalizing con sent pending with
  | nil => exact fun row hrow => by cases hrow
  | cons row rows ih =>
    by_cases hfits : Fits query row
    · obtain ⟨con₁, sent₁, pending₁, hnext, hinv₁, hpending₁, -⟩ := h.next_fits hfits
      rw [bulkInsertRows_cons hnext, Ne, Option.map_eq_none_iff] at hrows
      intro row' hrow'
      rcases List.mem_cons.mp hrow' with rfl | hrow'
      · exact hfits
      · exact ih hinv₁ hpending₁ hrows row' hrow'
    · have hnext := h.next_overflow hfits fun hnil => absurd hnil hpending
      exact absurd (bulkInsertRows_cons_none hnext rows) hrows

/-- And before it, those that do not are refused. -/
theorem Inv.split_of_rows {rows : List CString} (h : Inv query needsCommit con [] [])
    (hrows : bulkInsertRows rows con ≠ none) :
    ∃ refused fitting, rows = refused ++ fitting ∧ (∀ row ∈ refused, Refused query row) ∧
      ∀ row ∈ fitting, Fits query row := by
  induction rows with
  | nil => exact ⟨[], [], rfl, by simp, by simp⟩
  | cons row rows ih =>
    by_cases hfits : Fits query row
    · obtain ⟨con₁, sent₁, pending₁, hnext, hinv₁, hpending₁, -⟩ := h.next_fits hfits
      rw [bulkInsertRows_cons hnext, Ne, Option.map_eq_none_iff] at hrows
      refine ⟨[], row :: rows, rfl, by simp, fun row' hrow' => ?_⟩
      rcases List.mem_cons.mp hrow' with rfl | hrow'
      · exact hfits
      · exact hinv₁.fits_of_rows hpending₁ hrows row' hrow'
    · by_cases hrefused : Refused query row
      · rw [bulkInsertRows_cons (h.next_refused hrefused), Ne, Option.map_eq_none_iff] at hrows
        obtain ⟨refused, fitting, rfl, hall, hfitting⟩ := ih hrows
        refine ⟨row :: refused, fitting, rfl, fun row' hrow' => ?_, hfitting⟩
        rcases List.mem_cons.mp hrow' with rfl | hrow'
        · exact hrefused
        · exact hall row' hrow'
      · have hnext := h.next_overflow hfits fun _ => hrefused
        exact absurd (bulkInsertRows_cons_none hnext rows) hrows

/-- `db_bulk_insert_done` sends the rest. -/
theorem Inv.done (h : Inv query needsCommit con sent pending) :
    Sends query (sent ++ pending) (bulkDoInsert true con).queries ∧
      (needsCommit = true → Commits (bulkDoInsert true con).queries) := by
  by_cases hpending : pending = []
  · subst hpending
    have hcnt : con.bulkCnt = 0 := h.buffered.cnt
    rw [bulkDoInsert, if_pos hcnt, List.append_nil]
    refine ⟨h.sends, fun _ before text after hqueries => ?_⟩
    rw [(h.fresh rfl).2] at hqueries
    simp at hqueries
  · obtain ⟨-, hsends, hcommits⟩ := h.buffered.flush hpending h.sends true
    exact ⟨hsends, hcommits rfl⟩

end

/-- **Bulk inserts are right exactly** when the rows that do not fit into an empty buffer come
before all that do, and are too long for the check as well, which counts modulo `2 ^ 32`: then
nothing is written past the buffer, the rows that are taken are sent, each once and in order,
and a driver that needs commits gets one behind each of them. -/
theorem bulkInsert_iff {query : CString} {needsCommit : Bool} {memory : List UInt8} {con : Conn}
    (hmemory : memory.length = bulkPacketSize)
    (hinit : bulkInsertInit needsCommit memory query = some (some con)) (rows : List CString) :
    (∃ accepted queries, bulkInsert rows con = some (accepted, queries) ∧
      Sends query accepted queries ∧ (needsCommit = true → Commits queries)) ↔
    ∃ refused fitting, rows = refused ++ fitting ∧ (∀ row ∈ refused, Refused query row) ∧
      ∀ row ∈ fitting, Fits query row := by
  have hinv := bulkInsertInit_inv hmemory hinit
  constructor
  · rintro ⟨accepted, queries, hall, -⟩
    refine hinv.split_of_rows fun hnone => ?_
    rw [bulkInsert, hnone] at hall
    cases hall
  · rintro ⟨refused, fitting, rfl, hrefused, hfitting⟩
    obtain ⟨con', sent', pending', hrows, hinv', happend⟩ := hinv.rows_fit hfitting
    obtain ⟨hsends, hcommits⟩ := hinv'.done
    refine ⟨fitting, (bulkDoInsert true con').queries, ?_, ?_, hcommits⟩
    · rw [bulkInsert, hinv.rows_refused hrefused, hrows]
      rfl
    · rw [happend] at hsends
      exact hsends

/-- `INSERT INTO t VALUES`. -/
def insertIntoT : CString :=
  ⟨[73, 78, 83, 69, 82, 84, 32, 73, 78, 84, 79, 32, 116, 32, 86, 65, 76, 85, 69, 83], by decide⟩

/-- `(1)`. -/
def rowOne : CString := ⟨[40, 49, 41], by decide⟩

/-- A row of quotes, as long as the buffer. -/
def longRow : CString := ⟨List.replicate bulkPacketSize 39, fun h => by
  have hquote := List.eq_of_mem_replicate h
  revert hquote
  decide⟩

theorem insertIntoT_ok (needsCommit : Bool) : ∃ con,
    bulkInsertInit needsCommit (List.replicate bulkPacketSize 0) insertIntoT = some (some con) :=
  bulkInsertInit_ok List.length_replicate (by decide)

theorem bulkInsert_two_rows : ∃ con,
    bulkInsertInit true (List.replicate bulkPacketSize 0) insertIntoT = some (some con) ∧
    ((∃ accepted queries, bulkInsert [rowOne, rowOne] con = some (accepted, queries) ∧
      Sends insertIntoT accepted queries ∧ (true = true → Commits queries)) ↔
    ∃ refused fitting, [rowOne, rowOne] = refused ++ fitting ∧
      (∀ row ∈ refused, Refused insertIntoT row) ∧ ∀ row ∈ fitting, Fits insertIntoT row) := by
  obtain ⟨con, hinit⟩ := insertIntoT_ok true
  exact ⟨con, hinit, bulkInsert_iff List.length_replicate hinit [rowOne, rowOne]⟩

/-- A row that is as long as the buffer, behind a short one: it is copied all the same. -/
theorem long_row_overflows : ∃ con,
    bulkInsertInit true (List.replicate bulkPacketSize 0) insertIntoT = some (some con) ∧
      bulkInsert [rowOne, longRow] con = none := by
  obtain ⟨con, hinit⟩ := insertIntoT_ok true
  have hinv := bulkInsertInit_inv List.length_replicate hinit
  have hshort : Fits insertIntoT rowOne := by decide
  have hlong : ¬ Fits insertIntoT longRow := by
    have hlength : longRow.length = bulkPacketSize := List.length_replicate
    rw [Fits, hlength]
    omega
  obtain ⟨con₁, sent₁, pending₁, hnext, hinv₁, hpending₁, -⟩ := hinv.next_fits hshort
  have hnext₁ := hinv₁.next_overflow hlong fun hnil => absurd hnil hpending₁
  refine ⟨con, hinit, ?_⟩
  rw [bulkInsert, bulkInsertRows_cons hnext, bulkInsertRows_cons_none hnext₁]
  rfl

end TokuQa.Sysbench.BulkInsert
