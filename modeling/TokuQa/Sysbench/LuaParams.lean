import Mathlib.Data.Fintype.Basic
import Mathlib.Data.List.TakeWhile

/-!
# Parameters that are bound from Lua

`db_bind_param` of the Lua interface takes a table, and `db_execute` copies what the table holds
into buffers that the driver has pointers to. A string that has become longer gets a new buffer,
and then all parameters are bound again; else the old pointers are used.

What is bound depends on the table at that time: a parameter that is `nil` is bound without a
buffer, and a string that is not `nil` without the flag that says that it is. So only another
binding makes room for a change between the two (`sbLuaDbExecute_iff`). The types of the entries
index the parameters, and no parameter has a length beyond its buffer.
-/

set_option autoImplicit false

namespace TokuQa.Sysbench.LuaParams

/-! ## The table -/

/-- `DB_TYPE_INT` or `DB_TYPE_CHAR`. -/
inductive Kind where
  | int
  | char
deriving DecidableEq

/-- An entry of the table, or `nil`. -/
inductive Entry : Kind → Type where
  | int (x : Option Int32) : Entry .int
  | char (s : Option (List UInt8)) : Entry .char

/-- What the server is sent for a placeholder. -/
inductive Value where
  | null
  | int (x : Int32)
  | str (s : List UInt8)
deriving DecidableEq

variable {k : Kind} {n : Nat} {kinds : Fin n → Kind}

def Entry.value : Entry k → Value
  | .int none => .null
  | .int (some x) => .int x
  | .char none => .null
  | .char (some s) => .str s

def Entry.isNil : Entry k → Bool
  | .int x => x.isNone
  | .char s => s.isNone

/-- The length of a string. -/
def Entry.length : Entry k → Nat
  | .char (some s) => s.length
  | _ => 0

/-- The entries in the order of `lua_next`, which is the one of the placeholders. -/
abbrev Table (kinds : Fin n → Kind) : Type := ∀ i, Entry (kinds i)

/-! ## Parameters -/

/-- A buffer for a string. `realloc` moves it, so its address is how often it has been moved. -/
structure Block where
  address : Nat
  bytes : List UInt8

def capacity (buf : Option Block) : Nat := buf.elim 0 fun block => block.bytes.length

/-- `sb_lua_bind_t`. The buffer of an integer is never moved. -/
inductive Param : Kind → Type where
  | int (x : Int32) (isNull : Bool) : Param .int
  | char (buf : Option Block) (buflen : Nat) (fits : buflen ≤ capacity buf) (isNull : Bool) :
      Param .char

/-- What `calloc` makes. -/
def Param.start : (k : Kind) → Param k
  | .int => .int 0 false
  | .char => .char none 0 le_rfl false

def Param.isNull : Param k → Bool
  | .int _ isNull => isNull
  | .char _ _ _ isNull => isNull

/-- `strncpy(.., str, length)`. -/
def strncpy (s : List UInt8) : List UInt8 :=
  s.takeWhile (· ≠ 0) ++ List.replicate (s.length - (s.takeWhile (· ≠ 0)).length) 0

theorem length_strncpy (s : List UInt8) : (strncpy s).length = s.length := by
  have hle := (List.takeWhile_prefix (· ≠ 0) (l := s)).length_le
  rw [strncpy, List.length_append, List.length_replicate]
  omega

/-- `realloc` to a new length, and what `strncpy` puts there. -/
def moved (buf : Option Block) (s : List UInt8) : Block :=
  ⟨buf.elim 0 fun block => block.address + 1, strncpy s⟩

/-- `strncpy` to a buffer that is long enough. -/
def overwritten (buf : Option Block) (s : List UInt8) : Option Block :=
  buf.map fun block => ⟨block.address, strncpy s ++ block.bytes.drop s.length⟩

theorem capacity_overwritten (buf : Option Block) (s : List UInt8) :
    s.length ≤ capacity buf → s.length ≤ capacity (overwritten buf s) := by
  intro h
  cases buf with
  | none => exact h
  | some block =>
    simp only [capacity, overwritten, Option.map_some, Option.elim_some, List.length_append,
      length_strncpy]
    omega

/-- What `db_execute` does with an entry, and whether it `needs_rebind`. -/
def Param.set : Param k → Entry k → Param k × Bool
  | .int x _, .int none => (.int x true, false)
  | .int _ _, .int (some x) => (.int x false, false)
  | .char buf buflen fits _, .char none => (.char buf buflen fits true, false)
  | .char buf buflen fits _, .char (some s) =>
    if h : buflen < s.length then
      (.char (some (moved buf s)) s.length (length_strncpy s).ge false, true)
    else
      (.char (overwritten buf s) s.length
        (capacity_overwritten buf s (le_trans (Nat.le_of_not_lt h) fits)) false, false)

/-! ## The driver -/

/-- A `MYSQL_BIND`: the address of the buffer, and whether it points to the length and to the flag
of the parameter. `buffer_length` is 0. -/
structure MysqlBind where
  buffer : Option Nat
  length : Bool
  isNull : Bool

/-- How a parameter is bound, where `*is_null` is as given. -/
def Param.bindAs : Param k → Bool → MysqlBind
  | _, true => ⟨none, false, true⟩
  | .int _ _, false => ⟨some 0, false, true⟩
  | .char buf _ _ _, false => ⟨buf.map Block.address, true, false⟩

/-- So many bytes from an address. `none` is a read from memory that is not there. -/
def read (buf : Option Block) (address : Option Nat) (length : Nat) : Option (List UInt8) :=
  if length = 0 then some []
  else do
    let address ← address
    let block ← buf
    if address = block.address then some (block.bytes.take length) else none

/-- What `mysql_stmt_execute` sends for a parameter. A flag that is not given is false, and a length
that is not given is `buffer_length`. -/
def Param.sent (p : Param k) (b : MysqlBind) : Option Value :=
  if b.isNull = true ∧ p.isNull = true then some .null
  else match p with
    | .int x _ => b.buffer.map fun _ => .int x
    | .char buf buflen _ _ =>
      (read buf b.buffer (if b.length = true then buflen else 0)).map .str

/-- `sb_lua_db_stmt_t`, with what the driver has been told. -/
structure Stmt (kinds : Fin n → Kind) where
  params : ∀ i, Param (kinds i)
  bound : Option (Fin n → MysqlBind)

/-- What `mysql_stmt_execute` sends. A statement that is not bound is an error of its own. -/
def mysqlStmtExecute (s : Stmt kinds) : Option (Fin n → Option Value) :=
  s.bound.map fun bound i => (s.params i).sent (bound i)

/-! ## The interface -/

variable (paramCount : Nat)

/-- `mysql_drv_bind_param`, for a statement with so many placeholders. -/
def mysqlDrvBindParam (s : Stmt kinds) : Option (Stmt kinds) :=
  if paramCount = n then
    some { s with bound := some fun i => (s.params i).bindAs (s.params i).isNull }
  else none

/-- `sb_lua_db_bind_param`; `none` is an error. -/
def sbLuaDbBindParam (kinds : Fin n → Kind) : Option (Stmt kinds) :=
  let s : Stmt kinds := ⟨fun i => Param.start (kinds i), none⟩
  if n = 0 then none
  else if ∃ i, kinds i = .char then some s
  else mysqlDrvBindParam paramCount s

/-- An error, or what an execution sends that has reached the driver. -/
inductive Outcome (n : Nat) where
  | error
  | reached (sent : Option (Fin n → Option Value))

/-- `sb_lua_db_execute`. -/
def sbLuaDbExecute (s : Stmt kinds) (t : Table kinds) : Outcome n × Stmt kinds :=
  let next : Stmt kinds := { s with params := fun i => ((s.params i).set (t i)).1 }
  if ∃ i, ((s.params i).set (t i)).2 = true then
    match mysqlDrvBindParam paramCount next with
    | none => (.error, next)
    | some next => (.reached (mysqlStmtExecute next), next)
  else (.reached (mysqlStmtExecute next), next)

/-- The executions of a statement, the last one in front. -/
def executed (s : Stmt kinds) : List (Table kinds) → Stmt kinds
  | [] => s
  | t :: ts => (sbLuaDbExecute paramCount (executed s ts) t).2

/-! ## When it is right -/

/-- The length of the last string in an entry. -/
def lastLength (i : Fin n) : List (Table kinds) → Nat
  | [] => 0
  | t :: ts => if (t i).isNil = true then lastLength i ts else (t i).length

/-- A string has become longer. -/
def Grows (ts : List (Table kinds)) (t : Table kinds) : Prop :=
  ∃ i, lastLength i ts < (t i).length

instance (ts : List (Table kinds)) (t : Table kinds) : Decidable (Grows ts t) :=
  inferInstanceAs (Decidable (∃ _, _))

/-- The entries that were `nil` when the parameters were bound, if they are bound. -/
def boundNil : List (Table kinds) → Option (Fin n → Bool)
  | [] => if ∃ i, kinds i = .char then none else some fun _ => false
  | t :: ts =>
    if Grows ts t then if paramCount = n then some fun i => (t i).isNil else none
    else boundNil ts

/-- No byte but zero is behind a zero. -/
def ZeroPadded (s : List UInt8) : Prop := ∀ b ∈ s.dropWhile (· ≠ 0), b = 0

/-- An entry is what its binding has been made for. -/
def Entry.Kept : Entry k → Bool → Prop
  | .int x, wasNil => wasNil = true → x = none
  | .char none, wasNil => wasNil = true
  | .char (some s), wasNil => if wasNil = true then s = [] else ZeroPadded s

/-- An execution with this table in front of others is right. -/
def Fine (ts : List (Table kinds)) (t : Table kinds) : Prop :=
  (Grows ts t → paramCount = n) →
    ∃ wasNil ∈ boundNil paramCount (t :: ts), ∀ i, (t i).Kept (wasNil i)

/-! ## One parameter -/

def Param.buflen : Param k → Nat
  | .int _ _ => 0
  | .char _ buflen _ _ => buflen

/-- What an entry does to a parameter: only a string that is longer than the last one asks for
another binding, and without one no buffer is moved. -/
structure Takes (p : Param k) (e : Entry k) (r : Param k × Bool) : Prop where
  isNull : r.1.isNull = e.isNil
  buflen : r.1.buflen = if e.isNil = true then p.buflen else e.length
  rebinds : r.2 = true ↔ p.buflen < e.length
  bindAs : r.2 = false → ∀ wasNil, r.1.bindAs wasNil = p.bindAs wasNil

theorem set_takes (p : Param k) (e : Entry k) : Takes p e (p.set e) := by
  have hnone {n : Nat} : false = true ↔ n < 0 :=
    ⟨fun h => Bool.noConfusion h, fun h => absurd h (Nat.not_lt_zero n)⟩
  cases p with
  | int x isNull =>
    cases e with
    | int x =>
      cases x with
      | none => exact ⟨rfl, rfl, hnone, fun _ wasNil => by cases wasNil <;> rfl⟩
      | some x => exact ⟨rfl, rfl, hnone, fun _ wasNil => by cases wasNil <;> rfl⟩
  | char buf buflen fits isNull =>
    cases e with
    | char s =>
      cases s with
      | none => exact ⟨rfl, rfl, hnone, fun _ wasNil => by cases wasNil <;> rfl⟩
      | some s =>
        rw [Param.set]
        split
        · next hlt =>
          exact ⟨rfl, rfl, ⟨fun _ => hlt, fun _ => rfl⟩, fun h => Bool.noConfusion h⟩
        · next hle =>
          refine ⟨rfl, rfl, ⟨fun h => Bool.noConfusion h, fun hlt => absurd hlt hle⟩,
            fun _ wasNil => ?_⟩
          cases wasNil <;> cases buf <;> rfl

theorem strncpy_eq_self_iff (s : List UInt8) : strncpy s = s ↔ ZeroPadded s := by
  have hsplit := List.takeWhile_append_dropWhile (p := fun b : UInt8 => decide (b ≠ 0)) (l := s)
  have hlength := congrArg List.length hsplit
  rw [List.length_append] at hlength
  have hrest : s.length - (s.takeWhile (· ≠ 0)).length = (s.dropWhile (· ≠ 0)).length := by omega
  rw [strncpy, hrest, ZeroPadded]
  conv_lhs => rhs; rw [← hsplit]
  rw [List.append_cancel_left_eq, eq_comm, List.eq_replicate_iff]
  exact ⟨fun h => h.2, fun h => ⟨rfl, h⟩⟩

theorem read_strncpy (a : Nat) (s rest : List UInt8) :
    read (some ⟨a, strncpy s ++ rest⟩) (some a) s.length = some (strncpy s) := by
  have htake : (strncpy s ++ rest).take s.length = strncpy s := by
    conv_lhs => rw [← length_strncpy s]
    exact List.take_left
  by_cases hnil : s.length = 0
  · obtain rfl := List.length_eq_zero_iff.mp hnil
    rfl
  · rw [read, if_neg hnil]
    exact (if_pos rfl).trans (congrArg some htake)

/-- The buffer holds the string, or there is none and no need for it. -/
theorem set_char (buf : Option Block) (buflen : Nat) (fits : buflen ≤ capacity buf) (isNull : Bool)
    (s : List UInt8) : ∃ buf' fits',
      ((Param.char buf buflen fits isNull).set (.char (some s))).1 =
        .char buf' s.length fits' false ∧
      ((buf' = none ∧ s = []) ∨ ∃ a rest, buf' = some ⟨a, strncpy s ++ rest⟩) := by
  rw [Param.set]
  split
  · exact ⟨some (moved buf s), (length_strncpy s).ge, rfl,
      .inr ⟨_, [], by rw [moved, List.append_nil]⟩⟩
  · next hle =>
    refine ⟨overwritten buf s, capacity_overwritten buf s (le_trans (Nat.le_of_not_lt hle) fits), rfl,
      ?_⟩
    cases buf with
    | none =>
      have hzero : s.length = 0 := Nat.le_zero.mp ((Nat.le_of_not_lt hle).trans fits)
      exact .inl ⟨rfl, List.length_eq_zero_iff.mp hzero⟩
    | some block => exact .inr ⟨_, _, rfl⟩

/-- **A parameter is sent as it is** exactly if the entry is what its binding has been made for. -/
theorem sent_iff (p : Param k) (e : Entry k) (wasNil : Bool) :
    (p.set e).1.sent ((p.set e).1.bindAs wasNil) = some e.value ↔ e.Kept wasNil := by
  cases p with
  | int x isNull =>
    cases e with
    | int x =>
      cases x with
      | none => exact ⟨fun _ _ => rfl, fun _ => by cases wasNil <;> rfl⟩
      | some x =>
        cases wasNil with
        | true => exact ⟨(nomatch ·), fun h => absurd (h rfl) (Option.some_ne_none x)⟩
        | false => exact ⟨fun _ h => Bool.noConfusion h, fun _ => rfl⟩
  | char buf buflen fits isNull =>
    cases e with
    | char s =>
      cases s with
      | none =>
        cases wasNil with
        | true => exact ⟨fun _ => rfl, fun _ => rfl⟩
        | false =>
          -- without the flag a string is sent, or nothing at all
          refine ⟨fun h => ?_, fun h => Bool.noConfusion h⟩
          rw [Param.set, Param.sent, if_neg fun h => Bool.noConfusion h.1] at h
          obtain ⟨_, -, hstr⟩ := Option.map_eq_some_iff.mp h
          cases hstr
      | some s =>
        obtain ⟨buf', fits', hset, hbuf⟩ := set_char buf buflen fits isNull s
        rw [hset, Param.sent, if_neg fun h => Bool.noConfusion h.2]
        cases wasNil with
        | true =>
          have hread : (read buf' none 0).map Value.str = some (.str []) := rfl
          refine (Iff.of_eq (congrArg (· = some (Value.str s)) hread)).trans ?_
          simp [Entry.Kept, eq_comm]
        | false =>
          have hread : read buf' (buf'.map Block.address) s.length = some (strncpy s) := by
            rcases hbuf with ⟨rfl, rfl⟩ | ⟨a, rest, rfl⟩
            · rfl
            · exact read_strncpy a s rest
          refine (Iff.of_eq (congrArg (·.map Value.str = some (Value.str s)) hread)).trans ?_
          rw [Option.map_some, Option.some_inj, Value.str.injEq, strncpy_eq_self_iff]
          exact Iff.rfl

/-! ## A statement -/

/-- The executions leave the length of the last string in each parameter, and the bindings that
have been made for the entries that were `nil` then. -/
structure Follows (ts : List (Table kinds)) (s : Stmt kinds) : Prop where
  buflen : ∀ i, (s.params i).buflen = lastLength i ts
  bound : s.bound = (boundNil paramCount ts).map fun wasNil i => (s.params i).bindAs (wasNil i)
  unbound : paramCount ≠ n → s.bound = none

variable {paramCount} {ts : List (Table kinds)} {s : Stmt kinds}

theorem follows_start (h : sbLuaDbBindParam paramCount kinds = some s) :
    Follows paramCount [] s := by
  have hbuflen (k : Kind) : (Param.start k).buflen = 0 := by cases k <;> rfl
  unfold sbLuaDbBindParam at h
  dsimp only at h
  split at h
  · cases h
  · split at h
    · next hchar =>
      cases h
      refine ⟨fun i => hbuflen _, ?_, fun _ => rfl⟩
      rw [boundNil, if_pos hchar]
      rfl
    · next hint =>
      unfold mysqlDrvBindParam at h
      split at h
      · next hcount =>
        cases h
        refine ⟨fun i => hbuflen _, ?_, fun hne => absurd hcount hne⟩
        rw [boundNil, if_neg hint, Option.map_some]
        refine congrArg some (funext fun i => ?_)
        have hnull (k : Kind) : (Param.start k).isNull = false := by cases k <;> rfl
        rw [hnull]
      · cases h

theorem rebinds_iff (h : Follows paramCount ts s) (t : Table kinds) :
    (∃ i, ((s.params i).set (t i)).2 = true) ↔ Grows ts t := by
  refine exists_congr fun i => ?_
  rw [(set_takes _ _).rebinds, h.buflen]

/-- **What one execution does**: it is an error, or what is sent goes by the last binding. -/
theorem execute_spec (h : Follows paramCount ts s) (t : Table kinds) :
    Follows paramCount (t :: ts) (sbLuaDbExecute paramCount s t).2 ∧
      ((Grows ts t ∧ paramCount ≠ n ∧ (sbLuaDbExecute paramCount s t).1 = .error) ∨
        ((Grows ts t → paramCount = n) ∧ (sbLuaDbExecute paramCount s t).1 = .reached
          ((boundNil paramCount (t :: ts)).map fun wasNil i =>
            ((s.params i).set (t i)).1.sent (((s.params i).set (t i)).1.bindAs (wasNil i))))) := by
  have hbuflen (i : Fin n) : ((s.params i).set (t i)).1.buflen = lastLength i (t :: ts) := by
    rw [(set_takes _ _).buflen, h.buflen]
    rfl
  unfold sbLuaDbExecute
  dsimp only
  by_cases hgrows : Grows ts t
  · rw [if_pos ((rebinds_iff h t).mpr hgrows), mysqlDrvBindParam]
    by_cases hcount : paramCount = n
    · rw [if_pos hcount]
      have hbound : boundNil paramCount (t :: ts) = some fun i => (t i).isNil := by
        rw [boundNil, if_pos hgrows, if_pos hcount]
      simp only [(set_takes _ _).isNull]
      exact ⟨⟨hbuflen, by rw [hbound]; rfl, fun hne => absurd hcount hne⟩,
        .inr ⟨fun _ => hcount, by rw [hbound]; rfl⟩⟩
    · rw [if_neg hcount]
      refine ⟨⟨hbuflen, ?_, h.unbound⟩, .inl ⟨hgrows, hcount, rfl⟩⟩
      rw [boundNil, if_pos hgrows, if_neg hcount]
      exact h.unbound hcount
  · have hset (i : Fin n) : ((s.params i).set (t i)).2 = false := by
      refine Bool.eq_false_iff.mpr fun htrue => hgrows ?_
      exact (rebinds_iff h t).mp ⟨i, htrue⟩
    have hbound : s.bound = (boundNil paramCount (t :: ts)).map fun wasNil i =>
        ((s.params i).set (t i)).1.bindAs (wasNil i) := by
      rw [boundNil, if_neg hgrows, h.bound]
      refine congrArg (fun f => (boundNil paramCount ts).map f) (funext fun wasNil => funext fun i => ?_)
      rw [(set_takes _ _).bindAs (hset i)]
    rw [if_neg (mt (rebinds_iff h t).mp hgrows)]
    refine ⟨⟨hbuflen, hbound, h.unbound⟩, .inr ⟨fun h => absurd h hgrows, ?_⟩⟩
    rw [mysqlStmtExecute]
    dsimp only
    rw [hbound, Option.map_map]
    rfl

theorem follows_executed (h : sbLuaDbBindParam paramCount kinds = some s) (ts : List (Table kinds)) :
    Follows paramCount ts (executed paramCount s ts) := by
  induction ts with
  | nil => exact follows_start h
  | cons t ts ih => exact (execute_spec ih t).1

/-- **An execution that reaches the driver sends the table exactly if** the parameters are bound, and
every entry is what its binding has been made for. -/
theorem sbLuaDbExecute_iff (h : sbLuaDbBindParam paramCount kinds = some s)
    (ts : List (Table kinds)) (t : Table kinds) :
    (∀ sent, (sbLuaDbExecute paramCount (executed paramCount s ts) t).1 = .reached sent →
      sent = some fun i => some (t i).value) ↔ Fine paramCount ts t := by
  have hspec := (execute_spec (follows_executed h ts) t).2
  unfold Fine
  rcases hspec with ⟨hgrows, hcount, herror⟩ | ⟨hcount, hreached⟩
  · rw [herror]
    exact ⟨fun _ h => absurd (h hgrows) hcount, fun _ _ h => nomatch h⟩
  · rw [hreached, forall_prop_of_true hcount]
    constructor
    · intro h
      obtain ⟨wasNil, hwasNil, hsent⟩ := Option.map_eq_some_iff.mp (h _ rfl)
      exact ⟨wasNil, hwasNil, fun i => (sent_iff _ _ _).mp (congrFun hsent i)⟩
    · rintro ⟨wasNil, hwasNil, hkept⟩ sent hsent
      cases hsent
      rw [hwasNil, Option.map_some]
      exact congrArg some (funext fun i => (sent_iff _ _ _).mpr (hkept i))

/-- A statement with one string. -/
def oneString : Stmt fun _ : Fin 1 => .char := ⟨fun _ => Param.start .char, none⟩

def letter : Table fun _ : Fin 1 => .char := fun _ => .char (some [97])

theorem sbLuaDbExecute_letter : sbLuaDbBindParam 1 (fun _ : Fin 1 => .char) = some oneString ∧
    ∀ sent, (sbLuaDbExecute 1 (executed 1 oneString []) letter).1 = .reached sent →
      sent = some fun i => some (letter i).value := by
  have hbind : sbLuaDbBindParam 1 (fun _ : Fin 1 => .char) = some oneString := rfl
  refine ⟨hbind, (sbLuaDbExecute_iff hbind [] letter).mpr fun _ => ?_⟩
  exact ⟨fun _ => false, rfl, fun _ _ hb => absurd hb List.not_mem_nil⟩

/-- A string that has become `nil` is sent once more. -/
theorem sbLuaDbExecute_nil : ∃ sent,
    (sbLuaDbExecute 1 (executed 1 oneString [letter]) fun _ => .char none).1 = .reached (some sent) ∧
      sent 0 = some (.str [97]) ∧ (Entry.char none).value = .null :=
  ⟨_, rfl, rfl, rfl⟩

end TokuQa.Sysbench.LuaParams
