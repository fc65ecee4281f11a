import TokuQa.Lib.KeyedList
import TokuQa.Lib.Run
import TokuQa.Sysbench.ReadConfig

/-!
# The option table of `sb_options.c`

The table is a list of options. `set_option` looks for one of the name and takes a new one
otherwise, gives it the type and drops the values it had; `remove_option` frees it. Names are
stored with underscores, and a dash and an underscore are the same where names are compared
(`sameName_iff`), so the list is a map from names with underscores to types and values
(`options_follow`), whatever is set and removed.

No allocation fails. A name or a value may be `NULL`, which is `none`.
-/

set_option autoImplicit false

namespace TokuQa.Sysbench.Options

open TokuQa.Lib TokuQa.Sysbench.ReadConfig

/-- `sb_arg_type_t`. -/
inductive SbArgType where
  | null
  | flag
  | int
  | size
  | float
  | string
  | list
deriving DecidableEq

/-- `option_t`, with its type. -/
structure SbOption extends Opt where
  type : SbArgType
deriving DecidableEq

/-- The string `on`. -/
def on : List UInt8 := [111, 110]

/-! ## The functions -/

/-- A call of `strtok`: the next token, and where the call after it goes on. -/
def strtok (s : List UInt8) : Option (List UInt8 × List UInt8) :=
  match s.dropWhile (· = valueSeparator) with
  | [] => none
  | found => some (found.takeWhile (· ≠ valueSeparator),
      (found.dropWhile (· ≠ valueSeparator)).drop 1)

/-- The loop over the tokens. A token has a byte, so the length of the string is fuel enough. -/
def tokens : Nat → List UInt8 → List (List UInt8)
  | 0, _ => []
  | fuel + 1, s =>
    match strtok s with
    | none => []
    | some (token, rest) => token :: tokens fuel rest

/-- `find_option`. -/
def findOption (options : List SbOption) (name : List UInt8) : Option SbOption :=
  options.find? fun opt => sameName opt.name name

/-- `add_option`: the options, and the place of the one with the name. -/
def addOption (options : List SbOption) (name : List UInt8) : List SbOption × Nat :=
  match options.findIdx? fun opt => sameName opt.name name with
  | some place => (options, place)
  | none =>
    (options ++ [{ name := convertDashes name, values := [], type := .null }], options.length)

/-- What `set_option` returns and prints, and the values it adds. -/
def newValues (type : SbArgType) (value : Option CString) : (Int × String) × List (List UInt8) :=
  let value := value.map CString.bytes
  if type ≠ .flag ∧ (value = none ∨ value = some []) then ((0, ""), [])
  else match type with
    | .flag => ((0, ""), if value = none ∨ value = some on then [on] else [])
    | .int | .size | .float | .string => ((0, ""), value.toList)
    | .list => ((0, ""), tokens (value.getD []).length (value.getD []))
    | .null => ((1, "Unknown argument type: 0"), [])

def setOption (name value : Option CString) (type : SbArgType) (options : List SbOption) :
    (Int × String) × List SbOption :=
  match name with
  | none => ((1, ""), options)
  | some name =>
    let (options, place) := addOption options name.bytes
    let (result, values) := newValues type value
    (result, options.modify place fun opt => { opt with type, values })

def removeOption (optname : Option CString) (options : List SbOption) :
    (Int × String) × List SbOption :=
  match optname with
  | none => ((1, ""), options)
  | some optname =>
    if (findOption options optname.bytes).isNone then ((1, ""), options)
    else ((0, ""), options.eraseP fun opt => sameName opt.name optname.bytes)

inductive Call where
  | set (name value : Option CString) (type : SbArgType)
  | remove (optname : Option CString)

def step (call : Call) (options : List SbOption) : (Int × String) × List SbOption :=
  match call with
  | .set name value type => setOption name value type options
  | .remove optname => removeOption optname options

/-! ## The map -/

/-- The values of an option of a type: a flag is on or not, a list has the tokens between the
commas that are not empty, and all others have one value, or none. -/
def valuesOf : SbArgType → Option CString → List (List UInt8)
  | .null, _ => []
  | .flag, none => [on]
  | .flag, some value => if value.bytes = on then [on] else []
  | _, none => []
  | .list, some value => (value.bytes.splitOn valueSeparator).filter (· ≠ [])
  | _, some value => if value.bytes = [] then [] else [value.bytes]

/-- The name a call is about. -/
def Call.key : Call → Option (List UInt8)
  | .set name _ _ => name.map fun name => convertDashes name.bytes
  | .remove optname => optname.map fun name => convertDashes name.bytes

/-- What a call leaves under its name. -/
def Call.entry : Call → Option (SbArgType × List (List UInt8))
  | .set _ value type => some (type, valuesOf type value)
  | .remove _ => none

/-- What the last call about the name left. -/
def lastEntry (calls : List Call) (key : List UInt8) : Option (SbArgType × List (List UInt8)) :=
  (calls.reverse.find? fun call => call.key = some key).bind Call.entry

/-! ## Tokens -/

theorem splitOn_separators (s : List UInt8) :
    (s.splitOn valueSeparator).filter (· ≠ []) =
      ((s.dropWhile (· = valueSeparator)).splitOn valueSeparator).filter (· ≠ []) := by
  induction s with
  | nil => rfl
  | cons c s ih =>
    by_cases hc : c = valueSeparator
    · subst hc
      have hsplit : (valueSeparator :: s).splitOn valueSeparator = [] :: s.splitOn valueSeparator :=
        List.splitOn_append_cons_self [] s
      rw [hsplit, List.filter_cons_of_neg (by simp), ih, List.dropWhile_cons_of_pos (by simp)]
    · rw [List.dropWhile_cons_of_neg (by simpa using hc)]

/-- **The loop finds all tokens.** -/
theorem tokens_eq {fuel : Nat} {s : List UInt8} (h : s.length ≤ fuel) :
    tokens fuel s = (s.splitOn valueSeparator).filter (· ≠ []) := by
  induction fuel generalizing s with
  | zero =>
    rw [List.length_eq_zero_iff.mp (Nat.le_zero.mp h)]
    rfl
  | succ fuel ih =>
    rw [splitOn_separators, tokens, strtok]
    have hlength := (List.dropWhile_suffix (l := s) fun b => decide (b = valueSeparator)).length_le
    cases hfound : s.dropWhile (· = valueSeparator) with
    | nil => rfl
    | cons c found =>
      have hc : c ≠ valueSeparator := by
        have hhead := List.head_dropWhile_not (fun b => decide (b = valueSeparator)) (l := s)
          (by rw [hfound]; simp)
        simpa [hfound] using hhead
      rw [hfound, List.length_cons] at hlength
      dsimp only
      cases hrest : (c :: found).dropWhile (· ≠ valueSeparator) with
      | nil =>
        have hnone := dropWhile_ne_eq_nil_iff.mp hrest
        have htoken : (c :: found).takeWhile (· ≠ valueSeparator) = c :: found := by
          have hsplit := List.takeWhile_append_dropWhile (p := fun b => decide (b ≠ valueSeparator))
            (l := c :: found)
          rw [hrest, List.append_nil] at hsplit
          exact hsplit
        rw [htoken, List.splitOn_eq_singleton hnone, ih (by simp)]
        simp
      | cons d rest =>
        obtain ⟨rfl, htoken, hsplit⟩ := split_of_dropWhile hrest
        have hne : (c :: found).takeWhile (· ≠ valueSeparator) ≠ [] := by
          rw [List.takeWhile_cons_of_pos (by simpa using hc)]
          simp
        have hshort : rest.length ≤ fuel := by
          have hlengths := congrArg List.length hsplit
          rw [List.length_append, List.length_cons, List.length_cons] at hlengths
          have hpos := List.length_pos_iff.mpr hne
          omega
        have hwhole : (c :: found).splitOn valueSeparator =
            (c :: found).takeWhile (· ≠ valueSeparator) :: rest.splitOn valueSeparator := by
          conv_lhs => rw [hsplit]
          exact List.splitOn_append_cons_self_of_not_mem htoken rest
        rw [hwhole, List.filter_cons_of_pos (by simpa using hne), List.drop_one, List.tail_cons,
          ih hshort]

theorem newValues_snd (type : SbArgType) (value : Option CString) :
    (newValues type value).2 = valuesOf type value := by
  cases value with
  | none => cases type <;> rfl
  | some value =>
    by_cases hempty : value.bytes = []
    · cases type <;> simp [newValues, valuesOf, hempty, on]
    · cases type with
      | list =>
        rw [newValues, if_neg (by simp [hempty])]
        exact tokens_eq (le_refl _)
      | _ => simp [newValues, valuesOf, hempty]

/-! ## Names -/

/-- **Names are compared up to dashes.** -/
theorem sameName_iff {s t : List UInt8} : sameName s t = true ↔ convertDashes s = convertDashes t := by
  induction s generalizing t with
  | nil =>
    cases t with
    | nil => simp [sameName, convertDashes]
    | cons d t => simp [sameName, convertDashes]
  | cons c s ih =>
    cases t with
    | nil => simp [sameName, convertDashes]
    | cons d t =>
      have hhead : (decide (c = d) || (isDash c && isDash d)) = true ↔
          (if c = 45 then (95 : UInt8) else c) = if d = 45 then 95 else d := by
        by_cases hc : c = 45
        · by_cases hd : d = 45
          · simp [hc, hd]
          · simp [hc, hd, isDash, Ne.symm hd, eq_comm]
        · by_cases hd : d = 45
          · simp [hc, hd, isDash]
          · simp only [hc, hd, isDash, if_false, decide_false, Bool.false_or, Bool.or_eq_true,
              Bool.and_eq_true, decide_eq_true_eq]
            exact ⟨fun h => h.elim id fun h => h.1.trans h.2.symm, Or.inl⟩
      rw [sameName, Bool.and_eq_true, ih, hhead]
      simp [convertDashes]

/-- The key of an option. -/
def SbOption.key (opt : SbOption) : List UInt8 := convertDashes opt.name

theorem key_new (name : List UInt8) :
    SbOption.key { name := convertDashes name, values := [], type := .null } =
      convertDashes name :=
  convertDashes_convertDashes name

theorem sameName_eq_key (name : List UInt8) :
    (fun opt : SbOption => sameName opt.name name) =
      fun opt => decide (opt.key = convertDashes name) := by
  funext opt
  rw [Bool.eq_iff_iff, sameName_iff, decide_eq_true_eq]
  rfl

theorem findOption_eq (options : List SbOption) (name : List UInt8) :
    findOption options name = findKey SbOption.key (convertDashes name) options := by
  rw [findOption, sameName_eq_key, findKey]

/-! ## The calls -/

section

variable {options : List SbOption} {name : CString}

/-- `set_option` writes to the map. -/
theorem setOption_snd (value : Option CString) (type : SbArgType) :
    (setOption (some name) value type options).2 =
      upsert SbOption.key (convertDashes name.bytes)
        (fun opt => { opt with type, values := valuesOf type value })
        { name := convertDashes name.bytes, values := [], type := .null } options := by
  unfold setOption addOption upsert
  dsimp only
  rw [← newValues_snd, sameName_eq_key]
  cases options.findIdx? fun opt => decide (opt.key = convertDashes name.bytes) with
  | none =>
    rw [List.modify_eq_take_cons_drop (by simp)]
    simp
  | some place => rfl

/-- `remove_option` takes out of it. -/
theorem removeOption_snd :
    (removeOption (some name) options).2 =
      eraseKey SbOption.key (convertDashes name.bytes) options := by
  unfold removeOption findOption eraseKey
  dsimp only
  rw [sameName_eq_key]
  split
  · rename_i hnone
    rw [Option.isNone_iff_eq_none, List.find?_eq_none] at hnone
    exact (List.eraseP_of_forall_not hnone).symm
  · rfl

theorem step_nodup (h : (options.map SbOption.key).Nodup) (call : Call) :
    ((step call options).2.map SbOption.key).Nodup := by
  cases call with
  | set name value type =>
    cases name with
    | none => exact h
    | some name =>
      rw [step, setOption_snd]
      exact nodup_upsert (fun _ => rfl) (key_new _) h
  | remove name =>
    cases name with
    | none => exact h
    | some name =>
      rw [step, removeOption_snd]
      exact nodup_eraseKey h

/-- **One call** changes what is found under its name, to its entry. -/
theorem step_entry (h : (options.map SbOption.key).Nodup) (call : Call) (key : List UInt8) :
    ((findKey SbOption.key key (step call options).2).map fun opt => (opt.type, opt.values)) =
      if call.key = some key then call.entry
      else (findKey SbOption.key key options).map fun opt => (opt.type, opt.values) := by
  cases call with
  | set name value type =>
    cases name with
    | none => rfl
    | some name =>
      rw [step, setOption_snd, findKey_upsert (f := fun opt : SbOption =>
        { opt with type, values := valuesOf type value }) (fun _ => rfl) (key_new name.bytes)]
      by_cases hkey : key = convertDashes name.bytes
      · simp [Call.key, Call.entry, hkey]
      · simp [Call.key, hkey, Ne.symm hkey]
  | remove name =>
    cases name with
    | none => rfl
    | some name =>
      rw [step, removeOption_snd, findKey_eraseKey h]
      by_cases hkey : key = convertDashes name.bytes
      · simp [Call.key, Call.entry, hkey]
      · simp [Call.key, hkey, Ne.symm hkey]

end

theorem answers_nodup (calls : List Call) {options : List SbOption}
    (h : (options.map SbOption.key).Nodup) :
    ((answers step calls options).2.map SbOption.key).Nodup := by
  induction calls generalizing options with
  | nil => exact h
  | cons call calls ih => exact ih (step_nodup h call)

/-- What is found after some calls is what the last one about the name left, or what was there
before all of them. -/
theorem answers_entry (calls : List Call) {options : List SbOption}
    (h : (options.map SbOption.key).Nodup) (key : List UInt8) :
    ((findKey SbOption.key key (answers step calls options).2).map
        fun opt => (opt.type, opt.values)) =
      match calls.reverse.find? fun call => call.key = some key with
      | some call => call.entry
      | none => (findKey SbOption.key key options).map fun opt => (opt.type, opt.values) := by
  induction calls generalizing options with
  | nil => rfl
  | cons call calls ih =>
    rw [answers, ih (step_nodup h call), step_entry h, List.reverse_cons, List.find?_append]
    cases calls.reverse.find? fun call => call.key = some key with
    | some last => rfl
    | none =>
      by_cases hkey : call.key = some key
      · simp [hkey]
      · simp [hkey]

/-- **The option table is a map up to dashes**, after any calls: no two options have names that
agree with underscores for the dashes; and under any spelling of a name the option is found
that was set last, with the type and the values of that call, or none if none is left. -/
theorem options_follow (calls : List Call) :
    ((answers step calls []).2.map fun opt => convertDashes opt.name).Nodup ∧
      ∀ name, ((findOption (answers step calls []).2 name).map
        fun opt => (opt.type, opt.values)) = lastEntry calls (convertDashes name) := by
  have hempty : (([] : List SbOption).map SbOption.key).Nodup := List.nodup_nil
  refine ⟨answers_nodup calls hempty, fun name => ?_⟩
  rw [findOption_eq, answers_entry calls hempty, lastEntry]
  cases calls.reverse.find? fun call => call.key = some (convertDashes name) with
  | some call => rfl
  | none => rfl

/-- The strings `a`, `off` and `yes`. -/
def nameA : CString := ⟨[97], by decide⟩

def valueOff : CString := ⟨[111, 102, 102], by decide⟩

def valueYes : CString := ⟨[121, 101, 115], by decide⟩

/-- A string `off` is a value like any other, and a flag `yes` is off. -/
theorem off_is_a_value :
    ((findOption (answers step [.set (some nameA) (some valueOff) .string] []).2 [97]).map
        fun opt => opt.values) = some [[111, 102, 102]] ∧
      ((findOption (answers step [.set (some nameA) (some valueYes) .flag] []).2 [97]).map
        fun opt => opt.values) = some [] := by
  decide

end TokuQa.Sysbench.Options
