import TokuQa.Sysbench.ReadConfig

/-!
# `write_config` of `sb_options.c`, read back

An option is written as its name, a space, the equals sign, a space, and its values with commas
between them. `read_config` takes all of a line before the equals sign for the name, so the
space becomes part of it: whatever is written, the first option that is read back has a name
that ends in a space, or an empty one if `fgets` cuts the line there. No option list comes back
but the empty one (`roundTrips_iff`).

A file is its bytes. `fgets` returns them up to the next newline, but no more than there is room
for in the buffer.
-/

set_option autoImplicit false

namespace TokuQa.Sysbench.WriteConfig

open TokuQa.Lib TokuQa.Sysbench.ReadConfig

/-- `value_t`. -/
structure Value where
  data : Option CString
  ignore : Bool
deriving DecidableEq

/-- `option_t`, with what `write_config` looks at. -/
structure ConfigOption where
  name : Option CString
  values : List Value
  ignore : Bool
deriving DecidableEq

/-- `MAXSTRLEN`. -/
def maxStrLen : Nat := 256

def newline : UInt8 := 10

def blank : UInt8 := 32

/-! ## Writing -/

/-- The loop over the values of an option. -/
def writeValues : List Value → List UInt8
  | [] => []
  | val :: values =>
    let data := if val.ignore then [] else (val.data.map CString.bytes).getD []
    data ++ (if values.isEmpty then [] else [valueSeparator, blank]) ++ writeValues values

/-- `write_config`: the file, and the options, which are ignored from then on. -/
def writeConfig : List ConfigOption → List UInt8 × List ConfigOption
  | [] => ([], [])
  | opt :: options =>
    let (file, rest) := writeConfig options
    match opt.name, opt.ignore with
    | some name, false =>
      (name.bytes ++ [blank, valueDelimiter, blank] ++ writeValues opt.values ++ [newline] ++ file,
        { opt with ignore := true } :: rest)
    | _, _ => (file, opt :: rest)

/-! ## Reading -/

/-- What `fgets` reads of a file: up to a newline, and less than the size of the buffer. -/
def fgets : Nat → List UInt8 → List UInt8 × List UInt8
  | 0, file => ([], file)
  | _ + 1, [] => ([], [])
  | room + 1, c :: file =>
    if c = newline then ([c], file)
    else
      let (line, rest) := fgets room file
      (c :: line, rest)

/-- The string in a buffer: a byte zero ends it. -/
def bufferString (line : List UInt8) : CString :=
  ⟨stringAt line, fun h => by
    have hne := List.mem_takeWhile_imp h
    simp at hne⟩

theorem length_fgets (room : Nat) (file : List UInt8) :
    (fgets room file).1.length + (fgets room file).2.length = file.length := by
  induction room generalizing file with
  | zero => simp [fgets]
  | succ room ih =>
    cases file with
    | nil => rfl
    | cons c file =>
      rw [fgets]
      split
      · simp [Nat.add_comm]
      · simp only [List.length_cons]
        have := ih file
        omega

/-- All lines of a file. -/
def lines (file : List UInt8) : List CString :=
  match file with
  | [] => []
  | c :: file =>
    have : (fgets (maxStrLen - 1) (c :: file)).2.length < (c :: file).length := by
      have hlength := length_fgets (maxStrLen - 1) (c :: file)
      have hpos : 0 < (fgets (maxStrLen - 1) (c :: file)).1.length := by
        rw [show maxStrLen - 1 = 254 + 1 from rfl, fgets]
        split <;> simp
      omega
    bufferString (fgets (maxStrLen - 1) (c :: file)).1 :: lines (fgets (maxStrLen - 1) (c :: file)).2
termination_by file.length
decreasing_by exact this

/-! ## There and back -/

/-- The option lists the functions are for: names that have a byte and neither a delimiter nor
white space in them, no two of them the same, and values of one line. -/
structure Writable (options : List ConfigOption) : Prop where
  names : ∀ opt ∈ options, ∃ name, opt.name = some name ∧ name.bytes ≠ [] ∧
    ∀ c ∈ name.bytes, c ≠ valueDelimiter ∧ isspace c = false
  distinct : (options.map fun opt => opt.name.map fun name => convertDashes name.bytes).Nodup
  values : ∀ opt ∈ options, ∀ val ∈ opt.values, ∀ data, val.data = some data →
    newline ∉ data.bytes

/-- The options that are written are read back: their names, up to dashes, in order, and the
values of each. -/
def RoundTrips (options : List ConfigOption) : Prop :=
  ∃ fuel read, readConfig fuel (lines (writeConfig options).1) 0 [] = some (.ok read) ∧
    read.map (fun opt => some (convertDashes opt.name)) =
      options.map (fun opt => opt.name.map fun name => convertDashes name.bytes) ∧
    read.map (fun opt => opt.values.map some) =
      options.map fun opt => opt.values.map fun val => val.data.map CString.bytes

/-! ## Lines -/

section

variable {before file : List UInt8}

/-- What is behind a text without a newline goes to the same line, as far as there is room. -/
theorem fgets_append (hline : newline ∉ before) {room : Nat} (hroom : before.length ≤ room) :
    fgets room (before ++ file) =
      (before ++ (fgets (room - before.length) file).1, (fgets (room - before.length) file).2) := by
  induction before generalizing room with
  | nil => rfl
  | cons c before ih =>
    have hc : c ≠ newline := fun h => hline (h ▸ List.mem_cons_self)
    have hbefore : newline ∉ before := fun h => hline (List.mem_cons_of_mem _ h)
    cases room with
    | zero => cases hroom
    | succ room =>
      rw [List.cons_append, fgets, if_neg hc, ih hbefore (Nat.le_of_succ_le_succ hroom)]
      simp only [List.length_cons, Nat.add_sub_add_right, List.cons_append]

theorem lines_of_ne_nil (hfile : file ≠ []) : lines file =
    bufferString (fgets (maxStrLen - 1) file).1 :: lines (fgets (maxStrLen - 1) file).2 := by
  cases file with
  | nil => exact absurd rfl hfile
  | cons c file => rw [lines]

/-- The string of a line that begins with a text without zeros. -/
theorem bytes_bufferString (hzero : 0 ∉ before) (file : List UInt8) :
    (bufferString (before ++ file)).bytes = before ++ stringAt file := by
  have hall : ∀ b ∈ before, (decide (b ≠ 0)) = true := by
    intro b hb
    exact decide_eq_true fun h => hzero (h ▸ hb)
  exact List.takeWhile_append_of_pos hall

end

/-! ## What is read first -/

/-- Options that are there stay, under their names. -/
theorem addOption_cons (opt : Opt) (options : List Opt) (name : List UInt8) :
    ∃ rest place, addOption (opt :: options) name = (opt :: rest, place) := by
  unfold addOption
  split
  · exact ⟨options, _, rfl⟩
  · exact ⟨_, _, rfl⟩

theorem foldl_addValue_cons (opt : Opt) (options : List Opt) (place : Nat)
    (values : List (List UInt8)) : ∃ opt' rest,
      values.foldl (addValue place) (opt :: options) = opt' :: rest ∧ opt'.name = opt.name := by
  induction values generalizing opt options with
  | nil => exact ⟨opt, options, rfl, rfl⟩
  | cons value values ih =>
    cases place with
    | zero => exact ih { opt with values := opt.values ++ [value] } options
    | succ place => exact ih opt (addValue place options value)

section

variable {fuel nline : Nat} {read : List Opt}

theorem readConfig_cons {opt : Opt} {options : List Opt} {lines : List CString}
    (h : readConfig fuel lines nline (opt :: options) = some (.ok read)) :
    ∃ opt' rest, read = opt' :: rest ∧ opt'.name = opt.name := by
  induction lines generalizing nline opt options with
  | nil =>
    cases h
    exact ⟨opt, options, rfl, rfl⟩
  | cons line lines ih =>
    unfold readConfig at h
    cases hfound : strchr line.bytes valueDelimiter with
    | none =>
      simp only [hfound] at h
      exact ih h
    | some found =>
      simp only [hfound] at h
      obtain ⟨⟨values, closed⟩, -, hrest⟩ := Option.bind_eq_some_iff.mp h
      obtain ⟨rest, place, hadd⟩ :=
        addOption_cons opt options (line.bytes.takeWhile (· ≠ valueDelimiter))
      rw [hadd] at hrest
      obtain ⟨opt₁, rest₁, hvalues, hname⟩ := foldl_addValue_cons opt rest place values
      dsimp only at hrest
      rw [hvalues] at hrest
      cases closed with
      | true =>
        obtain ⟨opt', rest', hread, hname'⟩ := ih hrest
        exact ⟨opt', rest', hread, hname'.trans hname⟩
      | false => cases hrest

/-- A line with an equals sign, the first that has one. -/
theorem readConfig_delimiter {before after : List UInt8} {line : CString} {rest : List CString}
    (hbefore : valueDelimiter ∉ before) (hline : line.bytes = before ++ valueDelimiter :: after)
    (h : readConfig fuel (line :: rest) nline [] = some (.ok read)) :
    ∃ opt rest', read = opt :: rest' ∧ opt.name = convertDashes before := by
  have hdrop : (before ++ valueDelimiter :: after).dropWhile (· ≠ valueDelimiter) =
      valueDelimiter :: after := dropWhile_ne_append hbefore
  have htake : (before ++ valueDelimiter :: after).takeWhile (· ≠ valueDelimiter) = before := by
    have hall : ∀ b ∈ before, (decide (b ≠ valueDelimiter)) = true := by
      intro b hb
      exact decide_eq_true fun hb' => hbefore (hb' ▸ hb)
    rw [List.takeWhile_append_of_pos hall, List.takeWhile_cons_of_neg (by simp), List.append_nil]
  have hfound : strchr (before ++ valueDelimiter :: after) valueDelimiter =
      some (valueDelimiter :: after) := by
    rw [strchr, hdrop]
  unfold readConfig at h
  simp only [hline, hfound, htake] at h
  obtain ⟨⟨values, closed⟩, -, hrest⟩ := Option.bind_eq_some_iff.mp h
  obtain ⟨opt, rest₁, hvalues, hname⟩ :=
    foldl_addValue_cons ⟨convertDashes before, []⟩ [] 0 values
  have hadd : addOption [] before = ([⟨convertDashes before, []⟩], 0) := rfl
  rw [hadd] at hrest
  dsimp only at hrest
  rw [hvalues] at hrest
  cases closed with
  | true =>
    obtain ⟨opt', rest', hread, hname'⟩ := readConfig_cons hrest
    exact ⟨opt', rest', hread, hname'.trans hname⟩
  | false => cases hrest

/-- **The first name that is read** is what stands before the first equals sign of the file, or
what of it is on the same line. -/
theorem readConfig_first {before after : List UInt8} (hzero : 0 ∉ before)
    (hdelimiter : valueDelimiter ∉ before) (hline : newline ∉ before)
    (h : readConfig fuel (lines (before ++ valueDelimiter :: after)) nline [] =
      some (.ok read)) :
    ∃ opt rest name, read = opt :: rest ∧ opt.name = convertDashes name ∧ name <:+ before := by
  induction hlength : before.length using Nat.strong_induction_on generalizing before nline with
  | _ length ih =>
    subst hlength
    rw [lines_of_ne_nil (by simp)] at h
    by_cases hroom : before.length < maxStrLen - 1
    · obtain ⟨room, hleft⟩ : ∃ room, maxStrLen - 1 - before.length = room + 1 :=
        ⟨_, (Nat.succ_pred_eq_of_pos (Nat.sub_pos_of_lt hroom)).symm⟩
      rw [fgets_append hline hroom.le, hleft, fgets, if_neg (by decide)] at h
      obtain ⟨opt, rest, hread, hname⟩ := readConfig_delimiter hdelimiter
        ((bytes_bufferString hzero _).trans (congrArg (before ++ ·)
          (List.takeWhile_cons_of_pos (by decide)))) h
      exact ⟨opt, rest, before, hread, hname, List.suffix_refl before⟩
    · -- the line is full before the equals sign
      have hlong : (before.take (maxStrLen - 1)).length = maxStrLen - 1 :=
        List.length_take_of_le (Nat.le_of_not_lt hroom)
      have hsplit : before ++ valueDelimiter :: after =
          before.take (maxStrLen - 1) ++ (before.drop (maxStrLen - 1) ++ valueDelimiter :: after) := by
        rw [← List.append_assoc, List.take_append_drop]
      have hin : ∀ {c : UInt8}, c ∉ before → c ∉ before.take (maxStrLen - 1) :=
        fun hc hmem => hc (List.mem_of_mem_take hmem)
      have hbehind : ∀ {c : UInt8}, c ∉ before → c ∉ before.drop (maxStrLen - 1) :=
        fun hc hmem => hc (List.mem_of_mem_drop hmem)
      have hfgets : fgets (maxStrLen - 1) (before ++ valueDelimiter :: after) =
          (before.take (maxStrLen - 1), before.drop (maxStrLen - 1) ++ valueDelimiter :: after) := by
        rw [hsplit, fgets_append (hin hline) hlong.le, hlong, Nat.sub_self, fgets, List.append_nil]
      have hbytes : (bufferString (before.take (maxStrLen - 1))).bytes =
          before.take (maxStrLen - 1) := by
        have hstring := bytes_bufferString (hin hzero) []
        rw [List.append_nil] at hstring
        exact hstring.trans (List.append_nil _)
      have hnone : strchr (before.take (maxStrLen - 1)) valueDelimiter = none := by
        rw [strchr, dropWhile_ne_eq_nil_iff.mpr (hin hdelimiter)]
      rw [hfgets] at h
      unfold readConfig at h
      simp only [hbytes, hnone] at h
      have hshort : (before.drop (maxStrLen - 1)).length < before.length := by
        rw [List.length_drop]
        have hpos : 0 < maxStrLen - 1 := by decide
        omega
      obtain ⟨opt, rest, name, hread, hname, hsuffix⟩ := ih _ hshort (hbehind hzero)
        (hbehind hdelimiter) (hbehind hline) h rfl
      exact ⟨opt, rest, name, hread, hname, hsuffix.trans (List.drop_suffix _ _)⟩

end

/-! ## The option lists that come back -/

/-- A file that is written begins with a name and a space, or it is empty. -/
theorem writeConfig_cases (options : List ConfigOption) :
    (writeConfig options).1 = [] ∨ ∃ opt ∈ options, ∃ name after, opt.name = some name ∧
      (writeConfig options).1 = name.bytes ++ [blank] ++ valueDelimiter :: after := by
  induction options with
  | nil => exact Or.inl rfl
  | cons opt options ih =>
    have hskip : (writeConfig options).1 = [] ∨ ∃ opt' ∈ opt :: options, ∃ name after,
        opt'.name = some name ∧
          (writeConfig options).1 = name.bytes ++ [blank] ++ valueDelimiter :: after := by
      rcases ih with hnil | ⟨opt', hopt', hrest⟩
      · exact Or.inl hnil
      · exact Or.inr ⟨opt', List.mem_cons_of_mem _ hopt', hrest⟩
    unfold writeConfig
    cases hname : opt.name with
    | none => exact hskip
    | some name =>
      cases opt.ignore with
      | true => exact hskip
      | false =>
        refine Or.inr ⟨opt, List.mem_cons_self, name,
          blank :: (writeValues opt.values ++ [newline] ++ (writeConfig options).1), hname, ?_⟩
        simp only [List.append_assoc, List.cons_append, List.nil_append]

/-- No name without white space is, up to dashes, the end of one with a space behind it. -/
theorem convertDashes_ne {name name' before : List UInt8} (hne : name ≠ [])
    (hspace : ∀ c ∈ name, isspace c = false) (hsuffix : name' <:+ before ++ [blank]) :
    convertDashes name' ≠ convertDashes name := by
  intro he
  have hlength := congrArg List.length he
  simp only [convertDashes, List.length_map] at hlength
  have hne' : name' ≠ [] := fun hnil => hne (List.length_eq_zero_iff.mp (by simp [← hlength, hnil]))
  obtain ⟨front, hfront⟩ := hsuffix
  have hlast : name'.getLast hne' = blank := by
    have hwhole : (front ++ name').getLast (by simp [hne']) = blank := by simp [hfront]
    rwa [List.getLast_append_of_ne_nil _ hne'] at hwhole
  have hblank : (blank : UInt8) ∈ convertDashes name := by
    rw [← he]
    exact List.mem_map.mpr ⟨blank, hlast ▸ List.getLast_mem hne', by decide⟩
  obtain ⟨c, hc, hconverted⟩ := List.mem_map.mp hblank
  have hnot := hspace c hc
  by_cases hdash : c = 45
  · rw [if_pos hdash] at hconverted
    cases hconverted
  · rw [if_neg hdash] at hconverted
    rw [hconverted] at hnot
    cases hnot

theorem eq_nil_of_roundTrips {options : List ConfigOption} (h : Writable options)
    (hback : RoundTrips options) : options = [] := by
  obtain ⟨fuel, read, hread, hnames, -⟩ := hback
  cases options with
  | nil => rfl
  | cons opt options =>
    exfalso
    obtain ⟨first, hfirst, hne, hplain⟩ := h.names opt List.mem_cons_self
    rcases writeConfig_cases (opt :: options) with hnil | ⟨opt', hopt', name, after, hname, hfile⟩
    · rw [hnil, lines] at hread
      cases hread
      cases hnames
    · obtain ⟨name', hname', -, hplain'⟩ := h.names opt' hopt'
      rw [hname] at hname'
      cases hname'
      have hclean : ∀ {c : UInt8}, c ≠ blank → c ∉ name.bytes → c ∉ name.bytes ++ [blank] := by
        intro c hc hmem hin
        rcases List.mem_append.mp hin with hin | hin
        · exact hmem hin
        · exact hc (List.mem_singleton.mp hin)
      rw [hfile] at hread
      obtain ⟨read₁, rest, before, rfl, hread₁, hsuffix⟩ := readConfig_first
        (hclean (by decide) name.nonzero)
        (hclean (by decide) fun hin => (hplain' _ hin).1 rfl)
        (hclean (by decide) fun hin => by cases (hplain' _ hin).2) hread
      rw [List.map_cons, List.map_cons, List.cons.injEq, hfirst, hread₁] at hnames
      simp only [Option.map_some, Option.some.injEq, convertDashes_convertDashes] at hnames
      exact convertDashes_ne hne (fun c hc => (hplain c hc).2) hsuffix hnames.1

/-- **Option lists come back** from a file exactly if there are no options in them. -/
theorem roundTrips_iff {options : List ConfigOption} (h : Writable options) :
    RoundTrips options ↔ options = [] := by
  refine ⟨eq_nil_of_roundTrips h, ?_⟩
  rintro rfl
  exact ⟨0, [], by rw [writeConfig, lines, readConfig], rfl, rfl⟩

theorem zero_notMem_a : (0 : UInt8) ∉ [97] := by decide

/-- The option `a`, without values. -/
def optionA : ConfigOption := ⟨some ⟨[97], zero_notMem_a⟩, [], false⟩

theorem writable_optionA : Writable [optionA] := by
  refine ⟨fun opt hopt => ?_, by decide, fun opt hopt val hval => ?_⟩
  · rw [List.mem_singleton.mp hopt]
    refine ⟨⟨[97], zero_notMem_a⟩, rfl, by decide, fun c hc => ?_⟩
    rw [List.mem_singleton.mp hc]
    decide
  · rw [List.mem_singleton.mp hopt] at hval
    cases hval

theorem roundTrips_optionA : RoundTrips [optionA] ↔ [optionA] = [] :=
  roundTrips_iff writable_optionA

/-- It is written, and does not come back. -/
theorem optionA_lost : Writable [optionA] ∧ ¬ RoundTrips [optionA] :=
  ⟨writable_optionA, fun h => by cases eq_nil_of_roundTrips writable_optionA h⟩

end TokuQa.Sysbench.WriteConfig
