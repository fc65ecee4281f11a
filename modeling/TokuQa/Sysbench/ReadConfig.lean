import Mathlib.Data.List.TakeWhile
import Mathlib.Tactic.Common
import TokuQa.Lib.CString

/-!
# `read_config` of `sb_options.c`

A line is the name of an option, `=`, and values with commas between them. The loop over the
values looks at the first byte that is left of the line: white space is skipped, `#` ends the
line, and a quoted value is read up to its closing quote and the line goes on behind the next
comma. A value without quotes is read up to the comma, which becomes the end of the string, and
the loop goes on where it was: it reads that value again for ever (`bare_diverges`). Only a
comma where a value should be ends the line.

`Scannable` says which texts the loop gets through, without reference to it, and
`readConfig_terminates_iff` that `read_config` returns exactly if it gets through all lines up
to the first that ends in a quote.

A loop that may not end takes `fuel`, and returns `none` if that does not suffice. The state of
the loop is the string at `tmp`. Lines are what `fgets` returns, in order; white space is that
of the C locale, and no allocation fails.
-/

set_option autoImplicit false

namespace TokuQa.Sysbench.ReadConfig

open TokuQa.Lib

/-- `VALUE_DELIMITER`, an equals sign. -/
def valueDelimiter : UInt8 := 61

/-- `VALUE_SEPARATOR`, a comma. -/
def valueSeparator : UInt8 := 44

/-- `COMMENT_CHAR`, a number sign. -/
def commentChar : UInt8 := 35

/-- An apostrophe or a quotation mark. -/
def isQuote (c : UInt8) : Bool := c = 39 || c = 34

def isspace (c : UInt8) : Bool := c = 32 || (9 ≤ c && c ≤ 13)

/-- `option_t`. -/
structure Opt where
  name : List UInt8
  values : List (List UInt8)
deriving DecidableEq

/-- A dash or an underscore. -/
def isDash (c : UInt8) : Bool := c = 45 || c = 95

/-- `opt_name_cmp` returns zero. -/
def sameName : List UInt8 → List UInt8 → Bool
  | [], [] => true
  | c :: s, d :: t => (c = d || (isDash c && isDash d)) && sameName s t
  | _, _ => false

/-- `convert_dashes`. -/
def convertDashes (s : List UInt8) : List UInt8 := s.map fun c => if c = 45 then 95 else c

@[simp] theorem convertDashes_convertDashes (s : List UInt8) :
    convertDashes (convertDashes s) = convertDashes s := by
  unfold convertDashes
  rw [List.map_map]
  refine List.map_congr_left fun c _ => ?_
  by_cases hc : c = 45
  · simp [hc]
  · simp [hc]

/-- `add_option`: the options, and the place of the one with the name. -/
def addOption (options : List Opt) (name : List UInt8) : List Opt × Nat :=
  match options.findIdx? fun opt => sameName opt.name name with
  | some place => (options, place)
  | none => (options ++ [⟨convertDashes name, []⟩], options.length)

/-- `add_value`, to the option at a place. -/
def addValue (place : Nat) (options : List Opt) (value : List UInt8) : List Opt :=
  options.modify place fun opt => { opt with values := opt.values ++ [value] }

/-- `strchr`. -/
def strchr (s : List UInt8) (c : UInt8) : Option (List UInt8) :=
  match s.dropWhile (· ≠ c) with
  | [] => none
  | found => some found

/-- The loop over a line: the values it adds, and whether all quotes are closed. -/
def scan : Nat → List UInt8 → Option (List (List UInt8) × Bool)
  | 0, _ => none
  | _ + 1, [] => some ([], true)
  | fuel + 1, c :: tmp =>
    if isspace c then scan fuel tmp
    else if c = commentChar then some ([], true)
    else if isQuote c then
      match tmp.dropWhile (· ≠ c) with
      | [] => some ([], false)
      | _ :: behind =>
        (scan fuel ((behind.dropWhile (· ≠ valueSeparator)).drop 1)).map fun (values, closed) =>
          (tmp.takeWhile (· ≠ c) :: values, closed)
    else
      -- the comma has become the end of the string, and `tmp` is where it was
      let value := (c :: tmp).takeWhile (· ≠ valueSeparator)
      (scan fuel value).map fun (values, closed) => (value :: values, closed)

/-- The loop over the lines; `nline` of them have been read. An error is what is written to
`stderr`. -/
def readConfig (fuel : Nat) : List CString → Nat → List Opt → Option (Except String (List Opt))
  | [], _, options => some (.ok options)
  | line :: lines, nline, options =>
    match strchr line.bytes valueDelimiter with
    | none => readConfig fuel lines (nline + 1) options
    | some found =>
      let (options, place) := addOption options (line.bytes.takeWhile (· ≠ valueDelimiter))
      (scan fuel (found.drop 1)).bind fun (values, closed) =>
        let options := values.foldl (addValue place) options
        if closed then readConfig fuel lines (nline + 1) options
        else some (.error ("unexpected EOL on line " ++ toString (nline + 1)))

/-! ## What the loop gets through -/

/-- **The texts behind an equals sign** that have an end, and whether all their quotes are
closed: quoted values, up to the end, a comment, a comma where a value should be, or a quote
that is not closed. -/
inductive Scannable : Bool → List UInt8 → Prop where
  | nil : Scannable true []
  | space {closed : Bool} {c : UInt8} {text : List UInt8} (hc : isspace c = true)
      (htext : Scannable closed text) : Scannable closed (c :: text)
  | comment (text : List UInt8) : Scannable true (commentChar :: text)
  | comma (text : List UInt8) : Scannable true (valueSeparator :: text)
  | unclosed {q : UInt8} {text : List UInt8} (hq : isQuote q = true) (htext : q ∉ text) :
      Scannable false (q :: text)
  | last {q : UInt8} {value skipped : List UInt8} (hq : isQuote q = true) (hvalue : q ∉ value)
      (hskipped : valueSeparator ∉ skipped) : Scannable true (q :: (value ++ q :: skipped))
  | quoted {closed : Bool} {q : UInt8} {value skipped text : List UInt8}
      (hq : isQuote q = true) (hvalue : q ∉ value) (hskipped : valueSeparator ∉ skipped)
      (htext : Scannable closed text) :
      Scannable closed (q :: (value ++ q :: (skipped ++ valueSeparator :: text)))

/-- Files that are read to an end: the text of each line is scannable, up to the first line
that has a quote without an end. -/
def Readable : List CString → Prop
  | [] => True
  | line :: lines =>
    match strchr line.bytes valueDelimiter with
    | none => Readable lines
    | some found =>
      (Scannable true (found.drop 1) ∧ Readable lines) ∨ Scannable false (found.drop 1)

section

variable {c q : UInt8} {tmp : List UInt8}

theorem isQuote_cases (h : isQuote q = true) :
    isspace q = false ∧ q ≠ commentChar := by
  simp only [isQuote, Bool.or_eq_true, decide_eq_true_eq] at h
  rcases h with rfl | rfl
  · exact ⟨by decide, by decide⟩
  · exact ⟨by decide, by decide⟩

theorem dropWhile_ne_append {value rest : List UInt8} (hvalue : q ∉ value) :
    (value ++ q :: rest).dropWhile (· ≠ q) = q :: rest := by
  have hall : ∀ b ∈ value, (decide (b ≠ q)) = true := by
    intro b hb
    exact decide_eq_true fun hbq => hvalue (hbq ▸ hb)
  rw [List.dropWhile_append_of_pos hall, List.dropWhile_cons_of_neg (by simp)]

theorem dropWhile_ne_eq_nil_iff : tmp.dropWhile (· ≠ q) = [] ↔ q ∉ tmp := by
  rw [List.dropWhile_eq_nil_iff]
  refine ⟨fun h hq => ?_, fun h b hb => decide_eq_true fun hbq => h (hbq ▸ hb)⟩
  have hne := h q hq
  simp at hne

/-- A text with a byte in it, split at the first one. -/
theorem split_of_dropWhile {rest : List UInt8} (h : tmp.dropWhile (· ≠ q) = c :: rest) :
    c = q ∧ q ∉ tmp.takeWhile (· ≠ q) ∧ tmp = tmp.takeWhile (· ≠ q) ++ q :: rest := by
  have hc : c = q := by
    have hhead := List.head_dropWhile_not (fun b => decide (b ≠ q)) (l := tmp) (by rw [h]; simp)
    simp only [h, List.head_cons, decide_eq_false_iff_not, not_not] at hhead
    exact hhead
  have hsplit := List.takeWhile_append_dropWhile (p := fun b => decide (b ≠ q)) (l := tmp)
  rw [h, hc] at hsplit
  refine ⟨hc, fun hmem => ?_, hsplit.symm⟩
  have hne := List.mem_takeWhile_imp hmem
  simp at hne

/-! ## The loop -/

variable {fuel : Nat}

theorem scan_space (hc : isspace c = true) : scan (fuel + 1) (c :: tmp) = scan fuel tmp := by
  rw [scan, if_pos hc]

theorem scan_comment : scan (fuel + 1) (commentChar :: tmp) = some ([], true) := by
  have hspace : isspace commentChar = false := by decide
  rw [scan, hspace, if_neg Bool.false_ne_true, if_pos rfl]

theorem scan_unclosed (hq : isQuote q = true) (htmp : q ∉ tmp) :
    scan (fuel + 1) (q :: tmp) = some ([], false) := by
  obtain ⟨hspace, hcomment⟩ := isQuote_cases hq
  rw [scan, hspace, if_neg Bool.false_ne_true, if_neg hcomment, if_pos hq,
    dropWhile_ne_eq_nil_iff.mpr htmp]

theorem scan_quoted {value behind : List UInt8} (hq : isQuote q = true) (hvalue : q ∉ value) :
    scan (fuel + 1) (q :: (value ++ q :: behind)) =
      (scan fuel ((behind.dropWhile (· ≠ valueSeparator)).drop 1)).map fun (values, closed) =>
        ((value ++ q :: behind).takeWhile (· ≠ q) :: values, closed) := by
  obtain ⟨hspace, hcomment⟩ := isQuote_cases hq
  rw [scan, hspace, if_neg Bool.false_ne_true, if_neg hcomment, if_pos hq,
    dropWhile_ne_append hvalue]

theorem scan_unquoted (hspace : isspace c = false) (hcomment : c ≠ commentChar)
    (hquote : isQuote c = false) : scan (fuel + 1) (c :: tmp) =
      (scan fuel ((c :: tmp).takeWhile (· ≠ valueSeparator))).map fun (values, closed) =>
        ((c :: tmp).takeWhile (· ≠ valueSeparator) :: values, closed) := by
  rw [scan, hspace, if_neg Bool.false_ne_true, if_neg hcomment, hquote,
    if_neg Bool.false_ne_true]

/-- **A value without quotes** is never left behind. -/
theorem bare_diverges (hspace : isspace c = false) (hcomment : c ≠ commentChar)
    (hquote : isQuote c = false) (hcomma : c ≠ valueSeparator) (fuel : Nat) (tmp : List UInt8) :
    scan fuel (c :: tmp) = none := by
  induction fuel generalizing tmp with
  | zero => rfl
  | succ fuel ih =>
    have hvalue : (c :: tmp).takeWhile (· ≠ valueSeparator) =
        c :: tmp.takeWhile (· ≠ valueSeparator) :=
      List.takeWhile_cons_of_pos (decide_eq_true hcomma)
    rw [scan_unquoted hspace hcomment hquote, hvalue, ih]
    rfl

/-- The loop gets through a scannable text, with a step for each byte at most. -/
theorem scan_of_scannable {closed : Bool} {text : List UInt8} (h : Scannable closed text)
    (hfuel : text.length < fuel) : ∃ values, scan fuel text = some (values, closed) := by
  induction h generalizing fuel with
  | nil =>
    cases fuel with
    | zero => cases hfuel
    | succ fuel => exact ⟨[], rfl⟩
  | space hc htext ih =>
    cases fuel with
    | zero => cases hfuel
    | succ fuel =>
      obtain ⟨values, hscan⟩ := ih (Nat.lt_of_succ_lt_succ hfuel)
      exact ⟨values, (scan_space hc).trans hscan⟩
  | comment text =>
    cases fuel with
    | zero => cases hfuel
    | succ fuel => exact ⟨[], scan_comment⟩
  | comma text =>
    obtain ⟨fuel, rfl⟩ : ∃ k, fuel = k + 2 := Nat.exists_eq_add_of_le' (by
      rw [List.length_cons] at hfuel
      omega)
    refine ⟨[[]], ?_⟩
    rw [scan_unquoted (by decide) (by decide) (by decide), List.takeWhile_cons_of_neg (by simp)]
    rfl
  | unclosed hq htext =>
    cases fuel with
    | zero => cases hfuel
    | succ fuel => exact ⟨[], scan_unclosed hq htext⟩
  | last hq hvalue hskipped =>
    obtain ⟨fuel, rfl⟩ : ∃ k, fuel = k + 2 := Nat.exists_eq_add_of_le' (by
      rw [List.length_cons, List.length_append, List.length_cons] at hfuel
      omega)
    rw [scan_quoted hq hvalue, dropWhile_ne_eq_nil_iff.mpr hskipped]
    exact ⟨_, rfl⟩
  | quoted hq hvalue hskipped htext ih =>
    cases fuel with
    | zero => cases hfuel
    | succ fuel =>
      simp only [List.length_cons, List.length_append] at hfuel
      obtain ⟨values, hscan⟩ := ih (show _ < fuel by omega)
      rw [scan_quoted hq hvalue, dropWhile_ne_append hskipped, List.drop_one, List.tail_cons,
        hscan]
      exact ⟨_, rfl⟩

/-- And no other. -/
theorem scannable_of_scan {text : List UInt8} {values : List (List UInt8)} {closed : Bool}
    (h : scan fuel text = some (values, closed)) : Scannable closed text := by
  induction fuel generalizing text values closed with
  | zero => cases h
  | succ fuel ih =>
    cases text with
    | nil =>
      cases h
      exact .nil
    | cons c tmp =>
      cases hspace : isspace c with
      | true =>
        rw [scan_space hspace] at h
        exact .space hspace (ih h)
      | false =>
        by_cases hcomment : c = commentChar
        · subst hcomment
          rw [scan_comment] at h
          cases h
          exact .comment tmp
        · cases hquote : isQuote c with
          | true =>
            by_cases hmem : c ∈ tmp
            · obtain ⟨behind, hsplit⟩ : ∃ behind, tmp.dropWhile (· ≠ c) = c :: behind := by
                cases hdrop : tmp.dropWhile (· ≠ c) with
                | nil => exact absurd hmem (dropWhile_ne_eq_nil_iff.mp hdrop)
                | cons d behind =>
                  rw [(split_of_dropWhile hdrop).1]
                  exact ⟨behind, rfl⟩
              obtain ⟨-, hvalue, htmp⟩ := split_of_dropWhile hsplit
              rw [htmp, scan_quoted hquote hvalue] at h
              obtain ⟨⟨values', closed'⟩, hscan, hresult⟩ := Option.map_eq_some_iff.mp h
              cases hresult
              rw [htmp]
              cases hrest : behind.dropWhile (· ≠ valueSeparator) with
              | nil =>
                rw [hrest] at hscan
                have hend := ih hscan
                cases hend
                exact .last hquote hvalue (dropWhile_ne_eq_nil_iff.mp hrest)
              | cons d text =>
                obtain ⟨rfl, hskipped, hbehind⟩ := split_of_dropWhile hrest
                rw [hrest] at hscan
                rw [hbehind]
                exact .quoted hquote hvalue hskipped (ih hscan)
            · rw [scan_unclosed hquote hmem] at h
              cases h
              exact .unclosed hquote hmem
          | false =>
            by_cases hcomma : c = valueSeparator
            · subst hcomma
              rw [scan_unquoted hspace hcomment hquote,
                List.takeWhile_cons_of_neg (by simp)] at h
              obtain ⟨⟨values', closed'⟩, hscan, hresult⟩ := Option.map_eq_some_iff.mp h
              cases hresult
              have hend := ih hscan
              cases hend
              exact .comma tmp
            · rw [bare_diverges hspace hcomment hquote hcomma] at h
              cases h

end

/-! ## The file -/

section

variable {fuel nline : Nat} {lines : List CString} {options : List Opt}

/-- What is left behind an equals sign is shorter than the line. -/
theorem length_drop_strchr {s found : List UInt8} {c : UInt8} (h : strchr s c = some found) :
    (found.drop 1).length ≤ s.length := by
  unfold strchr at h
  split at h
  · cases h
  · cases h
    have hsuffix : (s.dropWhile fun b => decide (b ≠ c)).length ≤ s.length :=
      (List.dropWhile_suffix _).length_le
    rw [List.length_drop]
    omega

/-- A readable file is read, in as many steps for each line as it has bytes. -/
theorem readConfig_returns (h : Readable lines) (hfuel : ∀ line ∈ lines, line.length < fuel) :
    ∃ result, readConfig fuel lines nline options = some result := by
  induction lines generalizing nline options with
  | nil => exact ⟨_, rfl⟩
  | cons line lines ih =>
    have hline : line.length < fuel := hfuel line List.mem_cons_self
    have hlines : ∀ l ∈ lines, l.length < fuel := fun l hl => hfuel l (List.mem_cons_of_mem _ hl)
    unfold Readable at h
    unfold readConfig
    cases hfound : strchr line.bytes valueDelimiter with
    | none =>
      simp only [hfound] at h ⊢
      exact ih h hlines
    | some found =>
      simp only [hfound] at h ⊢
      have hshort : (found.drop 1).length < fuel := (length_drop_strchr hfound).trans_lt hline
      rcases h with ⟨htext, hrest⟩ | htext
      · obtain ⟨values, hscan⟩ := scan_of_scannable htext hshort
        rw [hscan]
        exact ih hrest hlines
      · obtain ⟨values, hscan⟩ := scan_of_scannable htext hshort
        rw [hscan]
        exact ⟨_, rfl⟩

theorem readable_of_readConfig {result : Except String (List Opt)}
    (h : readConfig fuel lines nline options = some result) : Readable lines := by
  induction lines generalizing nline options with
  | nil => trivial
  | cons line lines ih =>
    unfold Readable
    unfold readConfig at h
    cases hfound : strchr line.bytes valueDelimiter with
    | none =>
      simp only [hfound] at h ⊢
      exact ih h
    | some found =>
      simp only [hfound] at h ⊢
      obtain ⟨⟨values, closed⟩, hscan, hrest⟩ := Option.bind_eq_some_iff.mp h
      have htext := scannable_of_scan hscan
      cases closed with
      | true =>
        simp only [if_true] at hrest
        exact Or.inl ⟨htext, ih hrest⟩
      | false => exact Or.inr htext

end

theorem exists_fuel (lines : List CString) : ∃ fuel, ∀ line ∈ lines, line.length < fuel := by
  induction lines with
  | nil => exact ⟨0, fun line hline => by cases hline⟩
  | cons line lines ih =>
    obtain ⟨fuel, hfuel⟩ := ih
    refine ⟨fuel + line.length + 1, fun l hl => ?_⟩
    rcases List.mem_cons.mp hl with rfl | hl
    · omega
    · have hlt := hfuel l hl
      omega

/-- **`read_config` returns** exactly for readable files, whatever the options are before. -/
theorem readConfig_terminates_iff (lines : List CString) (options : List Opt) :
    (∃ fuel result, readConfig fuel lines 0 options = some result) ↔ Readable lines := by
  constructor
  · rintro ⟨fuel, result, hread⟩
    exact readable_of_readConfig hread
  · intro h
    obtain ⟨fuel, hfuel⟩ := exists_fuel lines
    exact ⟨fuel, readConfig_returns h hfuel⟩

/-- `a=b`. -/
def bareLine : CString := ⟨[97, 61, 98], by decide⟩

/-- An option with a value without quotes, and `read_config` does not return. -/
theorem bare_line_diverges :
    ¬ ∃ fuel result, readConfig fuel [bareLine] 0 [] = some result := by
  rintro ⟨fuel, result, hread⟩
  have hscan : scan fuel [98] = none :=
    bare_diverges (by decide) (by decide) (by decide) (by decide) fuel []
  have hnone : readConfig fuel [bareLine] 0 [] = none := by
    show (scan fuel [98]).bind _ = none
    rw [hscan]
    rfl
  rw [hnone] at hread
  cases hread

end TokuQa.Sysbench.ReadConfig
