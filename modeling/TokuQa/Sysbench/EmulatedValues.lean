import TokuQa.Sysbench.EmulatedStatement

/-!
# What the server reads from an emulated statement

The text that is sent has what `db_print_value` prints in the places of all question marks. That
are the literals for the values if the question marks are the placeholders, and if every string
stands for itself between quotes. No literal is shorter than what is printed, so no other text
of that length has literals for the values in the places of the placeholders.
-/

set_option autoImplicit false

namespace TokuQa.Sysbench.EmulatedStatement

open TokuQa.Lib

variable {params : List Bind} {fresh : Nat → Nat → UInt8} {texts literals : List (List UInt8)}
  {query : List UInt8} {ts : List Token}

/-! ## The text that is sent -/

theorem mem_replaced {b : UInt8} (h : b ∈ replaced (query.map tokenOf) texts) :
    b ∈ query ∨ ∃ text ∈ texts, b ∈ text := by
  induction query generalizing texts with
  | nil => cases h
  | cons q query ih =>
    by_cases hq : q = questionMark
    · subst hq
      cases texts with
      | nil =>
        rcases ih h with hmem | ⟨text, hnil, -⟩
        · exact .inl (List.mem_cons_of_mem _ hmem)
        · cases hnil
      | cons text texts =>
        rw [replaced_placeholder, List.mem_append] at h
        rcases h with h | h
        · exact .inr ⟨text, List.mem_cons_self, h⟩
        · rcases ih h with hmem | ⟨text', htext, hb⟩
          · exact .inl (List.mem_cons_of_mem _ hmem)
          · exact .inr ⟨text', List.mem_cons_of_mem _ htext, hb⟩
    · rw [replaced_char hq, List.mem_cons] at h
      rcases h with rfl | h
      · exact .inl List.mem_cons_self
      · rcases ih h with hmem | htext
        · exact .inl (List.mem_cons_of_mem _ hmem)
        · exact .inr htext

theorem zero_notMem_decimal (x : Int) : 0 ∉ decimal x := by
  intro h
  obtain ⟨c, hc, heq⟩ := List.mem_map.mp h
  have hcode : c.toNat % 256 = 0 := by
    have hzero := congrArg UInt8.toNat heq
    rwa [encodeLatin1, UInt8.toNat_ofNat'] at hzero
  obtain ⟨-, hlt⟩ := dot_of_ascii (longToString_ascii x c hc)
  have hzero : c = Char.ofNat 0 := by
    rw [← Char.ofNat_toNat c]
    congr 1
    omega
  subst hzero
  exact absurd (longToString_ascii x _ hc) (by decide)

/-- What is printed has no zero in it. -/
theorem zero_notMem_formatted {var : Bind} {printed : List UInt8}
    (h : var.formatted = some printed) : 0 ∉ printed := by
  have hquoted {text : List UInt8} (htext : 0 ∉ text) : 0 ∉ quoted text := by
    simpa [quoted, quote] using htext
  have hdate (tm : DbTime) : 0 ∉ dateText tm := by
    simp [dateText, decimalOf, zero_notMem_decimal]
  have htime (tm : DbTime) : 0 ∉ timeText tm := by
    simp [timeText, decimalOf, zero_notMem_decimal]
  have hboth (tm : DbTime) : 0 ∉ dateText tm ++ [32] ++ timeText tm := by
    simp [hdate, htime]
  unfold Bind.formatted at h
  split at h
  · cases h
    decide
  · split at h <;> cases h
    · exact zero_notMem_decimal _
    · exact zero_notMem_decimal _
    · exact zero_notMem_decimal _
    · exact zero_notMem_decimal _
    · exact hquoted (CString.nonzero _)
    · exact hquoted (CString.nonzero _)
    · exact hquoted (hdate _)
    · exact hquoted (htime _)
    · exact hquoted (hboth _)
    · exact hquoted (hboth _)

theorem between_start : Between [] 0 ⟨[], 0, 0, true⟩ :=
  ⟨⟨rfl, rfl, List.prefix_refl _, .inl ⟨rfl, rfl⟩⟩, fun _ => rfl, fun _ => rfl⟩

theorem replaced_ne_nil (hparams : params.map Bind.formatted = texts.map some) (hne : query ≠ [])
    (hcount : query.count questionMark ≤ texts.length) :
    replaced (query.map tokenOf) texts ≠ [] := by
  obtain ⟨q, query, rfl⟩ := List.exists_cons_of_ne_nil hne
  by_cases hq : q = questionMark
  · subst hq
    rcases parameter_cases hparams 0 with ⟨-, hnil⟩ | ⟨var, printed, -, hprinted, hdrop⟩
    · rw [List.drop_zero] at hnil
      rw [hnil, List.count_cons_self] at hcount
      cases hcount
    · rw [List.drop_zero] at hdrop
      rw [hdrop, replaced_placeholder]
      exact List.append_ne_nil_of_left_ne_nil (formatted_ne_nil hprinted) _
  · rw [replaced_char hq]
    exact List.cons_ne_nil _ _

/-- What is sent is what the buffer has been filled with. -/
theorem mysqlDrvExecute_of_fill {query : CString}
    (hparams : params.map Bind.formatted = texts.map some) (hne : query.bytes ≠ [])
    (hcount : query.bytes.count questionMark ≤ texts.length) {fuel : Nat} {t : Locals}
    (hfill : fill params fresh fuel query.bytes ⟨[], 0, 0, true⟩ = some (.ok t))
    (h : Between (replaced (query.bytes.map tokenOf) texts) (query.bytes.count questionMark) t) :
    mysqlDrvExecute params fresh fuel query =
      some (.ok (replaced (query.bytes.map tokenOf) texts)) := by
  have hzero : 0 ∉ replaced (query.bytes.map tokenOf) texts := by
    intro hmem
    rcases mem_replaced hmem with hquery | ⟨text, htext, hb⟩
    · exact query.nonzero hquery
    · have hsome : some text ∈ params.map Bind.formatted := by
        rw [hparams]
        exact List.mem_map_of_mem htext
      obtain ⟨var, -, hprinted⟩ := List.mem_map.mp hsome
      exact zero_notMem_formatted hprinted hb
  obtain ⟨⟨hj, -, hfront, hsize⟩, -, -⟩ := h
  rcases hsize with ⟨hnil, -⟩ | ⟨e, -, -, -, hlt⟩
  · rw [hnil] at hfront
    exact absurd (List.prefix_nil.mp hfront) (replaced_ne_nil hparams hne hcount)
  · obtain ⟨buf, hstore, -, hfront'⟩ := store_spec [0] hfront hlt
    rw [mysqlDrvExecute, hfill]
    dsimp only
    rw [hj, hstore, Option.map_some, stringAt_eq hfront' hzero]

/-- **The text is sent** if it and the first value keep below the limits. -/
theorem mysqlDrvExecute_of_fits {query : CString}
    (hparams : params.map Bind.formatted = texts.map some) (hne : query.bytes ≠ [])
    (hcount : query.bytes.count questionMark ≤ texts.length)
    (hsize : (replaced (query.bytes.map tokenOf) texts).length < 2 ^ 31)
    (hfirst : FirstFits query.bytes texts) {fuel : Nat} (hfuel : 32 ≤ fuel) :
    mysqlDrvExecute params fresh fuel query =
      some (.ok (replaced (query.bytes.map tokenOf) texts)) := by
  obtain ⟨t, hfill, ht⟩ := fill_spec fresh hparams hcount hsize (fun _ => hfirst) hfuel
    between_start
  rw [Nat.zero_add] at ht
  exact mysqlDrvExecute_of_fill hparams hne hcount hfill ht

/-- Nothing else is sent, and nothing beyond the limits. -/
theorem fits_of_mysqlDrvExecute {query : CString}
    (hparams : params.map Bind.formatted = texts.map some) (hne : query.bytes ≠ []) {fuel : Nat}
    {sent : List UInt8} (h : mysqlDrvExecute params fresh fuel query = some (.ok sent)) :
    sent = replaced (query.bytes.map tokenOf) texts ∧ sent.length < 2 ^ 31 ∧
      query.bytes.count questionMark ≤ texts.length ∧ FirstFits query.bytes texts := by
  cases hfill : fill params fresh fuel query.bytes ⟨[], 0, 0, true⟩ with
  | none =>
    rw [mysqlDrvExecute, hfill] at h
    cases h
  | some r =>
    cases r with
    | failed =>
      rw [mysqlDrvExecute, hfill] at h
      cases h
    | ok t =>
      obtain ⟨hcount, hfirst, ht⟩ := fill_fits hparams between_start hfill
      rw [Nat.zero_add] at ht
      rw [mysqlDrvExecute_of_fill hparams hne hcount hfill ht] at h
      obtain rfl : _ = sent := by simpa using h
      exact ⟨rfl, ht.holds.lt, hcount, hfirst rfl⟩

/-! ## Placeholders -/

def Token.byte : Token → UInt8
  | .char c => c
  | .placeholder => questionMark

theorem map_byte_tokens (q : Option UInt8) (query : List UInt8) :
    (tokens q query).map Token.byte = query := by
  fun_induction tokens q query with
  | case1 => rfl
  | case2 query ih => rw [List.map_cons, ih, Token.byte]
  | case3 c query _ _ ih => rw [List.map_cons, ih, Token.byte]
  | case4 c query _ _ ih => rw [List.map_cons, ih, Token.byte]
  | case5 q c query ih => rw [List.map_cons, List.map_cons, ih, Token.byte, Token.byte]
  | case6 c query _ ih => rw [List.map_cons, ih, Token.byte]
  | case7 q c query _ _ ih => rw [List.map_cons, ih, Token.byte]

theorem count_placeholder_char (c : UInt8) (ts : List Token) :
    (Token.char c :: ts).count .placeholder = ts.count .placeholder :=
  List.count_cons_of_ne (fun h => Token.noConfusion h)

theorem count_byte (ts : List Token) : (ts.map Token.byte).count questionMark =
    ts.count .placeholder + ts.count (.char questionMark) := by
  induction ts with
  | nil => rfl
  | cons t ts ih =>
    cases t with
    | placeholder =>
      rw [List.map_cons, Token.byte, List.count_cons_self, ih, List.count_cons_self,
        List.count_cons_of_ne (by decide), Nat.add_right_comm]
    | char c =>
      rw [List.map_cons, Token.byte, List.count_cons, ih, count_placeholder_char,
        List.count_cons]
      by_cases hc : c = questionMark
      · subst hc
        simp [Nat.add_assoc]
      · simp [hc]

/-- No question mark is in a string literal. -/
def AllPlaceholders (query : List UInt8) : Prop := Token.char questionMark ∉ tokens none query

instance (query : List UInt8) : Decidable (AllPlaceholders query) :=
  inferInstanceAs (Decidable (_ ∉ _))

theorem count_questionMark (query : CString) : query.bytes.count questionMark =
    placeholders query + (tokens none query.bytes).count (.char questionMark) := by
  conv_lhs => rw [← map_byte_tokens none query.bytes]
  exact count_byte _

theorem tokens_eq_map (h : AllPlaceholders query) : tokens none query = query.map tokenOf := by
  conv_rhs => rw [← map_byte_tokens none query, List.map_map]
  have hid : ∀ t ∈ tokens none query, (tokenOf ∘ Token.byte) t = id t := by
    intro t ht
    cases t with
    | placeholder => rfl
    | char c =>
      refine if_neg fun hc => h ?_
      rwa [← show c = questionMark from hc]
  rw [List.map_congr_left hid, List.map_id]

/-! ## Literals -/

theorem length_replaced_le (ts : List Token)
    (h : List.Forall₂ (fun literal text => text.length ≤ literal.length)
    literals texts) : (replaced ts texts).length ≤ (replaced ts literals).length := by
  induction ts generalizing texts literals with
  | nil => exact le_rfl
  | cons t ts ih =>
    cases t with
    | char c => exact Nat.succ_le_succ (ih h)
    | placeholder =>
      cases h with
      | nil => exact ih .nil
      | cons hle h =>
        rw [replaced, replaced, List.length_append, List.length_append]
        exact Nat.add_le_add hle (ih h)

/-- **Literals that are not shorter** make the same text only if they are the same. -/
theorem replaced_injective (h : List.Forall₂ (fun literal text => text.length ≤ literal.length)
    literals texts) (hcount : ts.count .placeholder = texts.length)
    (heq : replaced ts literals = replaced ts texts) : literals = texts := by
  induction ts generalizing texts literals with
  | nil =>
    obtain rfl := List.length_eq_zero_iff.mp hcount.symm
    exact List.forall₂_nil_right_iff.mp h
  | cons t ts ih =>
    cases t with
    | char c =>
      rw [count_placeholder_char] at hcount
      exact ih h hcount (List.cons_eq_cons.mp heq).2
    | placeholder =>
      rw [List.count_cons_self] at hcount
      cases h with
      | nil => cases hcount
      | @cons literal text literals texts hle h =>
        rw [replaced, replaced] at heq
        have hrest := length_replaced_le ts h
        have hlength := congrArg List.length heq
        rw [List.length_append, List.length_append] at hlength
        obtain ⟨rfl, htail⟩ := List.append_inj heq (by omega)
        rw [ih h (Nat.succ_injective hcount) htail]

theorem length_replaced (hcount : ts.count .placeholder = texts.length) :
    (replaced ts texts).length + texts.length = ts.length + (texts.map List.length).sum := by
  induction ts generalizing texts with
  | nil =>
    obtain rfl := List.length_eq_zero_iff.mp hcount.symm
    rfl
  | cons t ts ih =>
    cases t with
    | char c =>
      rw [count_placeholder_char] at hcount
      have hlength := ih hcount
      simp only [replaced, List.length_cons]
      omega
    | placeholder =>
      rw [List.count_cons_self] at hcount
      cases texts with
      | nil => cases hcount
      | cons text texts =>
        have hlength := ih (Nat.succ_injective hcount)
        simp only [replaced, List.length_append, List.length_cons, List.map_cons, List.sum_cons]
        omega

/-! ## Values -/

/-- What is printed for a value. -/
def Value.text : Value → List UInt8
  | .null => nullText
  | .int x => decimal x
  | .str s => quoted s

def Value.width (v : Value) : Nat := v.text.length

/-- A string that needs no escapes. -/
def Value.Plain : Value → Prop
  | .str s => plain (s.map decodeLatin1) = true
  | _ => True

variable {var : Bind} {v : Value} {literal : List UInt8}

theorem formatted_of_value (h : var.value = some v) : var.formatted = some v.text := by
  unfold Bind.value at h
  unfold Bind.formatted
  split at h
  · next hnull =>
    cases h
    exact if_pos hnull
  · next hnull =>
    rw [if_neg hnull]
    split at h <;> cases h <;> next hbuffer => rw [hbuffer]; rfl

theorem formatted_of_values {values : List Value} (h : params.map Bind.value = values.map some) :
    params.map Bind.formatted = (values.map Value.text).map some := by
  induction params generalizing values with
  | nil =>
    obtain rfl : values = [] := List.map_eq_nil_iff.mp h.symm
    rfl
  | cons var params ih =>
    cases values with
    | nil => cases h
    | cons v values =>
      simp only [List.map_cons, List.cons.injEq] at h ⊢
      exact ⟨formatted_of_value h.1, ih h.2⟩

theorem map_decodeLatin1_decimal (x : Int) : (decimal x).map decodeLatin1 = longToString x := by
  have hid : ∀ c ∈ longToString x, (decodeLatin1 ∘ encodeLatin1) c = id c := by
    intro c hc
    obtain ⟨-, hlt⟩ := dot_of_ascii (longToString_ascii x c hc)
    exact decodeLatin1_encodeLatin1 (hlt.trans (by decide))
  rw [decimal, List.map_map, List.map_congr_left hid, List.map_id]

/-- **No literal for a value is shorter** than the one that is printed. -/
theorem width_le (h : v.ReadFrom literal) : v.width ≤ literal.length := by
  cases v with
  | null =>
    have hlength := congrArg List.length (show _ = _ from h)
    rw [List.length_map, List.length_map] at hlength
    exact hlength.ge
  | int x =>
    have hle := length_longToString_le (show signedValue _ = some x from h)
    rw [List.length_map] at hle
    rw [Value.width, Value.text, decimal, List.length_map]
    exact hle
  | str s =>
    have hle := lexLiteral_length (show lexLiteral _ = some (s, []) from h)
    rw [List.length_map] at hle
    simp only [Value.width, Value.text, quoted, List.length_append, List.length_cons,
      List.length_nil] at hle ⊢
    omega

/-- **What is printed is a literal for the value** if the value is no string with escapes. -/
theorem readFrom_text_iff (v : Value) : v.ReadFrom v.text ↔ v.Plain := by
  cases v with
  | null => exact ⟨fun _ => trivial, fun _ => rfl⟩
  | int x =>
    refine ⟨fun _ => trivial, fun _ => ?_⟩
    rw [Value.ReadFrom, Value.text, map_decodeLatin1_decimal]
    exact signedValue_longToString x
  | str s =>
    have htext : (quoted s).map decodeLatin1 = '\'' :: (s.map decodeLatin1 ++ ['\'']) := by
      rw [quoted, List.map_append, List.map_cons]
      rfl
    rw [Value.ReadFrom, Value.text, Value.Plain, htext, lexLiteral]
    constructor
    · intro h
      obtain ⟨⟨value, rest⟩, hlex, heq⟩ := Option.map_eq_some_iff.mp h
      cases heq
      exact plain_of_lexString hlex (by rw [List.length_map, List.length_map])
    · intro h
      rw [lexString_of_plain h, Option.map_some, List.map_map]
      simp [Function.comp_def]

theorem readFrom_iff {values : List Value} (hvalues : params.map Bind.value = values.map some) :
    List.Forall₂ (fun literal var => ∃ v ∈ Bind.value var, v.ReadFrom literal) literals params ↔
      List.Forall₂ (fun literal v => v.ReadFrom literal) literals values := by
  have hmap := List.forall₂_map_right_iff (f := Bind.value) (l := literals) (u := params)
    (R := fun literal value => ∃ v ∈ value, v.ReadFrom literal)
  rw [← hmap, hvalues, List.forall₂_map_right_iff]
  simp only [Option.mem_some_iff, exists_eq_left']

/-- **The bound values are sent exactly if** no question mark is in a string literal, every string
needs no escapes, and the text and its first value keep below the limits. -/
theorem mysqlDrvExecute_iff (fresh : Nat → Nat → UInt8) {query : CString} (hne : query.bytes ≠ [])
    {params : List Bind} (values : List Value) (hvalues : params.map Bind.value = values.map some)
    (hcount : values.length = placeholders query) :
    SendsValues params fresh query ↔ AllPlaceholders query.bytes ∧ (∀ v ∈ values, v.Plain) ∧
      query.length - values.length + (values.map Value.width).sum < 2 ^ 31 ∧
      (query.bytes.head? = some questionMark → ∀ v ∈ values.head?, v.width < 2 ^ 30) := by
  have hparams := formatted_of_values hvalues
  have htexts : (tokens none query.bytes).count .placeholder = (values.map Value.text).length := by
    rw [List.length_map, hcount]
    rfl
  have hlength (hall : AllPlaceholders query.bytes) :
      (replaced (query.bytes.map tokenOf) (values.map Value.text)).length =
        query.length - values.length + (values.map Value.width).sum := by
    rw [tokens_eq_map hall] at htexts
    have htotal := length_replaced htexts
    have hle := List.count_le_length (a := Token.placeholder) (l := query.bytes.map tokenOf)
    rw [htexts] at hle
    have hwidths : (values.map Value.text).map List.length = values.map Value.width := by
      rw [List.map_map]
      rfl
    rw [hwidths, List.length_map, List.length_map] at htotal
    rw [List.length_map, List.length_map] at hle
    rw [CString.length]
    omega
  have hfirst : FirstFits query.bytes (values.map Value.text) ↔
      (query.bytes.head? = some questionMark → ∀ v ∈ values.head?, v.width < 2 ^ 30) := by
    simp [FirstFits, List.head?_map, Value.width]
  rw [← hfirst]
  constructor
  · rintro ⟨literals, hliterals, fuel, hsent⟩
    obtain ⟨heq, hlt, hle, hfits⟩ := fits_of_mysqlDrvExecute hparams hne (hsent fuel le_rfl)
    have hall : AllPlaceholders query.bytes := by
      rw [count_questionMark, List.length_map, hcount] at hle
      exact List.count_eq_zero.mp (by omega)
    rw [readFrom_iff hvalues] at hliterals
    have hlengths : List.Forall₂ (fun literal text : List UInt8 => text.length ≤ literal.length)
        literals (values.map Value.text) :=
      List.forall₂_map_right_iff.mpr (hliterals.imp fun _ _ => width_le)
    have hsame : literals = values.map Value.text :=
      replaced_injective hlengths htexts (by rw [heq, tokens_eq_map hall])
    refine ⟨hall, fun v hv => (readFrom_text_iff v).mp ?_, ?_, hfits⟩
    · rw [hsame, List.forall₂_map_left_iff, List.forall₂_same] at hliterals
      exact hliterals v hv
    · rwa [heq, hlength hall] at hlt
  · rintro ⟨hall, hplain, hsize, hfits⟩
    refine ⟨values.map Value.text, (readFrom_iff hvalues).mpr ?_, 32, fun fuel hfuel => ?_⟩
    · rw [List.forall₂_map_left_iff, List.forall₂_same]
      exact fun v hv => (readFrom_text_iff v).mpr (hplain v hv)
    · rw [tokens_eq_map hall] at htexts ⊢
      refine mysqlDrvExecute_of_fits hparams hne ?_ (by rwa [hlength hall]) hfits hfuel
      have hmarks := count_questionMark query
      rw [List.count_eq_zero.mpr hall] at hmarks
      rw [hmarks, List.length_map, hcount]
      rfl

/-- `a=?` and `b`. -/
theorem mysqlDrvExecute_letter : SendsValues [⟨.char ⟨[98], by decide⟩, none⟩] (fun _ _ => 0)
    ⟨[97, 61, 63], by decide⟩ :=
  (mysqlDrvExecute_iff (fun _ _ => 0) (by decide) [.str [98]] rfl rfl).mpr
    ⟨by decide, by simp [Value.Plain]; decide, by decide, fun h => absurd h (by decide)⟩

/-- `a=?` and a quote: `a='''` is sent, where no string ends. -/
theorem mysqlDrvExecute_quote :
    placeholders ⟨[97, 61, 63], by decide⟩ = 1 ∧
      Bind.value ⟨.char ⟨[39], by decide⟩, none⟩ = some (.str [39]) ∧
      ¬ SendsValues [⟨.char ⟨[39], by decide⟩, none⟩] (fun _ _ => 0)
        ⟨[97, 61, 63], by decide⟩ := by
  refine ⟨rfl, rfl, ?_⟩
  rintro ⟨literals, hliterals, fuel, hsent⟩
  have hparams : [Bind.mk (.char ⟨[39], by decide⟩) none].map Bind.formatted =
      [[39, 39, 39]].map some := rfl
  have hvalues : [Bind.mk (.char ⟨[39], by decide⟩) none].map Bind.value =
      [Value.str [39]].map some := rfl
  obtain ⟨heq, -⟩ := fits_of_mysqlDrvExecute hparams (by decide) (hsent fuel le_rfl)
  rw [readFrom_iff hvalues] at hliterals
  obtain ⟨literal, hliteral, rfl⟩ : ∃ literal, Value.ReadFrom literal (.str [39]) ∧
      literals = [literal] := by
    cases hliterals with
    | cons hliteral hnil =>
      cases hnil
      exact ⟨_, hliteral, rfl⟩
  obtain rfl : literal = [39, 39, 39] := by
    have htail : literal ++ [] = [39, 39, 39] := (List.cons_eq_cons.mp (List.cons_eq_cons.mp heq).2).2
    rwa [List.append_nil] at htail
  exact absurd (show lexLiteral _ = _ from hliteral) (by decide)

end TokuQa.Sysbench.EmulatedStatement
