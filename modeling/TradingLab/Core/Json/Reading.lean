import TradingLab.Core.Json

/-! Values read by key from written text. -/

namespace ptl

/-! ### Values -/

/-- A value that stands without quotes: letters, digits, signs and a point. -/
def Bare (value : List Char) : Prop :=
  value ≠ [] ∧ ∀ c ∈ value, (c.isAlphanum || c ∈ ['+', '-', '.']) = true

theorem Bare.free {value : List Char} (hbare : Bare value) {c : Char} (hmem : c ∈ value) :
    isDelimiter c = false ∧ isBlank c = false ∧ c ≠ '"' := by
  have hc := hbare.2 c hmem
  refine ⟨?_, ?_, ?_⟩
  · by_contra hdelimiter
    simp only [isDelimiter, Bool.not_eq_false, decide_eq_true_eq] at hdelimiter
    rcases hdelimiter with rfl | rfl <;> exact absurd hc (by decide)
  · by_contra hblank
    simp only [isBlank, Bool.not_eq_false, decide_eq_true_eq] at hblank
    rcases hblank with rfl | rfl <;> exact absurd hc (by decide)
  · rintro rfl
    exact absurd hc (by decide)

theorem Bare.not_mem_quote {value : List Char} (hbare : Bare value) : '"' ∉ value :=
  fun hmem => (hbare.free hmem).2.2 rfl

theorem Bare.upTo {value more : List Char} (hbare : Bare value) {d : Char} (hd : isDelimiter d = true) :
    Scan.upTo isDelimiter (value ++ d :: more) = value :=
  Scan.upTo_append (fun _ hmem => (hbare.free hmem).1) hd

theorem Bare.dropWhile_blank {value more : List Char} (hbare : Bare value) :
    (' ' :: (value ++ more)).dropWhile isBlank = value ++ more := by
  obtain ⟨c, value, rfl⟩ := List.exists_cons_of_ne_nil hbare.1
  rw [List.dropWhile_cons_of_pos (by decide), List.cons_append,
    List.dropWhile_cons_of_neg (by simp [(hbare.free List.mem_cons_self).2.1])]

theorem readValue_bare {value more : List Char} (hbare : Bare value) {d : Char}
    (hd : isDelimiter d = true) : readValue (' ' :: (value ++ d :: more)) = some value := by
  have hupTo : Scan.upTo isDelimiter (value ++ d :: more) = value := hbare.upTo hd
  obtain ⟨c, value, rfl⟩ := List.exists_cons_of_ne_nil hbare.1
  have hc : c ≠ '"' := (hbare.free List.mem_cons_self).2.2
  rw [readValue, hbare.dropWhile_blank, List.cons_append]
  simp only [if_neg hc]
  rw [← List.cons_append, hupTo]

theorem readValue_quote (value : List Char) :
    readValue (' ' :: '"' :: value) = if '"' ∈ value then some (Scan.upTo isQuote value) else none := by
  rw [readValue, List.dropWhile_cons_of_pos (by decide), List.dropWhile_cons_of_neg (by decide)]
  simp only [if_true]

/-! ### Values by key -/

/-- What the reader makes of an escaped text. -/
def readBack (text : List Char) : List Char := Scan.upTo isQuote (escape text ++ ['"'])

theorem upTo_quote (text more : List Char) :
    Scan.upTo isQuote (text ++ '"' :: more) = Scan.upTo isQuote (text ++ ['"']) := by
  induction text with
  | nil => rfl
  | cons c text ih =>
    simp only [Scan.upTo, List.cons_append, List.takeWhile_cons] at ih ⊢
    rw [ih]

section Fields

variable {key : String} {tokens rest : List Token}

theorem after_key (hplain : Plain key.toList) (hformed : ∀ t ∈ tokens, t.WellFormed)
    (hseek : seek key tokens = some rest) :
    Scan.after (quoted key.toList) (render tokens) = some (render rest) := by
  have hafter : Scan.after (quoted key.toList ++ []) (render tokens) = some (render rest) :=
    after_render hplain hformed hseek (List.nil_append _).symm
  rwa [List.append_nil] at hafter

/-- A value that stands without quotes, up to the next key. -/
def Token.bare (value : String) (more : List Char) : Token := .raw (' ' :: (value.toList ++ more))

@[simp] theorem seek_key (key name : String) (rest : List Token) :
    seek key (.key name :: rest) = if name = key then some rest else seek key rest := rfl

@[simp] theorem seek_raw (key : String) (text : List Char) (rest : List Token) :
    seek key (.raw text :: rest) = seek key rest := rfl

@[simp] theorem seek_str (key : String) (content : List Char) (next : Char) (rest : List Token) :
    seek key (.str content next :: rest) = seek key rest := rfl

@[simp] theorem seek_bare (key value : String) (more : List Char) (rest : List Token) :
    seek key (.bare value more :: rest) = seek key rest := rfl

theorem field_bare (hplain : Plain key.toList) (hformed : ∀ t ∈ tokens, t.WellFormed)
    {value : String} (hbare : Bare value.toList) {d : Char} {more : List Char}
    (hd : isDelimiter d = true) (hseek : seek key tokens = some (.bare value (d :: more) :: rest)) :
    field (render tokens) key = some value.toList := by
  rw [field, after_key hplain hformed hseek, Option.bind_some, render_cons]
  simp only [Token.bare, Token.text, List.cons_append, List.append_assoc]
  rw [readValue_bare hbare hd]

theorem field_str (hplain : Plain key.toList) (hformed : ∀ t ∈ tokens, t.WellFormed)
    {content : List Char} {next : Char}
    (hseek : seek key tokens = some (.raw [' '] :: .str content next :: rest)) :
    field (render tokens) key = some (Scan.upTo isQuote (content ++ '"' :: next :: render rest)) := by
  have htext : render (.raw [' '] :: .str content next :: rest) =
      ' ' :: '"' :: (content ++ '"' :: next :: render rest) := by
    simp [Token.text]
  rw [field, after_key hplain hformed hseek, Option.bind_some, htext, readValue_quote, if_pos (by simp)]

theorem field_escaped (hplain : Plain key.toList) (hformed : ∀ t ∈ tokens, t.WellFormed)
    {content : List Char} {next : Char}
    (hseek : seek key tokens = some (.raw [' '] :: .str (escape content) next :: rest)) :
    field (render tokens) key = some (readBack content) := by
  rw [field_str hplain hformed hseek, upTo_quote, readBack]

/-- A text without quotes is read whole. -/
theorem field_text (hplain : Plain key.toList) (hformed : ∀ t ∈ tokens, t.WellFormed)
    {content : List Char} {next : Char} (hfree : '"' ∉ content)
    (hseek : seek key tokens = some (.raw [' '] :: .str content next :: rest)) :
    field (render tokens) key = some content := by
  have hnot : ∀ c ∈ content, isQuote c = false := by
    intro c hmem
    exact decide_eq_false fun heq => hfree (heq ▸ hmem)
  rw [field_str hplain hformed hseek, Scan.upTo_append hnot (by decide)]

theorem object_field_bare (hplain : Plain key.toList) (hformed : ∀ t ∈ tokens, t.WellFormed)
    {value : String} (hbare : Bare value.toList) {d : Char} {more : List Char}
    (hd : isDelimiter d = true) (hseek : seek key tokens = some (.bare value (d :: more) :: rest)) :
    object_field (render tokens) key = some value.toList := by
  have hupTo : Scan.upTo isDelimiter (value.toList ++ d :: (more ++ render rest)) = value.toList :=
    hbare.upTo hd
  rw [object_field, after_key hplain hformed hseek]
  simp only [render_cons, Token.text, Token.bare, List.cons_append, List.append_assoc]
  rw [hbare.dropWhile_blank, hupTo, if_neg (by simp)]

end Fields

/-! ### What is written -/

/-- A text that no escape changes. -/
def Unescaped (text : List Char) : Prop := ∀ c ∈ text, c ≠ '"' ∧ c ≠ '\\' ∧ c ≠ '\n'

instance (text : List Char) : Decidable (Unescaped text) :=
  List.decidableBAll (fun c => c ≠ '"' ∧ c ≠ '\\' ∧ c ≠ '\n') text

theorem Unescaped.not_mem_quote {text : List Char} (hplain : Unescaped text) : '"' ∉ text :=
  fun hmem => (hplain '"' hmem).1 rfl

theorem Unescaped.append {a b : List Char} (ha : Unescaped a) (hb : Unescaped b) : Unescaped (a ++ b) :=
  fun c hmem => (List.mem_append.mp hmem).elim (ha c) (hb c)

theorem Unescaped.escape {text : List Char} (hplain : Unescaped text) : escape text = text := by
  induction text with
  | nil => rfl
  | cons c text ih =>
    obtain ⟨hquote, hslash, hnewline⟩ := hplain c List.mem_cons_self
    have hc : escapeChar c = [c] := by
      rw [escapeChar, if_neg hquote, if_neg hslash, if_neg hnewline]
    rw [ptl.escape, List.flatMap_cons, hc, List.singleton_append]
    exact congrArg _ (ih fun c hmem => hplain c (List.mem_cons_of_mem _ hmem))

theorem length_le_escape (text : List Char) : text.length ≤ (escape text).length := by
  induction text with
  | nil => exact Nat.le_refl _
  | cons c text ih =>
    have hc : 1 ≤ (escapeChar c).length := by
      unfold escapeChar
      split_ifs <;> simp
    simp only [ptl.escape, List.flatMap_cons, List.length_append, List.length_cons] at ih ⊢
    omega

theorem escape_eq_self_iff {text : List Char} : escape text = text ↔ Unescaped text := by
  refine ⟨fun heq => ?_, Unescaped.escape⟩
  induction text with
  | nil => exact fun c hmem => absurd hmem List.not_mem_nil
  | cons c text ih =>
    have hrest := length_le_escape text
    have hlength := congrArg List.length heq
    simp only [ptl.escape, List.flatMap_cons, List.length_append, List.length_cons] at heq hlength hrest
    have hc : c ≠ '"' ∧ c ≠ '\\' ∧ c ≠ '\n' := by
      refine ⟨?_, ?_, ?_⟩ <;>
        (rintro rfl; rw [show (escapeChar _).length = 2 from rfl] at hlength; omega)
    have hself : escapeChar c = [c] := by
      rw [escapeChar, if_neg hc.1, if_neg hc.2.1, if_neg hc.2.2]
    rw [hself, List.singleton_append, List.cons.injEq] at heq
    intro d hmem
    rcases List.mem_cons.mp hmem with rfl | hmem
    · exact hc
    · exact ih heq.2 d hmem

theorem not_mem_quote_escape {text : List Char} (hfree : '"' ∉ text) : '"' ∉ escape text := by
  intro hmem
  obtain ⟨c, hin, hc⟩ := List.mem_flatMap.mp hmem
  have hne : c ≠ '"' := fun heq => hfree (heq ▸ hin)
  unfold escapeChar at hc
  rw [if_neg hne] at hc
  split_ifs at hc
  · simp at hc
  · simp at hc
  · exact hne (List.mem_singleton.mp hc).symm

/-- It is the text again just when there was nothing to escape. -/
theorem readBack_eq_iff {text : List Char} : readBack text = text ↔ Unescaped text := by
  have hnot : ∀ {t : List Char}, '"' ∉ t → ∀ c ∈ t, isQuote c = false :=
    fun hfree c hmem => decide_eq_false fun heq => hfree (heq ▸ hmem)
  constructor
  · intro heq
    have hfree : '"' ∉ text := by
      intro hmem
      rw [← heq] at hmem
      exact absurd (Scan.upTo_free _ hmem) (by decide)
    rw [readBack, Scan.upTo_append (hnot (not_mem_quote_escape hfree)) (by decide)] at heq
    exact escape_eq_self_iff.mp heq
  · intro hplain
    rw [readBack, hplain.escape, Scan.upTo_append (hnot hplain.not_mem_quote) (by decide)]

theorem unescaped_of_digits (base : Nat) {text : List Char}
    (hdigits : ∀ c ∈ text, Numeral.isDigit base c = true) : Unescaped text := by
  intro c hmem
  have hc := hdigits c hmem
  refine ⟨?_, ?_, ?_⟩ <;> (rintro rfl; simp [Numeral.isDigit, Numeral.value] at hc)

theorem unescaped_padded (width n : Nat) : Unescaped (padded width n).toList := by
  refine unescaped_of_digits 10 fun c hmem => ?_
  rw [padded, String.toList_append, String.toList_ofList, Nat.toString_eq_repr, Nat.toList_repr] at hmem
  rcases List.mem_append.mp hmem with hzero | hdigit
  · rw [List.eq_of_mem_replicate hzero]
    decide
  · exact Numeral.isDigit_of_mem_toDigits (by decide) (by decide) hdigit

theorem unescaped_hex16 (x : UInt64) : Unescaped (hex16 x).toList := by
  refine unescaped_of_digits 16 fun c hmem => ?_
  rw [hex16, String.toList_ofList] at hmem
  rcases List.mem_append.mp hmem with hzero | hdigit
  · rw [List.eq_of_mem_replicate hzero]
    decide
  · exact Numeral.isDigit_of_mem_toDigits (by decide) (by decide) hdigit

theorem unescaped_iso (ts : Timestamp) : Unescaped (iso_or_empty ts).toList := by
  unfold iso_or_empty
  split
  · simp only [to_iso8601, String.toList_append]
    exact (((((((((((((unescaped_padded _ _).append (by decide)).append (unescaped_padded _ _)).append
      (by decide)).append (unescaped_padded _ _)).append (by decide)).append
      (unescaped_padded _ _)).append (by decide)).append (unescaped_padded _ _)).append
      (by decide)).append (unescaped_padded _ _)).append (by decide)).append
      (unescaped_padded _ _)).append (by decide)
  · decide

/-- Every token is well formed. -/
def Formed (tokens : List Token) : Prop := ∀ t ∈ tokens, t.WellFormed

namespace Formed

variable {tokens : List Token} {name : String}

theorem nil : Formed [] :=
  fun _ hmem => absurd hmem List.not_mem_nil

theorem cons {t : Token} (ht : t.WellFormed) (hrest : Formed tokens) : Formed (t :: tokens) :=
  List.forall_mem_cons.mpr ⟨ht, hrest⟩

theorem append {more : List Token} (hfirst : Formed tokens) (hsecond : Formed more) :
    Formed (tokens ++ more) :=
  List.forall_mem_append.mpr ⟨hfirst, hsecond⟩

theorem raw {text : List Char} (hfree : '"' ∉ text) (hrest : Formed tokens) :
    Formed (.raw text :: tokens) :=
  .cons hfree hrest

theorem key (hname : Plain name.toList) (hrest : Formed tokens) : Formed (.key name :: tokens) :=
  .cons hname hrest

theorem bare {value : String} {more : List Char} (hname : Plain name.toList) (hbare : Bare value.toList)
    (hmore : '"' ∉ more) (hrest : Formed tokens) : Formed (.key name :: .bare value more :: tokens) := by
  refine .key hname (.raw ?_ hrest)
  simp only [List.mem_cons, List.mem_append, not_or]
  exact ⟨by decide, hbare.not_mem_quote, hmore⟩

theorem escaped {content : List Char} {next : Char} (hname : Plain name.toList)
    (hnext : next = ',' ∨ next = '}') (hrest : Formed tokens) :
    Formed (.key name :: .raw [' '] :: .str (escape content) next :: tokens) :=
  .key hname (.raw (by decide) (.cons ⟨⟨content, rfl⟩, hnext⟩ hrest))

theorem text {content : List Char} {next : Char} (hname : Plain name.toList)
    (hplain : Unescaped content) (hnext : next = ',' ∨ next = '}') (hrest : Formed tokens) :
    Formed (.key name :: .raw [' '] :: .str content next :: tokens) := by
  have hescaped : Formed (.key name :: .raw [' '] :: .str (escape content) next :: tokens) :=
    escaped hname hnext hrest
  rwa [hplain.escape] at hescaped

theorem intercalate {A : Type} {f : A → List Token} {as : List A} (hparts : ∀ a ∈ as, Formed (f a)) :
    Formed ([.raw [',', ' ']].intercalate (as.map f)) := by
  intro t hmem
  rcases mem_intercalate hmem with hsep | ⟨part, hpart, hin⟩
  · rw [List.mem_singleton.mp hsep]
    exact (by decide : '"' ∉ [',', ' '])
  · obtain ⟨a, ha, rfl⟩ := List.mem_map.mp hpart
    exact hparts a ha t hin

end Formed

/-- A timestamp of 64 bits is read back from its text, unset or not. -/
theorem read_time_iso {ts : Timestamp} (hlow : -2 ^ 63 ≤ ts) (hhigh : ts < 2 ^ 63) :
    read_time (some (iso_or_empty ts).toList) = ts := by
  unfold iso_or_empty
  split
  · rw [read_time, Option.bind_some, parse_timestamp_to_iso8601 hlow hhigh, Option.getD_some]
  · rename_i hunset
    have hts : ts = kNoTimestamp := by simpa [is_set] using hunset
    rw [hts]
    decide

theorem bare_toString (n : Nat) : Bare (toString n).toList := by
  refine ⟨by simp, fun c hmem => ?_⟩
  have hdigit := isDigit_of_mem_toString hmem
  simp [Char.isAlphanum, hdigit]

theorem plain_toString (n : Nat) : Plain (toString n).toList := by
  refine ⟨by simp, fun c hmem => ?_⟩
  have hdigit := isDigit_of_mem_toString hmem
  simp [Char.isAlphanum, hdigit]

theorem DoubleFormat.Exact.bare {D : Type} {fmt : DoubleFormat D} (hexact : fmt.Exact) (d : D) :
    Bare (fmt.num d).toList := by
  unfold DoubleFormat.num
  split
  · exact ⟨by decide, List.all_eq_true.mp (by decide)⟩
  · rename_i hfinite
    rw [Bool.not_eq_true, Bool.not_eq_false] at hfinite
    refine ⟨fun hnil => hexact.nonempty d hfinite (String.toList_eq_nil_iff.mp hnil), fun c hmem => ?_⟩
    have hnumeric := hexact.numeric d hfinite c hmem
    simp only [isNumeric, Bool.or_eq_true, decide_eq_true_eq, List.mem_cons, List.not_mem_nil,
      or_false] at hnumeric
    rcases hnumeric with hdigit | rfl | rfl | rfl | rfl
    · simp [Char.isAlphanum, hdigit]
    · decide
    · decide
    · decide
    · decide

/-! ### Numbers and timestamps by key -/

theorem from_chars_printed (x : UInt64) : from_chars 10 (toString x).toList = some x := by
  have hread : from_chars 10 ((toString x).toList ++ []) = some x := from_chars_toString x (by simp)
  rwa [List.append_nil] at hread

theorem DoubleFormat.Exact.stod_num {D : Type} {fmt : DoubleFormat D} (hexact : fmt.Exact) {d : D}
    (hfinite : fmt.is_finite d = true) : fmt.stod (fmt.num d) = some d := by
  rw [DoubleFormat.num, if_neg (by rw [hfinite]; simp), hexact.inverse d hfinite]

namespace Formed

variable (key : String) {tokens rest : List Token} (hformed : Formed tokens) (hplain : Plain key.toList)
include hformed hplain

theorem u64 {x : UInt64} {d : Char} {more : List Char} (hd : isDelimiter d = true)
    (hseek : seek key tokens = some (.bare (toString x) (d :: more) :: rest)) :
    parse_u64 10 (field (render tokens) key) = some x := by
  have hbare : Bare (toString x).toList := bare_toString x.toNat
  rw [field_bare hplain hformed hbare hd hseek, parse_u64, Option.bind_some, from_chars_printed]

theorem hex {x : UInt64} {next : Char}
    (hseek : seek key tokens = some (.raw [' '] :: .str (hex16 x).toList next :: rest)) :
    parse_u64 16 (field (render tokens) key) = some x := by
  have hread : from_chars 16 ((hex16 x).toList ++ []) = some x := from_chars_hex16 x (by simp)
  rw [List.append_nil] at hread
  rw [field_text hplain hformed (unescaped_hex16 x).not_mem_quote hseek, parse_u64, Option.bind_some,
    hread]

theorem time {ts : Timestamp} (hrange : -2 ^ 63 ≤ ts ∧ ts < 2 ^ 63) {next : Char}
    (hseek : seek key tokens = some (.raw [' '] :: .str (iso_or_empty ts).toList next :: rest)) :
    read_time (field (render tokens) key) = ts := by
  rw [field_text hplain hformed (unescaped_iso ts).not_mem_quote hseek,
    read_time_iso hrange.1 hrange.2]

variable {D : Type} {fmt : DoubleFormat D} (hexact : fmt.Exact)
include hexact

theorem double [Zero D] {v : D} (hfinite : fmt.is_finite v = true) {d : Char} {more : List Char}
    (hd : isDelimiter d = true)
    (hseek : seek key tokens = some (.bare (fmt.num v) (d :: more) :: rest)) :
    read_double fmt (field (render tokens) key) = v := by
  have hread := hexact.stod_num hfinite
  have hbare := hexact.bare v
  rw [field_bare hplain hformed hbare hd hseek, read_double]
  split_ifs with hempty
  · rcases hempty with hempty | hnull
    · exact absurd hempty hbare.1
    · have hprint := hexact.numeric v hfinite
      rw [DoubleFormat.num, if_neg (by rw [hfinite]; simp)] at hnull
      rw [hnull] at hprint
      exact absurd (hprint 'n' (by decide)) (by decide)
  · rw [String.ofList_toList, hread, Option.getD_some]

theorem object_double {v : D} (hfinite : fmt.is_finite v = true) {d : Char} {more : List Char}
    (hd : isDelimiter d = true)
    (hseek : seek key tokens = some (.bare (fmt.num v) (d :: more) :: rest)) :
    (object_field (render tokens) key).bind (fmt.stod <| String.ofList ·) = some v := by
  rw [object_field_bare hplain hformed (hexact.bare v) hd hseek, Option.bind_some, String.ofList_toList,
    hexact.stod_num hfinite]

omit hexact in
theorem object_nat {n : Nat} (hn : n < 2 ^ 64) {d : Char} {more : List Char} (hd : isDelimiter d = true)
    (hseek : seek key tokens = some (.bare (toString n) (d :: more) :: rest)) :
    (object_field (render tokens) key).bind stoull = some (UInt64.ofNat n) := by
  rw [object_field_bare hplain hformed (bare_toString n) hd hseek, Option.bind_some, stoull_toString hn]

end Formed

/-! ### Arrays -/

/-- An object without a closing brace inside. -/
def IsObject (text : List Char) : Prop := ∃ inner, text = '{' :: (inner ++ ['}']) ∧ '}' ∉ inner

theorem isObject_entries (entries : List (String × String)) {name value : String}
    (hentries : ∀ e ∈ entries, Plain e.1.toList ∧ Bare e.2.toList) (hname : Plain name.toList)
    (hvalue : Bare value.toList) :
    IsObject (render (.raw ['{'] :: (entries.flatMap (fun e => [.key e.1, .bare e.2 [',', ' ']]) ++
      [.key name, .bare value ['}']]))) := by
  have hplain : ∀ {key : List Char}, Plain key → '}' ∉ quoted key := by
    intro key hkey hmem
    simp only [quoted, List.mem_cons, List.mem_append, List.not_mem_nil, or_false] at hmem
    rcases hmem with hmem | hmem | hmem | hmem
    · exact absurd hmem (by decide)
    · exact (hkey.ne hmem).2.2.2.2 rfl
    · exact absurd hmem (by decide)
    · exact absurd hmem (by decide)
  have hbare : ∀ {v : List Char}, Bare v → '}' ∉ v := fun hv hmem =>
    absurd (hv.free hmem).1 (by decide)
  refine ⟨render (entries.flatMap fun e => [.key e.1, .bare e.2 [',', ' ']]) ++
    (quoted name.toList ++ ' ' :: value.toList), by simp [Token.text, Token.bare], ?_⟩
  simp only [List.mem_append, List.mem_cons, not_or]
  refine ⟨?_, hplain hname, by decide, hbare hvalue⟩
  simp only [render, List.mem_flatMap, not_exists, not_and]
  rintro t ⟨e, he, ht⟩ hmem
  simp only [List.mem_cons, List.not_mem_nil, or_false] at ht
  rcases ht with rfl | rfl
  · exact hplain (hentries e he).1 hmem
  · simp only [Token.bare, Token.text, List.mem_cons, List.mem_append, List.not_mem_nil, or_false] at hmem
    rcases hmem with hmem | hmem | hmem | hmem
    · exact absurd hmem (by decide)
    · exact hbare (hentries e he).2 hmem
    · exact absurd hmem (by decide)
    · exact absurd hmem (by decide)

theorem objects_of_objects {parts : List (List Char)} (hparts : ∀ part ∈ parts, IsObject part)
    (rest : List Char) {fuel : Nat} (hfuel : parts.length ≤ fuel) :
    objects fuel ([',', ' '].intercalate parts ++ ']' :: rest) = parts := by
  induction parts generalizing fuel with
  | nil => cases fuel <;> simp [objects]
  | cons part parts ih =>
    obtain ⟨inner, rfl, hfree⟩ := hparts part List.mem_cons_self
    have htail := fun other hother => hparts other (List.mem_cons_of_mem _ hother)
    obtain ⟨fuel, rfl⟩ : ∃ k, fuel = k + 1 := ⟨fuel - 1, by simp at hfuel; omega⟩
    obtain ⟨after, htext, hdrop⟩ : ∃ after,
        [',', ' '].intercalate (('{' :: (inner ++ ['}'])) :: parts) ++ ']' :: rest =
          '{' :: (inner ++ '}' :: after) ∧
        after.dropWhile (fun c => c = ' ' ∨ c = ',') = [',', ' '].intercalate parts ++ ']' :: rest := by
      cases parts with
      | nil => exact ⟨']' :: rest, by simp, by simp⟩
      | cons next parts =>
        obtain ⟨other, rfl, -⟩ := htail next List.mem_cons_self
        refine ⟨[',', ' '] ++ ([',', ' '].intercalate (('{' :: (other ++ ['}'])) :: parts) ++ ']' :: rest),
          by simp [List.intercalate_cons_cons], ?_⟩
        cases parts <;> simp [List.intercalate_cons_cons]
    have hopen : Scan.fromStop (fun c => decide (c = '{')) ('{' :: (inner ++ '}' :: after)) =
        '{' :: (inner ++ '}' :: after) :=
      List.dropWhile_cons_of_neg (by simp)
    have hinner : ∀ c ∈ '{' :: inner, decide (c = '}') = false := by
      intro c hmem
      rcases List.mem_cons.mp hmem with rfl | hmem
      · decide
      · exact decide_eq_false fun heq => hfree (heq ▸ hmem)
    have hclose : Scan.fromStop (fun c => decide (c = '}')) ('{' :: (inner ++ '}' :: after)) =
        '}' :: after := by
      rw [← List.cons_append]
      exact Scan.fromStop_append hinner (by simp)
    have hupTo : Scan.upTo (fun c => decide (c = '}')) ('{' :: (inner ++ '}' :: after)) =
        '{' :: inner := by
      rw [← List.cons_append]
      exact Scan.upTo_append hinner (by simp)
    have hrest := @ih htail fuel (by simp at hfuel; omega)
    rw [htext, objects, if_neg (by simp), hopen]
    simp only [hclose, hupTo]
    rw [hdrop, hrest]
    simp

/-- What is read is cut at closing braces. -/
theorem isObject_of_mem_objects {fuel : Nat} {text part : List Char} (hmem : part ∈ objects fuel text) :
    ∃ front, part = front ++ ['}'] ∧ '}' ∉ front := by
  induction fuel generalizing text with
  | zero => cases hmem
  | succ fuel ih =>
    rw [objects] at hmem
    split at hmem
    · cases hmem
    · split at hmem
      · cases hmem
      · split at hmem
        · cases hmem
        · rename_i opened _ _ close rest hclose
          rcases List.mem_cons.mp hmem with rfl | hmem
          · have hfirst : close = '}' := by simpa using Scan.stop_of_fromStop hclose
            refine ⟨_, by rw [hfirst], fun hin => ?_⟩
            exact absurd (Scan.upTo_free _ hin) (by decide)
          · exact ih hmem

theorem length_le_intercalate {parts : List (List Char)} (hparts : ∀ part ∈ parts, IsObject part)
    (sep : List Char) : parts.length ≤ (sep.intercalate parts).length := by
  induction parts with
  | nil => simp
  | cons part parts ih =>
    have hpart : 0 < part.length := by
      obtain ⟨inner, rfl, -⟩ := hparts part List.mem_cons_self
      simp
    have hrest := ih fun other hother => hparts other (List.mem_cons_of_mem _ hother)
    cases parts with
    | nil => simp; omega
    | cons next parts =>
      rw [List.intercalate_cons_cons]
      simp only [List.length_append, List.length_cons] at hrest ⊢
      omega

theorem filterMap_written {A B : Type} {write : A → List Char} {read : List Char → Option B} {g : A → B}
    {as : List A} (hread : ∀ a ∈ as, read (write a) = some (g a)) :
    (as.map write).filterMap read = as.map g := by
  induction as with
  | nil => rfl
  | cons a as ih =>
    rw [List.map_cons, List.filterMap_cons_some (hread a List.mem_cons_self),
      ih fun b hb => hread b (List.mem_cons_of_mem _ hb), List.map_cons]

/-- An array is read as its objects are. -/
theorem Formed.array {key : String} {tokens rest : List Token} (hformed : Formed tokens)
    (hplain : Plain key.toList) {A B : Type} {f : A → List Token} {as : List A} {more : List Char}
    (hseek : seek key tokens = some (.raw [' ', '['] ::
      ([.raw [',', ' ']].intercalate (as.map f) ++ .raw (']' :: more) :: rest)))
    (hparts : ∀ a ∈ as, IsObject (render (f a))) {read : List Char → Option B} {g : A → B}
    (hread : ∀ a ∈ as, read (render (f a)) = some (g a)) :
    (read_array (render tokens) key).filterMap read = as.map g := by
  have hobjects : ∀ part ∈ as.map fun a => render (f a), IsObject part := by
    intro part hpart
    obtain ⟨a, ha, rfl⟩ := List.mem_map.mp hpart
    exact hparts a ha
  have hafter : Scan.after (quoted key.toList ++ [' ', '[']) (render tokens) =
      some ([',', ' '].intercalate (as.map fun a => render (f a)) ++ ']' :: (more ++ render rest)) :=
    after_render hplain hformed hseek (by simp [render_intercalate, Token.text, Function.comp_def])
  have hlength := length_le_intercalate hobjects [',', ' ']
  rw [read_array, hafter]
  simp only
  rw [objects_of_objects hobjects _ (by rw [List.length_append]; omega), filterMap_written hread]

end ptl
