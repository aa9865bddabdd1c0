import TradingLab.Core.Iso8601

namespace ptl

/-- The escapes of `json_escape`: the quote, the backslash and the newline. -/
def escapeChar (c : Char) : List Char :=
  if c = '"' then ['\\', '"']
  else if c = '\\' then ['\\', '\\']
  else if c = '\n' then ['\\', 'n']
  else [c]

def escape (text : List Char) : List Char := text.flatMap escapeChar

def json_escape (s : String) : String := String.ofList (escape s.toList)

/-- An unset timestamp is an empty text, never a date. -/
def iso_or_empty (ts : Timestamp) : String := if is_set ts then to_iso8601 ts else ""

/-! ### Reading by key

The readers know no grammar: they look for a key in quotes and cut the value
off at the next delimiter. -/

def isQuote (c : Char) : Bool := c = '"'
def isBlank (c : Char) : Bool := c = ' ' ∨ c = '\t'
def isDelimiter (c : Char) : Bool := c = ',' ∨ c = '}'

/-- A key in quotes, with its colon. -/
def quoted (key : List Char) : List Char := '"' :: (key ++ ['"', ':'])

/-- The value a text begins with. A string goes to the next quote: nothing is
    unescaped. -/
def readValue (text : List Char) : Option (List Char) :=
  match text.dropWhile isBlank with
  | [] => none
  | c :: value =>
    if c = '"' then
      if '"' ∈ value then some (Scan.upTo isQuote value) else none
    else some (Scan.upTo isDelimiter (c :: value))

def field (json : List Char) (key : String) : Option (List Char) :=
  (Scan.after (quoted key.toList) json).bind readValue

def parse_u64 (base : Nat) (text : Option (List Char)) : Option UInt64 := text.bind (from_chars base)

/-- A timestamp that cannot be read stays unset. -/
def read_time (text : Option (List Char)) : Timestamp := (text.bind parse_timestamp).getD kNoTimestamp

/-- A double that cannot be read is zero. -/
def read_double {D : Type} [Zero D] (fmt : DoubleFormat D) (text : Option (List Char)) : D :=
  match text with
  | none => 0
  | some text =>
    if text = [] ∨ text = "null".toList then 0 else (fmt.stod (String.ofList text)).getD 0

/-- The value of a key in one object, as it stands: `none` is what throws. -/
def object_field (object : List Char) (key : String) : Option (List Char) :=
  match Scan.after (quoted key.toList) object with
  | none => some []
  | some text =>
    let value := text.dropWhile isBlank
    if value = [] then none else some (Scan.upTo isDelimiter value)

/-- The objects of an array, each from its opening brace to the next closing
    one, with fuel for their number. -/
def objects : Nat → List Char → List (List Char)
  | 0, _ => []
  | fuel + 1, text =>
    if text.head? = none ∨ text.head? = some ']' then []
    else
      match Scan.fromStop (· = '{') text with
      | [] => []
      | opened =>
        match Scan.fromStop (· = '}') opened with
        | [] => []
        | close :: rest =>
          (Scan.upTo (· = '}') opened ++ [close]) ::
            objects fuel (rest.dropWhile fun c => c = ' ' ∨ c = ',')

def read_array (json : List Char) (key : String) : List (List Char) :=
  match Scan.after (quoted key.toList ++ [' ', '[']) json with
  | none => []
  | some text => objects text.length text

/-! Written text as tokens, and where the readers find a key. -/

/-- A key; a text without quotes; or an escaped string with what follows it. -/
inductive Token where
  | key (name : String)
  | raw (text : List Char)
  | str (content : List Char) (next : Char)

def Token.text : Token → List Char
  | .key name => quoted name.toList
  | .raw text => text
  | .str content next => '"' :: (content ++ ['"', next])

def render (tokens : List Token) : List Char := tokens.flatMap Token.text

/-- A key of letters, digits and underscores. -/
def Plain (key : List Char) : Prop := key ≠ [] ∧ ∀ c ∈ key, (c.isAlphanum || c = '_') = true

instance (key : List Char) : Decidable (Plain key) :=
  have := List.decidableBAll (fun c => (c.isAlphanum || c = '_') = true) key
  inferInstanceAs (Decidable (key ≠ [] ∧ ∀ c ∈ key, (c.isAlphanum || c = '_') = true))

def Token.WellFormed : Token → Prop
  | .key name => Plain name.toList
  | .raw text => '"' ∉ text
  | .str content next => (∃ text, content = escape text) ∧ (next = ',' ∨ next = '}')

/-- What follows the first occurrence of a key. -/
def seek (key : String) : List Token → Option (List Token)
  | [] => none
  | .key name :: rest => if name = key then some rest else seek key rest
  | .raw _ :: rest => seek key rest
  | .str _ _ :: rest => seek key rest

section Skips

variable {key more : List Char}

theorem Plain.ne {key : List Char} (hplain : Plain key) {c : Char} (hmem : c ∈ key) :
    c ≠ '"' ∧ c ≠ '\\' ∧ c ≠ ':' ∧ c ≠ ',' ∧ c ≠ '}' := by
  have hc := hplain.2 c hmem
  refine ⟨?_, ?_, ?_, ?_, ?_⟩ <;> (rintro rfl; exact absurd hc (by decide))

/-- No key in quotes begins an escaped string: the quotes in it follow a
backslash, and the one after it is not followed by a colon. -/
theorem not_prefix_escape {key content rest : List Char} {next : Char}
    (hkey : ∀ c ∈ key, c ≠ '"' ∧ c ≠ '\\') (hnext : next ≠ ':') :
    ¬ key ++ '"' :: ':' :: more <+: escape content ++ '"' :: next :: rest := by
  induction content generalizing key with
  | nil =>
    intro hstarts
    cases key with
    | nil =>
      simp only [List.nil_append, escape, List.flatMap_nil, List.cons_prefix_cons] at hstarts
      exact hnext hstarts.2.1.symm
    | cons a key =>
      simp only [escape, List.flatMap_nil, List.nil_append, List.cons_append,
        List.cons_prefix_cons] at hstarts
      exact (hkey a List.mem_cons_self).1 hstarts.1
  | cons c content ih =>
    intro hstarts
    have hescape : ∃ b tail, escapeChar c = b :: tail ∧ (b = '\\' ∨ (b = c ∧ tail = [] ∧ c ≠ '"')) := by
      unfold escapeChar
      split
      · exact ⟨_, _, rfl, .inl rfl⟩
      · split
        · exact ⟨_, _, rfl, .inl rfl⟩
        · split
          · exact ⟨_, _, rfl, .inl rfl⟩
          · rename_i hquote _ _
            exact ⟨_, _, rfl, .inr ⟨rfl, rfl, hquote⟩⟩
    obtain ⟨b, tail, hb, hcase⟩ := hescape
    simp only [escape, List.flatMap_cons, hb, List.cons_append] at hstarts
    cases key with
    | nil =>
      simp only [List.nil_append, List.cons_prefix_cons] at hstarts
      rcases hcase with rfl | ⟨rfl, -, hquote⟩
      · exact absurd hstarts.1 (by decide)
      · exact hquote hstarts.1.symm
    | cons a key =>
      simp only [List.cons_append, List.cons_prefix_cons] at hstarts
      obtain ⟨rfl, hstarts⟩ := hstarts
      rcases hcase with rfl | ⟨-, rfl, -⟩
      · exact (hkey _ List.mem_cons_self).2 rfl
      · exact ih (fun c hc => hkey c (List.mem_cons_of_mem _ hc)) hstarts

theorem skips_escape (hplain : Plain key) {content : List Char} {next : Char}
    (hnext : next = ',' ∨ next = '}') :
    Scan.Skips (quoted key ++ more) (escape content ++ ['"', next]) := by
  have hkey : ∀ c ∈ key, c ≠ '"' ∧ c ≠ '\\' := fun c hc => ⟨(hplain.ne hc).1, (hplain.ne hc).2.1⟩
  have hcolon : next ≠ ':' := by rcases hnext with rfl | rfl <;> decide
  have hquote : next ≠ '"' := by rcases hnext with rfl | rfl <;> decide
  induction content with
  | nil =>
    refine .cons (fun rest hstarts => ?_) (.of_not_mem (by simpa using hquote.symm))
    obtain ⟨a, key, rfl⟩ := List.exists_cons_of_ne_nil hplain.1
    simp only [quoted, List.cons_append, List.nil_append, List.cons_prefix_cons, true_and] at hstarts
    have ha := hplain.ne (c := a) List.mem_cons_self
    rcases hnext with rfl | rfl
    · exact ha.2.2.2.1 hstarts.1
    · exact ha.2.2.2.2 hstarts.1
  | cons c content ih =>
    have hsplit : escape (c :: content) ++ ['"', next] =
        escapeChar c ++ (escape content ++ ['"', next]) := by
      simp [escape]
    rw [hsplit]
    by_cases hc : c = '"'
    · have hpair : escapeChar c = ['\\', '"'] := by rw [escapeChar, if_pos hc]
      rw [hpair, List.cons_append, List.singleton_append]
      refine .cons (fun rest hstarts => ?_) (.cons (fun rest hstarts => ?_) ih)
      · simp only [quoted, List.cons_append, List.cons_prefix_cons] at hstarts
        exact absurd hstarts.1 (by decide)
      · simp only [quoted, List.cons_append, List.append_assoc, List.nil_append,
          List.cons_prefix_cons, true_and] at hstarts
        exact not_prefix_escape hkey hcolon hstarts
    · refine .append (.of_not_mem ?_) ih
      unfold escapeChar
      rw [if_neg hc]
      split
      · decide
      · split
        · decide
        · simpa using Ne.symm hc

/-- Two lists that end at the same mark are the same. -/
theorem eq_of_prefix_mark {a b x y : List Char} (ha : '"' ∉ a) (hb : '"' ∉ b)
    (hstarts : a ++ '"' :: x <+: b ++ '"' :: y) : a = b := by
  induction a generalizing b with
  | nil =>
    cases b with
    | nil => rfl
    | cons c b =>
      simp only [List.nil_append, List.cons_append, List.cons_prefix_cons] at hstarts
      exact absurd (hstarts.1 ▸ List.mem_cons_self) hb
  | cons c a ih =>
    cases b with
    | nil =>
      simp only [List.nil_append, List.cons_append, List.cons_prefix_cons] at hstarts
      exact absurd (hstarts.1 ▸ List.mem_cons_self) ha
    | cons d b =>
      simp only [List.cons_append, List.cons_prefix_cons] at hstarts
      rw [hstarts.1, ih (fun hmem => ha (List.mem_cons_of_mem _ hmem))
        (fun hmem => hb (List.mem_cons_of_mem _ hmem)) hstarts.2]

theorem skips_quoted {key' : List Char} (hplain : Plain key) (hplain' : Plain key') (hne : key' ≠ key) :
    Scan.Skips (quoted key ++ more) (quoted key') := by
  have hfree : '"' ∉ key := fun hmem => (hplain.ne hmem).1 rfl
  have hfree' : '"' ∉ key' := fun hmem => (hplain'.ne hmem).1 rfl
  refine .cons (fun rest hstarts => ?_) (.append (.of_not_mem hfree') (.cons (fun rest hstarts => ?_)
    (.of_not_mem (by decide))))
  · simp only [quoted, List.cons_append, List.append_assoc, List.nil_append, List.cons_prefix_cons,
      true_and] at hstarts
    exact hne (eq_of_prefix_mark hfree hfree' hstarts).symm
  · obtain ⟨a, key, rfl⟩ := List.exists_cons_of_ne_nil hplain.1
    simp only [quoted, List.cons_append, List.nil_append, List.cons_prefix_cons, true_and] at hstarts
    exact (hplain.ne (c := a) List.mem_cons_self).2.2.1 hstarts.1

end Skips

/-- In well-formed text a key is found where it stands as a key. -/
theorem after_render {key : String} (hplain : Plain key.toList) {tokens rest : List Token}
    {more : List Char} (hformed : ∀ t ∈ tokens, t.WellFormed) (hseek : seek key tokens = some rest)
    {text : List Char} (hmore : render rest = more ++ text) :
    Scan.after (quoted key.toList ++ more) (render tokens) = some text := by
  induction tokens with
  | nil => cases hseek
  | cons t tokens ih =>
    have hrest := fun t ht => hformed t (List.mem_cons_of_mem _ ht)
    have hthis := hformed t List.mem_cons_self
    have hrender : render (t :: tokens) = t.text ++ render tokens := List.flatMap_cons
    rw [hrender]
    cases t with
    | key name =>
      by_cases hkey : name = key
      · rw [seek, if_pos hkey] at hseek
        cases hseek
        rw [hkey, hmore, Token.text, ← List.append_assoc]
        exact Scan.after_needle (by simp [quoted]) text
      · rw [seek, if_neg hkey] at hseek
        have hne : name.toList ≠ key.toList := fun heq => hkey (String.toList_inj.mp heq)
        exact (skips_quoted hplain hthis hne _).trans (ih hrest hseek)
    | raw part =>
      have hskips : Scan.Skips (quoted key.toList ++ more) part := .of_not_mem hthis
      exact (hskips _).trans (ih hrest hseek)
    | str content next =>
      obtain ⟨⟨inner, rfl⟩, hnext⟩ := hthis
      have hskips : Scan.Skips (quoted key.toList ++ more) (Token.str (escape inner) next).text := by
        refine .cons (fun rest hstarts => ?_) (skips_escape hplain hnext)
        simp only [quoted, List.cons_append, List.append_assoc, List.nil_append, List.cons_prefix_cons,
          true_and] at hstarts
        have hcolon : next ≠ ':' := by rcases hnext with rfl | rfl <;> decide
        exact not_prefix_escape (fun c hc => ⟨(hplain.ne hc).1, (hplain.ne hc).2.1⟩) hcolon hstarts
      exact (hskips _).trans (ih hrest hseek)

@[simp] theorem render_nil : render [] = [] := rfl

@[simp] theorem render_cons (t : Token) (tokens : List Token) :
    render (t :: tokens) = t.text ++ render tokens := List.flatMap_cons

@[simp] theorem render_append (a b : List Token) : render (a ++ b) = render a ++ render b :=
  List.flatMap_append

theorem render_intercalate (sep : List Token) (parts : List (List Token)) :
    render (sep.intercalate parts) = (render sep).intercalate (parts.map render) := by
  induction parts with
  | nil => rfl
  | cons part parts ih =>
    cases parts with
    | nil => simp
    | cons next parts =>
      simp only [List.map_cons] at ih ⊢
      rw [List.intercalate_cons_cons, List.intercalate_cons_cons, render_append, render_append, ih]

theorem toList_intercalate_written {A : Type} {write : A → String} {tokens : A → List Token}
    (htext : ∀ a, (write a).toList = render (tokens a)) (as : List A) :
    (", ".intercalate (as.map write)).toList =
      render ([.raw [',', ' ']].intercalate (as.map tokens)) := by
  rw [String.toList_intercalate, render_intercalate, List.map_map, List.map_map]
  have hparts : List.map (String.toList ∘ write) as = List.map (render ∘ tokens) as :=
    List.map_congr_left fun a _ => htext a
  rw [hparts]
  rfl

/-- A part that does not have the key is passed over. -/
theorem seek_append {key : String} {part : List Token} (habsent : ∀ t ∈ part, t ≠ .key key)
    (rest : List Token) : seek key (part ++ rest) = seek key rest := by
  induction part with
  | nil => rfl
  | cons t part ih =>
    have hrest := ih fun t ht => habsent t (List.mem_cons_of_mem _ ht)
    cases t with
    | key name =>
      have hne : name ≠ key := fun heq => habsent (.key name) List.mem_cons_self (by rw [heq])
      rw [List.cons_append, seek, if_neg hne, hrest]
    | raw _ => exact hrest
    | str _ _ => exact hrest

theorem mem_intercalate {A : Type*} {a : A} {sep : List A} {parts : List (List A)}
    (hmem : a ∈ sep.intercalate parts) : a ∈ sep ∨ ∃ part ∈ parts, a ∈ part := by
  induction parts with
  | nil => simp at hmem
  | cons part parts ih =>
    cases parts with
    | nil => exact .inr ⟨part, List.mem_cons_self, by simpa using hmem⟩
    | cons next parts =>
      rw [List.intercalate_cons_cons, List.mem_append, List.mem_append] at hmem
      rcases hmem with (hpart | hsep) | hrest
      · exact .inr ⟨part, List.mem_cons_self, hpart⟩
      · exact .inl hsep
      · rcases ih hrest with hsep | ⟨other, hother, hin⟩
        · exact .inl hsep
        · exact .inr ⟨other, List.mem_cons_of_mem _ hother, hin⟩

theorem seek_intercalate {A : Type} {key : String} {f : A → List Token} {as : List A}
    (habsent : ∀ a ∈ as, ∀ t ∈ f a, t ≠ .key key) (rest : List Token) :
    seek key ([.raw [',', ' ']].intercalate (as.map f) ++ rest) = seek key rest := by
  refine seek_append (fun t hmem => ?_) rest
  rcases mem_intercalate hmem with hsep | ⟨part, hpart, hin⟩
  · rw [List.mem_singleton.mp hsep]
    exact Token.noConfusion
  · obtain ⟨a, ha, rfl⟩ := List.mem_map.mp hpart
    exact habsent a ha t hin

end ptl
