import TradingLab.Core.Types
import TradingLab.Numeral

namespace ptl

/-! ### Whole numbers in text -/

/-- `std::from_chars` into 64 bits: nothing when no digit stands there, or when
    the number does not fit. What follows the digits is left alone. -/
def from_chars (base : Nat) (text : List Char) : Option UInt64 :=
  let digits := Numeral.leading base text
  let n := Numeral.ofDigits base digits
  if digits = [] ∨ 2 ^ 64 ≤ n then none else some (UInt64.ofNat n)

def isspace (c : Char) : Bool := c ∈ [' ', '\t', '\n', '\x0b', '\x0c', '\r']

/-- Whether a number is negative, and what follows its sign. -/
def takeSign : List Char → Bool × List Char
  | '-' :: rest => (true, rest)
  | '+' :: rest => (false, rest)
  | text => (false, text)

/-- The sign and the digits that `strtol` and its kin read. -/
def signed (text : List Char) : Option (Bool × Nat) :=
  let (negative, text) := takeSign (text.dropWhile isspace)
  let digits := Numeral.leading 10 text
  if digits = [] then none else some (negative, Numeral.ofDigits 10 digits)

/-- `std::stoull`, and `std::stoul` where a long has 64 bits. A sign negates in
    64 bits. -/
def stoull (text : List Char) : Option UInt64 :=
  match signed text with
  | none => none
  | some (negative, n) =>
    if 2 ^ 64 ≤ n then none
    else some (if negative then -UInt64.ofNat n else UInt64.ofNat n)

def stoi (text : List Char) : Option Int :=
  match signed text with
  | none => none
  | some (negative, n) =>
    let v : Int := if negative then -n else n
    if -2 ^ 31 ≤ v ∧ v < 2 ^ 31 then some v else none

/-- `std::hex << std::setw(16) << std::setfill('0')`. -/
def hex16 (x : UInt64) : String :=
  let digits := Nat.toDigits 16 x.toNat
  String.ofList (List.replicate (16 - digits.length) '0' ++ digits)

/-! ### Doubles in text -/

/-- What the library knows of the doubles `D`: the bits of one, its text at
    seventeen significant digits, and `std::stod`, which throws on a text that
    is no number. -/
structure DoubleFormat (D : Type) where
  is_finite : D → Bool
  bits : D → UInt64
  print : D → String
  stod : String → Option D

variable {D : Type}

def DoubleFormat.num (fmt : DoubleFormat D) (v : D) : String :=
  if ¬ fmt.is_finite v then "null" else fmt.print v

/-- A character that the text of a finite double may have. -/
def isNumeric (c : Char) : Bool := c.isDigit || c ∈ ['+', '-', '.', 'e']

/-- Printing a finite double and reading it back are exact inverses, and its
    text is made of digits, signs, a point and an exponent. -/
structure DoubleFormat.Exact (fmt : DoubleFormat D) : Prop where
  inverse : ∀ d, fmt.is_finite d = true → fmt.stod (fmt.print d) = some d
  numeric : ∀ d, fmt.is_finite d = true → ∀ c ∈ (fmt.print d).toList, isNumeric c = true
  nonempty : ∀ d, fmt.is_finite d = true → fmt.print d ≠ ""

/-! ### Reading back what was printed -/

theorem from_chars_padded {base : Nat} (hbase : 1 < base) (hsixteen : base ≤ 16) {n k : Nat}
    (hn : n < 2 ^ 64) {rest : List Char} (hrest : ∀ c ∈ rest.head?, Numeral.isDigit base c = false) :
    from_chars base (List.replicate k '0' ++ Nat.toDigits base n ++ rest) = some (UInt64.ofNat n) := by
  have hdigits := Numeral.leading_padded hbase hsixteen (n := n) (k := k) hrest
  have hvalue : Numeral.ofDigits base (List.replicate k '0' ++ Nat.toDigits base n) = n := by
    rw [Numeral.ofDigits_zeros, Numeral.ofDigits_toDigits hbase hsixteen]
  have hsome : List.replicate k '0' ++ Nat.toDigits base n ≠ [] := by simp
  simp only [from_chars, hdigits, hvalue]
  rw [if_neg]
  rintro (hnil | hlarge)
  · exact hsome hnil
  · omega

theorem from_chars_toString (x : UInt64) {rest : List Char}
    (hrest : ∀ c ∈ rest.head?, Numeral.isDigit 10 c = false) :
    from_chars 10 ((toString x).toList ++ rest) = some x := by
  have hprinted : (toString x).toList = List.replicate 0 '0' ++ Nat.toDigits 10 x.toNat := by
    rw [show toString x = toString x.toNat from rfl]
    simp
  rw [hprinted, from_chars_padded (by decide) (by decide) (by exact x.toNat_lt) hrest]
  simp

theorem from_chars_hex16 (x : UInt64) {rest : List Char}
    (hrest : ∀ c ∈ rest.head?, Numeral.isDigit 16 c = false) :
    from_chars 16 ((hex16 x).toList ++ rest) = some x := by
  rw [hex16, String.toList_ofList, from_chars_padded (by decide) (by decide) (by exact x.toNat_lt) hrest]
  simp

/-- A decimal digit, as the library's own test has it. -/
theorem isDigit_of_mem_toString {n : Nat} {c : Char} (hmem : c ∈ (toString n).toList) :
    c.isDigit = true := by
  rw [Nat.toString_eq_repr, Nat.toList_repr] at hmem
  exact Nat.isDigit_of_mem_toDigits (by decide) (by decide) hmem

theorem not_mem_toString {mark : Char} (hmark : mark.isDigit = false) (n : Nat) : mark ∉ (toString n).toList := by
  intro hmem
  rw [isDigit_of_mem_toString hmem] at hmark
  cases hmark

theorem leading_toString (n : Nat) : Numeral.leading 10 (toString n).toList = (toString n).toList := by
  have hpadded : Numeral.leading 10 (List.replicate 0 '0' ++ Nat.toDigits 10 n ++ []) =
      List.replicate 0 '0' ++ Nat.toDigits 10 n :=
    Numeral.leading_padded (by decide) (by decide) (by simp)
  simpa using hpadded

theorem ofDigits_toString (n : Nat) : Numeral.ofDigits 10 (toString n).toList = n := by
  rw [Nat.toString_eq_repr, Nat.toList_repr, Numeral.ofDigits_toDigits (by decide) (by decide)]

theorem signed_toString (n : Nat) : signed (toString n).toList = some (false, n) := by
  have hdigit : ∀ c ∈ (toString n).toList, c.isDigit = true := fun c hmem => isDigit_of_mem_toString hmem
  have hne : (toString n).toList ≠ [] := by simp
  have hleading := leading_toString n
  have hvalue := ofDigits_toString n
  cases htext : (toString n).toList with
  | nil => exact absurd htext hne
  | cons c rest =>
    have hc : c.isDigit = true := hdigit c (by rw [htext]; exact List.mem_cons_self)
    have hspace : isspace c = false := by
      by_contra hspace
      simp only [isspace, Bool.not_eq_false, decide_eq_true_eq, List.mem_cons, List.not_mem_nil,
        or_false] at hspace
      rcases hspace with rfl | rfl | rfl | rfl | rfl | rfl <;> simp at hc
    have hsign : takeSign (c :: rest) = (false, c :: rest) := by
      unfold takeSign
      split
      · rename_i heq
        cases heq
        simp at hc
      · rename_i heq
        cases heq
        simp at hc
      · rfl
    rw [htext] at hleading hvalue
    rw [signed, List.dropWhile_cons_of_neg (by simp [hspace]), hsign]
    simp only [hleading, hvalue, reduceCtorEq, if_false]

theorem stoull_toString {n : Nat} (hn : n < 2 ^ 64) :
    stoull (toString n).toList = some (UInt64.ofNat n) := by
  rw [stoull, signed_toString]
  simp only [Bool.false_eq_true, if_false]
  rw [if_neg (by omega)]

theorem stoi_toString {n : Nat} (hn : n < 2 ^ 31) : stoi (toString n).toList = some (n : Int) := by
  rw [stoi, signed_toString]
  simp
  omega

end ptl

/-! The doubles that hold a whole number of at most 53 bits. -/

namespace ptl

/-- The bits of such a double: sign, biased exponent and fraction. -/
def wholeBits (n : Int) : UInt64 :=
  if n = 0 then 0
  else
    let e := Nat.log2 n.natAbs
    UInt64.ofNat ((if n < 0 then 2 ^ 63 else 0) + (1023 + e) * 2 ^ 52 + (n.natAbs * 2 ^ 52 / 2 ^ e - 2 ^ 52))

example : wholeBits 1 = 0x3ff0000000000000 ∧ wholeBits (-2) = 0xc000000000000000 ∧
    wholeBits 10 = 0x4024000000000000 := by
  decide

def wholeDoubles : DoubleFormat Rat where
  is_finite x := x.den = 1 ∧ x.num.natAbs ≤ 2 ^ 53
  bits x := wholeBits x.num
  print x := toString x.num
  stod text := (signed text.toList).map fun read => if read.1 then -(read.2 : Rat) else read.2

theorem toString_int (n : Int) : toString n =
    if n < 0 then "-" ++ toString n.natAbs else toString n.natAbs := by
  cases n with
  | ofNat m => rw [if_neg (show ¬ Int.ofNat m < 0 from Int.not_lt.mpr (Int.natCast_nonneg m))]; rfl
  | negSucc m => rw [if_pos (Int.negSucc_lt_zero m)]; rfl

theorem signed_minus (n : Nat) : signed ('-' :: (toString n).toList) = some (true, n) := by
  rw [signed, List.dropWhile_cons_of_neg (by decide), takeSign]
  simp only [leading_toString, ofDigits_toString]
  rw [if_neg (by simp)]

theorem signed_toString_int (n : Int) : signed (toString n).toList = some (decide (n < 0), n.natAbs) := by
  rw [toString_int]
  split
  · rename_i hneg
    rw [String.toList_append, show "-".toList = ['-'] from rfl, List.singleton_append, signed_minus, decide_eq_true hneg]
  · rename_i hnonneg
    rw [signed_toString, decide_eq_false hnonneg]

theorem toString_int_inj {n m : Int} (heq : toString n = toString m) : n = m := by
  have hsigned := signed_toString_int n
  rw [heq, signed_toString_int m] at hsigned
  simp only [Option.some.injEq, Prod.mk.injEq, decide_eq_decide] at hsigned
  omega

theorem wholeDoubles_exact : wholeDoubles.Exact where
  inverse x hfinite := by
    have hwhole : x.den = 1 := by
      simp only [wholeDoubles, decide_eq_true_eq] at hfinite
      exact hfinite.1
    have hx : (x.num : Rat) = x := Rat.coe_int_num_of_den_eq_one hwhole
    simp only [wholeDoubles, signed_toString_int, Option.map_some, decide_eq_true_eq]
    split
    · rename_i hneg
      have habs : -((x.num.natAbs : Nat) : Rat) = x.num := by
        rw [← Int.cast_natCast, ← Int.cast_neg, Int.cast_inj]
        omega
      rw [habs, hx]
    · rename_i hnonneg
      have habs : ((x.num.natAbs : Nat) : Rat) = x.num := by
        rw [← Int.cast_natCast, Int.cast_inj]
        omega
      rw [habs, hx]
  numeric x _ c hmem := by
    have hdigits : c ∈ (toString x.num.natAbs).toList → isNumeric c = true := fun hdigit => by
      rw [isNumeric, isDigit_of_mem_toString hdigit, Bool.true_or]
    simp only [wholeDoubles, toString_int] at hmem
    split at hmem
    · rw [String.toList_append, List.mem_append] at hmem
      rcases hmem with hsign | hdigit
      · rw [List.mem_singleton.mp hsign]
        decide
      · exact hdigits hdigit
    · exact hdigits hmem
  nonempty x _ := by
    simp only [wholeDoubles, toString_int]
    split
    · exact fun heq => by simpa using congrArg String.toList heq
    · exact fun heq => by simpa using congrArg String.toList heq

def kFnvOffset : UInt64 := 0xcbf29ce484222325

/-- FNV-1a, one byte after the other. -/
def hash_bytes (h : UInt64) (data : List UInt8) : UInt64 :=
  data.foldl (fun h b => (h ^^^ b.toUInt64) * 0x100000001b3) h

theorem hash_bytes_append (h : UInt64) (a b : List UInt8) :
    hash_bytes h (a ++ b) = hash_bytes (hash_bytes h a) b :=
  List.foldl_append

/-- The bytes of a number in memory, lowest first. -/
def memory : Nat → Nat → List UInt8
  | 0, _ => []
  | size + 1, n => UInt8.ofNat n :: memory size (n / 256)

@[simp] theorem length_memory (size n : Nat) : (memory size n).length = size := by
  induction size generalizing n with
  | zero => rfl
  | succ size ih => rw [memory, List.length_cons, ih]

theorem memory_inj {size n m : Nat} (hn : n < 256 ^ size) (hm : m < 256 ^ size)
    (heq : memory size n = memory size m) : n = m := by
  induction size generalizing n m with
  | zero => omega
  | succ size ih =>
    simp only [memory, List.cons.injEq] at heq
    have hlow : n % 256 = m % 256 := by
      have hbyte := congrArg UInt8.toNat heq.1
      simpa using hbyte
    have hhigh := ih (n := n / 256) (m := m / 256) (by rw [pow_succ] at hn; omega)
      (by rw [pow_succ] at hm; omega) heq.2
    omega

def sizeof32 (x : UInt32) : List UInt8 := memory 4 x.toNat
def sizeof64 (x : UInt64) : List UInt8 := memory 8 x.toNat

/-- The bytes of a text, as `hash_string` takes them. -/
def characters (s : String) : List UInt8 := s.toByteArray.data.toList

@[simp] theorem length_sizeof32 (x : UInt32) : (sizeof32 x).length = 4 := length_memory 4 _
@[simp] theorem length_sizeof64 (x : UInt64) : (sizeof64 x).length = 8 := length_memory 8 _

theorem sizeof32_inj {x y : UInt32} (heq : sizeof32 x = sizeof32 y) : x = y :=
  UInt32.toNat_inj.mp (memory_inj (by simpa using x.toNat_lt) (by simpa using y.toNat_lt) heq)

theorem sizeof64_inj {x y : UInt64} (heq : sizeof64 x = sizeof64 y) : x = y :=
  UInt64.toNat_inj.mp (memory_inj (by simpa using x.toNat_lt) (by simpa using y.toNat_lt) heq)

theorem characters_inj {s t : String} (heq : characters s = characters t) : s = t := by
  have hdata : s.toByteArray = t.toByteArray := ByteArray.ext (Array.toList_inj.mp heq)
  exact String.toByteArray_inj.mp hdata

theorem foldl_feed {A H : Type} (hash : H → List UInt8 → H) (bytes : A → List UInt8)
    (happend : ∀ h a b, hash h (a ++ b) = hash (hash h a) b) (hnil : ∀ h, hash h [] = h) (h : H)
    (as : List A) : as.foldl (fun h a => hash h (bytes a)) h = hash h (as.flatMap bytes) := by
  induction as generalizing h with
  | nil => exact (hnil h).symm
  | cons a as ih => rw [List.foldl_cons, ih, List.flatMap_cons, happend]

/-- Parts of known lengths are told apart in one stream. -/
theorem flatMap_append_inj {A B : Type} {f : A → List B} {as bs : List A} {x y : List B}
    (hlengths : (as.map fun a => (f a).length) = bs.map fun b => (f b).length)
    (heq : as.flatMap f ++ x = bs.flatMap f ++ y) : as.map f = bs.map f ∧ x = y := by
  induction as generalizing bs with
  | nil =>
    obtain rfl := List.map_eq_nil_iff.mp hlengths.symm
    exact ⟨rfl, heq⟩
  | cons a as ih =>
    cases bs with
    | nil => exact absurd hlengths (by simp)
    | cons b bs =>
      simp only [List.map_cons, List.cons.injEq, List.flatMap_cons, List.append_assoc] at hlengths heq ⊢
      obtain ⟨hpart, hrest⟩ := List.append_inj heq hlengths.1
      obtain ⟨hparts, htail⟩ := ih hlengths.2 hrest
      exact ⟨⟨hpart, hparts⟩, htail⟩

theorem map_eq_map_iff {A B C : Type} {f : A → B} {g : A → C} (hsame : ∀ a b, f a = f b ↔ g a = g b)
    {as bs : List A} : as.map f = bs.map f ↔ as.map g = bs.map g := by
  induction as generalizing bs with
  | nil => cases bs <;> simp
  | cons a as ih =>
    cases bs with
    | nil => simp
    | cons b bs => simp only [List.map_cons, List.cons.injEq, hsame, ih]

/-- Records with equal streams agree on what is covered, or one slides into the
other; what differs beyond is told apart. -/
theorem tells_apart_iff {S R C B : Type} {restored : S → R} {covered : S → C} {stream : S → B}
    {Slides : S → S → Prop} (hslides : ∀ s t, Slides s t → restored s ≠ restored t) {s t : S}
    (hstream : stream s = stream t ↔ covered s = covered t ∨ Slides s t ∨ Slides t s) :
    (restored s ≠ restored t → stream s ≠ stream t) ↔
      (covered s = covered t → restored s = restored t) ∧ ¬ Slides s t ∧ ¬ Slides t s := by
  constructor
  · intro htell
    refine ⟨fun hcovered => ?_, fun hst => ?_, fun hts => ?_⟩
    · by_contra hne
      exact htell hne (hstream.mpr (.inl hcovered))
    · exact htell (hslides s t hst) (hstream.mpr (.inr (.inl hst)))
    · exact htell (hslides t s hts).symm (hstream.mpr (.inr (.inr hts)))
  · rintro ⟨hcovered, hst, hts⟩ hne heq
    rcases hstream.mp heq with hsame | hslide | hslide
    · exact hne (hcovered hsame)
    · exact hst hslide
    · exact hts hslide

end ptl
