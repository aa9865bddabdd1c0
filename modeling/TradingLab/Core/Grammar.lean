import TradingLab.Core.Iso8601

namespace ptl

/-! ### The grammar -/

/-- Exactly `width` digits, and the number they stand for. -/
structure Digits (width : Nat) (part : List Char) (n : Int) : Prop where
  size : part.length = width
  all : ∀ c ∈ part, Numeral.isDigit 10 c = true
  value : n = Numeral.ofDigits 10 part

/-- What a field holds as the code reads it: the first of its characters may be
a minus sign. -/
def SignedDigits (width : Nat) (part : List Char) (n : Int) : Prop :=
  Digits width part n ∨
    ∃ digits m, part = '-' :: digits ∧ digits ≠ [] ∧ digits.length + 1 = width ∧
      Digits digits.length digits m ∧ n = -m

section Texts

variable (field : Nat → List Char → Int → Prop) (after : List Char → Prop)

/-- A date and the instant of its midnight. -/
inductive DateText : List Char → Int → Prop
  | mk {ys ms ds : List Char} {y m d : Int} (year : field 4 ys y) (month : field 2 ms m)
      (day : field 2 ds d) (real : ymd_ok y m d = true) :
      DateText (ys ++ '-' :: (ms ++ '-' :: ds)) (days_from_civil y m.toNat d.toNat * nanosPerDay)

/-- A time of day and its nanoseconds from midnight. -/
inductive ClockText : List Char → Int → Prop
  | mk {hs ms ss : List Char} {hh mm s : Int} (hour : field 2 hs hh) (minute : field 2 ms mm)
      (second : field 2 ss s) (range : hh ≤ 23 ∧ mm ≤ 59 ∧ s ≤ 59) :
      ClockText (hs ++ ':' :: (ms ++ ':' :: ss)) ((hh * 3600 + mm * 60 + s) * 1000000000)

/-- The end of a timestamp: nothing, or a `Z` and what is let follow it. -/
def Ending (rest : List Char) : Prop := rest = [] ∨ ∃ tail, rest = 'Z' :: tail ∧ after tail

/-- Nanoseconds of the digits after a point, those past the ninth ignored. -/
def fractionOf (digits : List Char) : Int :=
  Numeral.ofDigits 10 (digits.take 9) * 10 ^ (9 - (digits.take 9).length)

/-- What follows the seconds: a fraction or none, and the end. -/
inductive SuffixText : List Char → Int → Prop
  | whole {rest : List Char} (ending : Ending after rest) : SuffixText rest 0
  | fraction {digits rest : List Char} (some_ : digits ≠ [])
      (all : ∀ c ∈ digits, Numeral.isDigit 10 c = true) (ending : Ending after rest) :
      SuffixText ('.' :: (digits ++ rest)) (fractionOf digits)

/-- A date, or a date with a time of day. -/
inductive TimestampText : List Char → Int → Prop
  | date {text : List Char} {midnight : Int} (date : DateText field text midnight) :
      TimestampText text midnight
  | instant {date clock suffix : List Char} {midnight ns fraction : Int} {sep : Char}
      (date_ : DateText field date midnight) (sep_ : sep = 'T' ∨ sep = ' ')
      (clock_ : ClockText field clock ns) (suffix_ : SuffixText after suffix fraction) :
      TimestampText (date ++ sep :: (clock ++ suffix)) (midnight + (ns + fraction))

end Texts

/-! ### The parser reads the grammar with signed fields -/

theorem not_digit_minus : Numeral.isDigit 10 '-' = false := by decide

theorem SignedDigits.size {width : Nat} {part : List Char} {n : Int} (hfield : SignedDigits width part n) :
    part.length = width := by
  rcases hfield with hplain | ⟨digits, m, rfl, _, hwidth, _⟩
  · exact hplain.size
  · exact hwidth

/-- A slice of its width is a field when its characters, a minus sign in front
aside, are digits, and at least one of them is. -/
theorem parse_uint_slice_iff {text slice : List Char} {pos width : Nat} {n : Int}
    (hslice : (text.drop pos).take width = slice) (hlong : pos + width ≤ text.length)
    (hwidth : 0 < width) : parse_uint text pos width = some n ↔ SignedDigits width slice n := by
  have hlength : slice.length = width := by
    rw [← hslice, List.length_take, List.length_drop]
    omega
  have hshort : ¬ pos + width > text.length := by omega
  unfold parse_uint
  rw [if_neg hshort, hslice]
  split
  rename_i negative digits hsign
  split at hsign
  · -- a minus sign in front: the digits are what is behind it
    rename_i rest
    obtain ⟨rfl, rfl⟩ := Prod.mk.inj hsign
    rw [List.length_cons] at hlength
    constructor
    · intro hparse
      split at hparse
      · cases hparse
      · rename_i hdigits
        rw [not_or, not_not, List.all_eq_true] at hdigits
        exact Or.inr ⟨rest, Numeral.ofDigits 10 rest, rfl, hdigits.1, hlength,
          ⟨rfl, hdigits.2, rfl⟩, (Option.some.inj hparse).symm⟩
    · rintro (hplain | ⟨digits, m, hcons, hne, _, ⟨_, hall, rfl⟩, rfl⟩)
      · have hdigit := hplain.all '-' List.mem_cons_self
        rw [not_digit_minus] at hdigit
        cases hdigit
      · obtain ⟨_, rfl⟩ := List.cons.inj hcons
        rw [if_neg (by rw [not_or, not_not, List.all_eq_true]; exact ⟨hne, hall⟩)]
        rfl
  · rename_i hminus
    obtain ⟨rfl, rfl⟩ := Prod.mk.inj hsign
    have hne : slice ≠ [] := by
      intro hnil
      rw [hnil, List.length_nil] at hlength
      omega
    constructor
    · intro hparse
      split at hparse
      · cases hparse
      · rename_i hdigits
        rw [not_or, not_not, List.all_eq_true] at hdigits
        exact Or.inl ⟨hlength, hdigits.2, (Option.some.inj hparse).symm⟩
    · rintro (⟨_, hall, rfl⟩ | ⟨digits, m, hcons, _⟩)
      · rw [if_neg (by rw [not_or, not_not, List.all_eq_true]; exact ⟨hne, hall⟩)]
        rfl
      · exact absurd hcons (hminus digits)

/-- A field is read wherever it stands, and nothing else is. -/
theorem parse_uint_eq_some_iff {text pre rest : List Char} {pos width : Nat} {n : Int}
    (htext : text = pre ++ rest) (hpos : pre.length = pos) (hwidth : 0 < width) :
    parse_uint text pos width = some n ↔ ∃ part more, rest = part ++ more ∧ SignedDigits width part n := by
  have hslice : (text.drop pos).take width = rest.take width := by
    rw [htext, ← hpos, List.drop_left]
  constructor
  · intro hparse
    have hlong : pos + width ≤ text.length := by
      by_contra hshort
      rw [parse_uint, if_pos (by omega)] at hparse
      cases hparse
    exact ⟨rest.take width, rest.drop width, (List.take_append_drop width rest).symm,
      (parse_uint_slice_iff hslice hlong hwidth).mp hparse⟩
  · rintro ⟨part, more, rfl, hfield⟩
    rw [List.take_left' hfield.size] at hslice
    have hlong : pos + width ≤ text.length := by
      rw [htext, List.length_append, List.length_append, hpos, hfield.size]
      omega
    exact (parse_uint_slice_iff hslice hlong hwidth).mpr hfield

theorem getElem?_eq_some_iff_cons {text pre rest : List Char} {c : Char} {pos : Nat}
    (htext : text = pre ++ rest) (hpos : pre.length = pos) :
    text[pos]? = some c ↔ ∃ more, rest = c :: more := by
  constructor
  · intro hread
    rw [htext, ← hpos, List.getElem?_append_right (le_refl _), Nat.sub_self] at hread
    cases rest with
    | nil => cases hread
    | cons d more => exact ⟨more, by rw [Option.some.inj hread]⟩
  · rintro ⟨more, rfl⟩
    exact getElem?_of_append pre htext hpos

/-- Three fields with a separator between each two, read at their offsets. -/
theorem three_fields_iff {text pre rest : List Char} {pos : Nat} (width : Nat) {sep : Char}
    {a b c : Int} (htext : text = pre ++ rest) (hpos : pre.length = pos) (hwidth : 0 < width) :
    (text[pos + width]? = some sep ∧ text[pos + width + 3]? = some sep ∧
      parse_uint text pos width = some a ∧ parse_uint text (pos + width + 1) 2 = some b ∧
      parse_uint text (pos + width + 4) 2 = some c) ↔
    ∃ as bs cs more, rest = as ++ sep :: (bs ++ sep :: (cs ++ more)) ∧
      SignedDigits width as a ∧ SignedDigits 2 bs b ∧ SignedDigits 2 cs c := by
  constructor
  · rintro ⟨hsep, hsep', hfirst, hsecond, hthird⟩
    obtain ⟨as, rest, rfl, has⟩ := (parse_uint_eq_some_iff htext hpos hwidth).mp hfirst
    rw [← List.append_assoc] at htext
    obtain ⟨rest, rfl⟩ := (getElem?_eq_some_iff_cons htext (by simp [hpos, has.size])).mp hsep
    have htext : text = (pre ++ as ++ [sep]) ++ rest := by simpa using htext
    obtain ⟨bs, rest, rfl, hbs⟩ := (parse_uint_eq_some_iff htext (by simp [hpos, has.size]; omega)
      (by decide)).mp hsecond
    have htext : text = (pre ++ as ++ [sep] ++ bs) ++ rest := by simpa using htext
    obtain ⟨rest, rfl⟩ := (getElem?_eq_some_iff_cons htext
      (by simp [hpos, has.size, hbs.size]; omega)).mp hsep'
    have htext : text = (pre ++ as ++ [sep] ++ bs ++ [sep]) ++ rest := by simpa using htext
    obtain ⟨cs, rest, rfl, hcs⟩ := (parse_uint_eq_some_iff htext
      (by simp [hpos, has.size, hbs.size]; omega) (by decide)).mp hthird
    exact ⟨as, bs, cs, rest, by simp, has, hbs, hcs⟩
  · rintro ⟨as, bs, cs, more, rfl, has, hbs, hcs⟩
    have hsecond : text = (pre ++ as ++ [sep]) ++ (bs ++ sep :: (cs ++ more)) := by rw [htext]; simp
    have hsep' : text = (pre ++ as ++ [sep] ++ bs) ++ sep :: (cs ++ more) := by rw [htext]; simp
    have hthird : text = (pre ++ as ++ [sep] ++ bs ++ [sep]) ++ (cs ++ more) := by rw [htext]; simp
    refine ⟨?_, ?_, ?_, ?_, ?_⟩
    · exact getElem?_of_append (pre ++ as) (by rw [htext, List.append_assoc])
        (by simp [hpos, has.size])
    · exact getElem?_of_append (pre ++ as ++ [sep] ++ bs) hsep'
        (by simp [hpos, has.size, hbs.size]; omega)
    · exact (parse_uint_eq_some_iff htext hpos hwidth).mpr ⟨as, _, rfl, has⟩
    · exact (parse_uint_eq_some_iff hsecond (by simp [hpos, has.size]; omega) (by decide)).mpr
        ⟨bs, _, rfl, hbs⟩
    · exact (parse_uint_eq_some_iff hthird (by simp [hpos, has.size, hbs.size]; omega)
        (by decide)).mpr ⟨cs, _, rfl, hcs⟩

/-- The digits a text begins with, when what follows them begins with none. -/
theorem leading_of_ending {digits rest : List Char} {after : List Char → Prop}
    (hall : ∀ c ∈ digits, Numeral.isDigit 10 c = true) (hending : Ending after rest) :
    Numeral.leading 10 (digits ++ rest) = digits := by
  rw [Numeral.leading, List.takeWhile_append_of_pos hall]
  rcases hending with rfl | ⟨tail, rfl, _⟩
  · rw [List.takeWhile_nil, List.append_nil]
  · rw [List.takeWhile_cons_of_neg (by decide), List.append_nil]

theorem parse_fraction_eq_some_iff {text : List Char} {ns : Int} :
    parse_fraction text = some ns ↔ ∃ digits rest, text = digits ++ rest ∧ digits ≠ [] ∧
      (∀ c ∈ digits, Numeral.isDigit 10 c = true) ∧ Ending (fun _ => True) rest ∧
      ns = fractionOf digits := by
  have hempty : ∀ digits : List Char, digits.take 9 = [] ↔ digits = [] := by
    intro digits
    rw [List.take_eq_nil_iff]
    simp
  have hend : ∀ rest : List Char, ¬ (rest ≠ [] ∧ rest.head? ≠ some 'Z') ↔
      Ending (fun _ => True) rest := by
    intro rest
    cases rest with
    | nil => simp [Ending]
    | cons c rest => simp [Ending]
  unfold parse_fraction
  simp only [hempty]
  constructor
  · intro hparse
    split at hparse
    · cases hparse
    · rename_i hgood
      rw [not_or, hend] at hgood
      refine ⟨Numeral.leading 10 text, text.drop (Numeral.leading 10 text).length, ?_, hgood.1, ?_,
        hgood.2, (Option.some.inj hparse).symm⟩
      · exact (List.prefix_iff_eq_append.mp (List.takeWhile_prefix _)).symm
      · intro c hmem
        exact List.all_eq_true.mp List.all_takeWhile c hmem
  · rintro ⟨digits, rest, rfl, hne, hall, hending, rfl⟩
    rw [leading_of_ending hall hending, List.drop_left, if_neg, fractionOf]
    rw [not_or, hend]
    exact ⟨hne, hending⟩

/-- What is read behind the seconds. -/
def parse_suffix (suffix : List Char) : Option Int :=
  match suffix with
  | [] => some 0
  | c :: rest => if c = '.' then parse_fraction rest else if c = 'Z' then some 0 else none

theorem parse_suffix_eq_some_iff {suffix : List Char} {ns : Int} :
    parse_suffix suffix = some ns ↔ SuffixText (fun _ => True) suffix ns := by
  constructor
  · intro hparse
    cases suffix with
    | nil =>
      obtain rfl : 0 = ns := Option.some.inj hparse
      exact .whole (Or.inl rfl)
    | cons c rest =>
      rw [parse_suffix] at hparse
      split at hparse
      · subst c
        obtain ⟨digits, rest, rfl, hne, hall, hending, rfl⟩ := parse_fraction_eq_some_iff.mp hparse
        exact .fraction hne hall hending
      · split at hparse
        · subst c
          obtain rfl : 0 = ns := Option.some.inj hparse
          exact .whole (Or.inr ⟨rest, rfl, trivial⟩)
        · cases hparse
  · intro hsuffix
    cases hsuffix with
    | whole ending =>
      rcases ending with rfl | ⟨tail, rfl, _⟩
      · rfl
      · rfl
    | fraction some_ all ending =>
      exact parse_fraction_eq_some_iff.mpr ⟨_, _, rfl, some_, all, ending, rfl⟩

/-- The end of `parse_time` reads the suffix. -/
theorem suffix_step {text pre suffix : List Char} (ns : Int) (htext : text = pre ++ suffix)
    (hpos : pre.length = 19) :
    (if text[19]? = some '.' then (parse_fraction (text.drop 20)).map (ns + ·)
      else if text[19]? ≠ none ∧ text[19]? ≠ some 'Z' then none else some ns) =
    (parse_suffix suffix).map (ns + ·) := by
  cases suffix with
  | nil =>
    have hnone : text[19]? = none := by
      rw [htext, List.append_nil]
      exact List.getElem?_eq_none (by omega)
    simp [hnone, parse_suffix]
  | cons c rest =>
    have hsome : text[19]? = some c := getElem?_of_append pre htext hpos
    have hdrop : text.drop 20 = rest := by
      rw [htext, show pre ++ c :: rest = (pre ++ [c]) ++ rest by simp]
      exact List.drop_left' (by simp [hpos])
    rw [hsome, hdrop, parse_suffix]
    by_cases hpoint : c = '.'
    · simp [hpoint]
    · by_cases hzone : c = 'Z'
      · simp [hzone]
      · simp [hpoint, hzone]

/-- Time-of-day fields at an offset, in range, are a time of day there. -/
theorem clock_fields_iff {text pre rest : List Char} {pos : Nat} {ns : Int}
    (htext : text = pre ++ rest) (hpos : pre.length = pos) :
    (∃ hh mm s, (text[pos + 2]? = some ':' ∧ text[pos + 5]? = some ':' ∧
      parse_uint text pos 2 = some hh ∧ parse_uint text (pos + 3) 2 = some mm ∧
      parse_uint text (pos + 6) 2 = some s) ∧ (hh ≤ 23 ∧ mm ≤ 59 ∧ s ≤ 59) ∧
      ns = (hh * 3600 + mm * 60 + s) * 1000000000) ↔
    ∃ clock more, rest = clock ++ more ∧ ClockText SignedDigits clock ns := by
  constructor
  · rintro ⟨hh, mm, s, hfields, hrange, rfl⟩
    obtain ⟨hs, ms, ss, more, rfl, hhour, hminute, hsecond⟩ :=
      (three_fields_iff 2 htext hpos (by decide)).mp hfields
    exact ⟨hs ++ ':' :: (ms ++ ':' :: ss), more, by simp, .mk hhour hminute hsecond hrange⟩
  · rintro ⟨clock, more, rfl, hclock⟩
    cases hclock with
    | @mk hs ms ss hh mm s hour minute second range =>
      refine ⟨hh, mm, s, (three_fields_iff 2 htext hpos (by decide)).mpr ?_, range, rfl⟩
      exact ⟨hs, ms, ss, more, by simp, hour, minute, second⟩

theorem ClockText.size {text : List Char} {ns : Int} (hclock : ClockText SignedDigits text ns) :
    text.length = 8 := by
  cases hclock with
  | mk hour minute second range => simp [hour.size, minute.size, second.size]

theorem parse_time_eq_some_iff {text pre rest : List Char} {v : Int} (htext : text = pre ++ rest)
    (hpos : pre.length = 10) :
    parse_time text = some v ↔ ∃ sep clock suffix ns fraction, rest = sep :: (clock ++ suffix) ∧
      (sep = 'T' ∨ sep = ' ') ∧ ClockText SignedDigits clock ns ∧
      SuffixText (fun _ => True) suffix fraction ∧ v = ns + fraction := by
  constructor
  · intro hparse
    unfold parse_time at hparse
    split at hparse
    · cases hparse
    rename_i hsep
    split at hparse
    · cases hparse
    split at hparse
    · cases hparse
    rename_i hcolons
    split at hparse
    case h_2 => cases hparse
    rename_i hh mm s hhour hminute hsecond
    split at hparse
    · cases hparse
    rename_i hrange
    have hsep : ∃ sep, (sep = 'T' ∨ sep = ' ') ∧ text[10]? = some sep := by
      by_cases hT : text[10]? = some 'T'
      · exact ⟨'T', Or.inl rfl, hT⟩
      · exact ⟨' ', Or.inr rfl, not_not.mp fun hspace => hsep ⟨hT, hspace⟩⟩
    obtain ⟨sep, hkind, hread⟩ := hsep
    obtain ⟨rest, rfl⟩ := (getElem?_eq_some_iff_cons htext hpos).mp hread
    have hnext : text = (pre ++ [sep]) ++ rest := by rw [htext]; simp
    rw [not_or, not_not, not_not] at hcolons
    obtain ⟨clock, suffix, rfl, hclock⟩ := (clock_fields_iff hnext (by simp [hpos] : (pre ++ [sep]).length = 11)).mp
      ⟨hh, mm, s, ⟨hcolons.1, hcolons.2, hhour, hminute, hsecond⟩, by omega, rfl⟩
    have hlast : text = (pre ++ [sep] ++ clock) ++ suffix := by rw [hnext]; simp
    rw [suffix_step _ hlast (by simp [hpos, hclock.size]), Option.map_eq_some_iff] at hparse
    obtain ⟨fraction, hsuffix, rfl⟩ := hparse
    exact ⟨sep, clock, suffix, _, fraction, rfl, hkind, hclock,
      parse_suffix_eq_some_iff.mp hsuffix, rfl⟩
  · rintro ⟨sep, clock, suffix, ns, fraction, rfl, hkind, hclock, hsuffix, rfl⟩
    have hread : text[10]? = some sep := getElem?_of_append pre htext hpos
    have hnext : text = (pre ++ [sep]) ++ (clock ++ suffix) := by rw [htext]; simp
    have hlast : text = (pre ++ [sep] ++ clock) ++ suffix := by rw [hnext]; simp
    obtain ⟨hh, mm, s, ⟨hcolon, hcolon', hhour, hminute, hsecond⟩, hrange, rfl⟩ :=
      (clock_fields_iff hnext (by simp [hpos] : (pre ++ [sep]).length = 11)).mpr ⟨clock, suffix, rfl, hclock⟩
    have hlength : ¬ text.length < 19 := by
      rw [hlast]
      simp [hpos, hclock.size]
      omega
    unfold parse_time
    rw [if_neg (by rcases hkind with rfl | rfl <;> simp [hread]), if_neg hlength,
      if_neg (by simp [hcolon, hcolon'])]
    simp only [hhour, hminute, hsecond]
    rw [if_neg (by omega), suffix_step _ hlast (by simp [hpos, hclock.size]),
      parse_suffix_eq_some_iff.mpr hsuffix, Option.map_some]

theorem DateText.size {text : List Char} {midnight : Int}
    (hdate : DateText SignedDigits text midnight) : text.length = 10 := by
  cases hdate with
  | mk year month day real => simp [year.size, month.size, day.size]

/-- The date at the start of a text. -/
theorem date_fields_iff {text : List Char} {midnight : Int} :
    (∃ y m d, (text[4]? = some '-' ∧ text[7]? = some '-' ∧ parse_uint text 0 4 = some y ∧
      parse_uint text 5 2 = some m ∧ parse_uint text 8 2 = some d) ∧ ymd_ok y m d = true ∧
      midnight = days_from_civil y m.toNat d.toNat * nanosPerDay) ↔
    ∃ date rest, text = date ++ rest ∧ DateText SignedDigits date midnight := by
  constructor
  · rintro ⟨y, m, d, hfields, hreal, rfl⟩
    obtain ⟨ys, ms, ds, rest, htext, hyear, hmonth, hday⟩ :=
      (three_fields_iff 4 (List.nil_append text).symm List.length_nil (by decide)).mp hfields
    exact ⟨ys ++ '-' :: (ms ++ '-' :: ds), rest, by rw [htext]; simp, .mk hyear hmonth hday hreal⟩
  · rintro ⟨date, rest, htext, hdate⟩
    cases hdate with
    | @mk ys ms ds y m d year month day real =>
      exact ⟨y, m, d, (three_fields_iff 4 (List.nil_append text).symm List.length_nil (by decide)).mpr
        ⟨ys, ms, ds, rest, by rw [htext]; simp, year, month, day⟩, real, rfl⟩

/-- The parser reads the grammar with signed fields and anything after the `Z`,
without regard to what an instant can hold. -/
theorem parse_timestamp_eq_some_iff {text : List Char} {v : Timestamp} :
    parse_timestamp text = some v ↔ TimestampText SignedDigits (fun _ => True) text v := by
  constructor
  · intro hparse
    unfold parse_timestamp at hparse
    split at hparse
    · cases hparse
    split at hparse
    · cases hparse
    rename_i hdashes
    split at hparse
    case h_2 => cases hparse
    rename_i y m d hyear hmonth hday
    split at hparse
    · cases hparse
    rename_i hreal
    rw [not_or, not_not, not_not] at hdashes
    rw [not_not] at hreal
    obtain ⟨date, rest, rfl, hdate⟩ := date_fields_iff.mp
      ⟨y, m, d, ⟨hdashes.1, hdashes.2, hyear, hmonth, hday⟩, hreal, rfl⟩
    split at hparse
    · rename_i hshort
      obtain rfl : rest = [] := by
        rw [List.length_append, hdate.size] at hshort
        exact List.eq_nil_of_length_eq_zero (by omega)
      rw [List.append_nil, ← Option.some.inj hparse]
      exact .date hdate
    · obtain ⟨time, htime, rfl⟩ := Option.map_eq_some_iff.mp hparse
      obtain ⟨sep, clock, suffix, ns, fraction, rfl, hkind, hclock, hsuffix, rfl⟩ :=
        (parse_time_eq_some_iff rfl hdate.size).mp htime
      exact .instant hdate hkind hclock hsuffix
  · intro hwritten
    have hread : ∀ {date : List Char} {midnight : Int} (rest : List Char),
        DateText SignedDigits date midnight →
        parse_timestamp (date ++ rest) = if (date ++ rest).length ≤ 10 then some midnight else
          (parse_time (date ++ rest)).map (midnight + ·) := by
      intro date midnight rest hdate
      obtain ⟨y, m, d, ⟨hdash, hdash', hyear, hmonth, hday⟩, hreal, rfl⟩ :=
        date_fields_iff.mpr ⟨date, rest, rfl, hdate⟩
      have hlong : ¬ (date ++ rest).length < 10 := by
        rw [List.length_append, hdate.size]
        omega
      unfold parse_timestamp
      rw [if_neg hlong, if_neg (by simp [hdash, hdash'])]
      simp only [hyear, hmonth, hday]
      rw [if_neg (by simp [hreal])]
    cases hwritten with
    | date date =>
      have hdate := hread [] date
      rw [List.append_nil] at hdate
      rw [hdate, if_pos (le_of_eq date.size)]
    | instant date_ sep_ clock_ suffix_ =>
      rw [hread _ date_, if_neg (by simp [date_.size]),
        (parse_time_eq_some_iff rfl date_.size).mpr ⟨_, _, _, _, _, rfl, sep_, clock_, suffix_, rfl⟩,
        Option.map_some]

/-! ### The time of day -/

/-- Nanoseconds from midnight. -/
def parse_time_of_day (text : List Char) : Option Duration :=
  if text.length ≠ 8 then none
  else if text[2]? ≠ some ':' ∨ text[5]? ≠ some ':' then none
  else
    match parse_uint text 0 2, parse_uint text 3 2, parse_uint text 6 2 with
    | some hh, some mm, some ss =>
      if hh > 23 ∨ mm > 59 ∨ ss > 59 then none
      else some ((hh * 3600 + mm * 60 + ss) * 1000000000)
    | _, _, _ => none

theorem parse_time_of_day_eq_some_iff {text : List Char} {ns : Duration} :
    parse_time_of_day text = some ns ↔ ClockText SignedDigits text ns := by
  constructor
  · intro hparse
    unfold parse_time_of_day at hparse
    split at hparse
    · cases hparse
    rename_i hlength
    split at hparse
    · cases hparse
    rename_i hcolons
    split at hparse
    case h_2 => cases hparse
    rename_i hh mm s hhour hminute hsecond
    split at hparse
    · cases hparse
    rename_i hrange
    rw [not_or, not_not, not_not] at hcolons
    obtain ⟨clock, more, htext, hclock⟩ := (clock_fields_iff (List.nil_append text).symm
      List.length_nil).mp
      ⟨hh, mm, s, ⟨hcolons.1, hcolons.2, hhour, hminute, hsecond⟩, by omega, rfl⟩
    obtain rfl : more = [] := by
      rw [not_not, htext, List.length_append, hclock.size] at hlength
      exact List.eq_nil_of_length_eq_zero (by omega)
    rw [htext, List.append_nil, ← Option.some.inj hparse]
    exact hclock
  · intro hclock
    obtain ⟨hh, mm, s, ⟨hcolon, hcolon', hhour, hminute, hsecond⟩, hrange, rfl⟩ :=
      (clock_fields_iff (List.nil_append text).symm List.length_nil).mpr
        ⟨text, [], (List.append_nil text).symm, hclock⟩
    have hsize : ¬ text.length ≠ 8 := not_not.mpr hclock.size
    unfold parse_time_of_day
    rw [if_neg hsize, if_neg (by simp [hcolon, hcolon'])]
    simp only [hhour, hminute, hsecond]
    rw [if_neg (by omega)]

/-! ### Where the two grammars part -/

/-- An instant that a count of nanoseconds in 64 bits can hold. -/
def representable (ns : Int) : Prop := -2 ^ 63 ≤ ns ∧ ns < 2 ^ 63

/-- No field that begins at one of the offsets begins with a minus sign. -/
def UnsignedAt (offsets : List Nat) (text : List Char) : Prop :=
  ∀ k ∈ offsets, text[k]? ≠ some '-'

/-- Nothing stands behind a `Z`. -/
def EndsAtZone (text : List Char) : Prop :=
  ∀ k, text[k]? = some 'Z' → k + 1 = text.length

theorem Digits.signed {width : Nat} {part : List Char} {n : Int} (hdigits : Digits width part n) :
    SignedDigits width part n := Or.inl hdigits

/-- A field read with a sign is one of digits when it does not begin with a minus
sign. -/
theorem SignedDigits.unsigned_iff {width pos : Nat} {text pre part more : List Char} {n : Int}
    (hfield : SignedDigits width part n) (hwidth : 0 < width) (htext : text = pre ++ (part ++ more))
    (hpos : pre.length = pos) : text[pos]? ≠ some '-' ↔ Digits width part n := by
  constructor
  · intro hunsigned
    rcases hfield with hplain | ⟨digits, m, rfl, _⟩
    · exact hplain
    · exact absurd (getElem?_of_append pre htext hpos) hunsigned
  · intro hdigits
    cases part with
    | nil =>
      have hsize := hdigits.size
      rw [List.length_nil] at hsize
      omega
    | cons c part =>
      rw [getElem?_of_append pre htext hpos]
      intro hminus
      have hdigit := hdigits.all c List.mem_cons_self
      rw [Option.some.inj hminus, not_digit_minus] at hdigit
      cases hdigit

theorem three_unsigned_iff {text pre as bs cs more : List Char} {pos width : Nat} {sep : Char}
    {a b c : Int} (has : SignedDigits width as a) (hbs : SignedDigits 2 bs b)
    (hcs : SignedDigits 2 cs c) (hwidth : 0 < width) (hpos : pre.length = pos)
    (htext : text = pre ++ (as ++ sep :: (bs ++ sep :: (cs ++ more)))) :
    UnsignedAt [pos, pos + width + 1, pos + width + 4] text ↔
      Digits width as a ∧ Digits 2 bs b ∧ Digits 2 cs c := by
  have hsecond : text = (pre ++ as ++ [sep]) ++ (bs ++ sep :: (cs ++ more)) := by rw [htext]; simp
  have hthird : text = (pre ++ as ++ [sep] ++ bs ++ [sep]) ++ (cs ++ more) := by rw [htext]; simp
  have hbspos : (pre ++ as ++ [sep]).length = pos + width + 1 := by
    simp [hpos, has.size]
    omega
  have hcspos : (pre ++ as ++ [sep] ++ bs ++ [sep]).length = pos + width + 4 := by
    simp [hpos, has.size, hbs.size]
    omega
  rw [← has.unsigned_iff hwidth htext hpos, ← hbs.unsigned_iff (by decide) hsecond hbspos,
    ← hcs.unsigned_iff (by decide) hthird hcspos]
  simp [UnsignedAt]

theorem Digits.no_zone {width : Nat} {part : List Char} {n : Int} (hdigits : Digits width part n) :
    'Z' ∉ part := by
  intro hmem
  exact absurd (hdigits.all 'Z' hmem) (by decide)

theorem endsAtZone_append {body rest : List Char} (hbody : 'Z' ∉ body)
    (hrest : Ending (fun tail => tail = []) rest) : EndsAtZone (body ++ rest) := by
  intro k hread
  rcases lt_or_ge k body.length with hin | hout
  · rw [List.getElem?_append_left hin] at hread
    exact absurd (List.mem_of_getElem? hread) hbody
  · rw [List.getElem?_append_right hout] at hread
    rcases hrest with rfl | ⟨tail, rfl, rfl⟩
    · cases hread
    · have hlast : k - body.length < ['Z'].length := (List.getElem?_eq_some_iff.mp hread).1
      simp only [List.length_cons, List.length_nil, List.length_append] at hlast ⊢
      omega

theorem Ending.of_endsAtZone {body rest : List Char} (hends : EndsAtZone (body ++ rest))
    (hrest : Ending (fun _ => True) rest) : Ending (fun tail => tail = []) rest := by
  rcases hrest with rfl | ⟨tail, rfl, _⟩
  · exact Or.inl rfl
  · refine Or.inr ⟨tail, rfl, ?_⟩
    have hlast := hends body.length (getElem?_of_append body rfl rfl)
    rw [List.length_append, List.length_cons] at hlast
    exact List.eq_nil_of_length_eq_zero (by omega)

theorem Ending.anything {rest : List Char} (hrest : Ending (fun tail => tail = []) rest) :
    Ending (fun _ => True) rest :=
  hrest.imp_right fun ⟨tail, hcons, _⟩ => ⟨tail, hcons, trivial⟩

theorem DateText.signed {date : List Char} {midnight : Int} (hdate : DateText Digits date midnight) :
    DateText SignedDigits date midnight := by
  cases hdate with
  | mk year month day real => exact .mk year.signed month.signed day.signed real

theorem DateText.unsigned {date rest : List Char} {midnight : Int}
    (hdate : DateText SignedDigits date midnight) (hunsigned : UnsignedAt [0, 5, 8] (date ++ rest)) :
    DateText Digits date midnight := by
  cases hdate with
  | @mk ys ms ds y m d year month day real =>
    have htext : ys ++ '-' :: (ms ++ '-' :: ds) ++ rest =
        [] ++ (ys ++ '-' :: (ms ++ '-' :: (ds ++ rest))) := by simp
    obtain ⟨hyear, hmonth, hday⟩ := (three_unsigned_iff year month day (by decide) List.length_nil
      htext).mp hunsigned
    exact .mk hyear hmonth hday real

theorem DateText.unsignedAt {date rest : List Char} {midnight : Int}
    (hdate : DateText Digits date midnight) : UnsignedAt [0, 5, 8] (date ++ rest) := by
  cases hdate with
  | @mk ys ms ds y m d year month day real =>
    have htext : ys ++ '-' :: (ms ++ '-' :: ds) ++ rest =
        [] ++ (ys ++ '-' :: (ms ++ '-' :: (ds ++ rest))) := by simp
    exact (three_unsigned_iff year.signed month.signed day.signed (by decide) List.length_nil
      htext).mpr ⟨year, month, day⟩

theorem DateText.no_zone {date : List Char} {midnight : Int} (hdate : DateText Digits date midnight) :
    'Z' ∉ date := by
  cases hdate with
  | mk year month day real => simp [year.no_zone, month.no_zone, day.no_zone]

theorem ClockText.signed {clock : List Char} {ns : Int} (hclock : ClockText Digits clock ns) :
    ClockText SignedDigits clock ns := by
  cases hclock with
  | mk hour minute second range => exact .mk hour.signed minute.signed second.signed range

theorem ClockText.unsigned {text pre clock more : List Char} {pos : Nat} {ns : Int}
    (hclock : ClockText SignedDigits clock ns) (htext : text = pre ++ (clock ++ more))
    (hpos : pre.length = pos) (hunsigned : UnsignedAt [pos, pos + 3, pos + 6] text) :
    ClockText Digits clock ns := by
  cases hclock with
  | @mk hs ms ss hh mm s hour minute second range =>
    have htext : text = pre ++ (hs ++ ':' :: (ms ++ ':' :: (ss ++ more))) := by rw [htext]; simp
    obtain ⟨hhour, hminute, hsecond⟩ := (three_unsigned_iff hour minute second (by decide) hpos
      htext).mp hunsigned
    exact .mk hhour hminute hsecond range

theorem ClockText.unsignedAt {text pre clock more : List Char} {pos : Nat} {ns : Int}
    (hclock : ClockText Digits clock ns) (htext : text = pre ++ (clock ++ more))
    (hpos : pre.length = pos) : UnsignedAt [pos, pos + 3, pos + 6] text := by
  cases hclock with
  | @mk hs ms ss hh mm s hour minute second range =>
    have htext : text = pre ++ (hs ++ ':' :: (ms ++ ':' :: (ss ++ more))) := by rw [htext]; simp
    exact (three_unsigned_iff hour.signed minute.signed second.signed (by decide) hpos htext).mpr
      ⟨hour, minute, second⟩

theorem ClockText.no_zone {clock : List Char} {ns : Int} (hclock : ClockText Digits clock ns) :
    'Z' ∉ clock := by
  cases hclock with
  | mk hour minute second range => simp [hour.no_zone, minute.no_zone, second.no_zone]

theorem SuffixText.anything {suffix : List Char} {ns : Int}
    (hsuffix : SuffixText (fun tail => tail = []) suffix ns) : SuffixText (fun _ => True) suffix ns := by
  cases hsuffix with
  | whole ending => exact .whole ending.anything
  | fraction some_ all ending => exact .fraction some_ all ending.anything

theorem SuffixText.ended {body suffix : List Char} {ns : Int}
    (hsuffix : SuffixText (fun _ => True) suffix ns) (hends : EndsAtZone (body ++ suffix)) :
    SuffixText (fun tail => tail = []) suffix ns := by
  cases hsuffix with
  | whole ending => exact .whole (ending.of_endsAtZone hends)
  | @fraction digits rest some_ all ending =>
    have hbody : body ++ '.' :: (digits ++ rest) = (body ++ '.' :: digits) ++ rest := by simp
    rw [hbody] at hends
    exact .fraction some_ all (ending.of_endsAtZone hends)

theorem SuffixText.endsAtZone {body suffix : List Char} {ns : Int}
    (hsuffix : SuffixText (fun tail => tail = []) suffix ns) (hbody : 'Z' ∉ body) :
    EndsAtZone (body ++ suffix) := by
  cases hsuffix with
  | whole ending => exact endsAtZone_append hbody ending
  | @fraction digits rest some_ all ending =>
    have hdigits : 'Z' ∉ digits := fun hmem => absurd (all 'Z' hmem) (by decide)
    rw [show body ++ '.' :: (digits ++ rest) = (body ++ '.' :: digits) ++ rest by simp]
    exact endsAtZone_append (by simp [hbody, hdigits]) ending

/-- Every text of the grammar is read. -/
theorem TimestampText.anything {text : List Char} {v : Int}
    (hwritten : TimestampText Digits (fun tail => tail = []) text v) :
    TimestampText SignedDigits (fun _ => True) text v := by
  cases hwritten with
  | date date => exact .date date.signed
  | instant date_ sep_ clock_ suffix_ =>
    exact .instant date_.signed sep_ clock_.signed suffix_.anything

/-- A text that is read is of the grammar when none of its fields is signed and
nothing follows its `Z`. -/
theorem TimestampText.plain {text : List Char} {v : Int}
    (hread : TimestampText SignedDigits (fun _ => True) text v)
    (hunsigned : UnsignedAt [0, 5, 8, 11, 14, 17] text) (hends : EndsAtZone text) :
    TimestampText Digits (fun tail => tail = []) text v := by
  have hdates : UnsignedAt [0, 5, 8] text := fun k hmem => hunsigned k (by
    simp only [List.mem_cons, List.not_mem_nil, or_false] at hmem ⊢
    omega)
  have hclocks : UnsignedAt [11, 14, 17] text := fun k hmem => hunsigned k (by
    simp only [List.mem_cons, List.not_mem_nil, or_false] at hmem ⊢
    omega)
  cases hread with
  | date date =>
    rw [← List.append_nil text] at hdates
    exact .date (date.unsigned hdates)
  | @instant date clock suffix midnight ns fraction sep date_ sep_ clock_ suffix_ =>
    have htext : date ++ sep :: (clock ++ suffix) = (date ++ [sep]) ++ (clock ++ suffix) := by simp
    have hpos : (date ++ [sep]).length = 11 := by simp [date_.size]
    have hbody : date ++ sep :: (clock ++ suffix) = (date ++ sep :: clock) ++ suffix := by simp
    rw [hbody] at hends
    exact .instant (date_.unsigned hdates) sep_ (clock_.unsigned htext hpos hclocks)
      (suffix_.ended hends)

theorem TimestampText.unsignedAt {text : List Char} {v : Int}
    (hwritten : TimestampText Digits (fun tail => tail = []) text v) :
    UnsignedAt [0, 5, 8, 11, 14, 17] text ∧ EndsAtZone text := by
  cases hwritten with
  | date date =>
    have hdates : UnsignedAt [0, 5, 8] (text ++ []) := date.unsignedAt
    have hzone : EndsAtZone (text ++ []) := endsAtZone_append date.no_zone (Or.inl rfl)
    have hlength := date.signed.size
    rw [List.append_nil] at hdates hzone
    refine ⟨fun k hmem => ?_, hzone⟩
    by_cases hin : k < 10
    · refine hdates k ?_
      simp only [List.mem_cons, List.not_mem_nil, or_false] at hmem ⊢
      omega
    · rw [List.getElem?_eq_none (by omega)]
      exact Option.some_ne_none _ |>.symm
  | @instant date clock suffix midnight ns fraction sep date_ sep_ clock_ suffix_ =>
    have htext : date ++ sep :: (clock ++ suffix) = (date ++ [sep]) ++ (clock ++ suffix) := by simp
    have hpos : (date ++ [sep]).length = 11 := by simp [date_.signed.size]
    have hdates : UnsignedAt [0, 5, 8] (date ++ sep :: (clock ++ suffix)) := date_.unsignedAt
    have hclocks := clock_.unsignedAt htext hpos
    refine ⟨fun k hmem => ?_, ?_⟩
    · by_cases hin : k < 10
      · refine hdates k ?_
        simp only [List.mem_cons, List.not_mem_nil, or_false] at hmem ⊢
        omega
      · refine hclocks k ?_
        simp only [List.mem_cons, List.not_mem_nil, or_false] at hmem ⊢
        omega
    · have hsep : sep ≠ 'Z' := by
        rcases sep_ with rfl | rfl <;> decide
      rw [show date ++ sep :: (clock ++ suffix) = (date ++ sep :: clock) ++ suffix by simp]
      refine suffix_.endsAtZone ?_
      simp [date_.no_zone, clock_.no_zone, hsep.symm]

/-- The two parsers accept exactly their grammars, and read the instant, on the
texts that, if they are read at all, have no signed field, nothing behind the
`Z` and an instant of 64 bits. -/
theorem parsers_accept_grammar_iff (text : List Char) :
    ((∀ v, parse_timestamp text = some v ↔
        TimestampText Digits (fun tail => tail = []) text v ∧ representable v) ↔
      ∀ v, TimestampText SignedDigits (fun _ => True) text v →
        UnsignedAt [0, 5, 8, 11, 14, 17] text ∧ EndsAtZone text ∧ representable v) ∧
    ((∀ ns, parse_time_of_day text = some ns ↔ ClockText Digits text ns) ↔
      ∀ ns, ClockText SignedDigits text ns → UnsignedAt [0, 3, 6] text) := by
  have hwhole : text = [] ++ (text ++ []) := by rw [List.append_nil, List.nil_append]
  refine ⟨⟨fun hexact v hread => ?_, fun hcondition v => ⟨fun hparse => ?_, fun hgood => ?_⟩⟩,
    ⟨fun hexact ns hread => ?_, fun hcondition ns => ⟨fun hparse => ?_, fun hgood => ?_⟩⟩⟩
  · obtain ⟨hwritten, hrange⟩ := (hexact v).mp (parse_timestamp_eq_some_iff.mpr hread)
    exact ⟨hwritten.unsignedAt.1, hwritten.unsignedAt.2, hrange⟩
  · have hread := parse_timestamp_eq_some_iff.mp hparse
    obtain ⟨hunsigned, hends, hrange⟩ := hcondition v hread
    exact ⟨hread.plain hunsigned hends, hrange⟩
  · exact parse_timestamp_eq_some_iff.mpr hgood.1.anything
  · have hwritten := (hexact ns).mp (parse_time_of_day_eq_some_iff.mpr hread)
    exact hwritten.unsignedAt hwhole List.length_nil
  · have hread := parse_time_of_day_eq_some_iff.mp hparse
    exact hread.unsigned hwhole List.length_nil (hcondition ns hread)
  · exact parse_time_of_day_eq_some_iff.mpr hgood.signed

/-- An hour of minus one is read. -/
theorem parse_timestamp_minus_hour :
    ¬ ∀ text v, parse_timestamp text = some v ↔
      TimestampText Digits (fun tail => tail = []) text v ∧ representable v := by
  intro hexact
  have hread : parse_timestamp "2024-01-01T-1:00:00".toList = some 1704063600000000000 := by
    decide +kernel
  obtain ⟨hunsigned, _⟩ := ((hexact _ _).mp hread).1.unsignedAt
  exact hunsigned 11 (by decide) (by decide)

/-! ### The printed text -/

theorem utc_date_floor_le (ts : Timestamp) : utc_date_floor ts ≤ ts := by
  unfold utc_date_floor nanosPerDay
  rw [Int.fdiv_eq_ediv_of_nonneg _ (by decide)]
  exact Int.ediv_mul_le ts (by decide)

/-- A timestamp whose day starts within the 64 bits is read back exactly from
its text. -/
theorem parse_timestamp_printed {ts : Timestamp} (hday : -2 ^ 63 ≤ utc_date_floor ts)
    (hlast : ts < 2 ^ 63) : parse_timestamp (to_iso8601 ts).toList = some ts :=
  parse_timestamp_to_iso8601 (hday.trans (utc_date_floor_le ts)) hlast

/-- The last nanosecond of a leap day before 1970. -/
theorem parse_timestamp_printed_leap :
    parse_timestamp (to_iso8601 (-57974400000000001)).toList = some (-57974400000000001) :=
  parse_timestamp_printed (by decide) (by decide)

end ptl
