import Mathlib.Tactic.IntervalCases
import TradingLab.Core.Numbers

namespace ptl

def nanosPerDay : Int := 86400 * 1000000000

/-! ### The calendar -/

def is_leap (year : Int) : Bool := year % 4 = 0 ∧ (year % 100 ≠ 0 ∨ year % 400 = 0)

def last_day (year month : Int) : Int :=
  if month = 2 then if is_leap year then 29 else 28
  else if month = 4 ∨ month = 6 ∨ month = 9 ∨ month = 11 then 30
  else 31

/-- `std::chrono::year_month_day::ok`. -/
def ymd_ok (year month day : Int) : Bool :=
  1 ≤ month ∧ month ≤ 12 ∧ 1 ≤ day ∧ day ≤ last_day year month

/-- The day count from 1970-01-01 of a date. -/
def days_from_civil (year : Int) (month day : Nat) : Int :=
  let y := if month ≤ 2 then year - 1 else year
  let era := y.fdiv 400
  let yoe := (y - era * 400).toNat
  let mp := if month > 2 then month - 3 else month + 9
  let doy := (153 * mp + 2) / 5 + day - 1
  let doe := yoe * 365 + yoe / 4 - yoe / 100 + doy
  era * 146097 + doe - 719468

/-! ### Reading a timestamp -/

/-- A number of fixed width. A minus sign counts as one of the characters. -/
def parse_uint (text : List Char) (pos len : Nat) : Option Int :=
  if pos + len > text.length then none
  else
    let (negative, digits) : Bool × List Char := match (text.drop pos).take len with
      | '-' :: rest => (true, rest)
      | slice => (false, slice)
    if digits = [] ∨ ¬ digits.all (Numeral.isDigit 10) then none
    else
      let n : Int := Numeral.ofDigits 10 digits
      some (if negative then -n else n)

/-- Nanoseconds from the digits after the point: nine count, and only a `Z` may
    follow the last. -/
def parse_fraction (text : List Char) : Option Int :=
  let digits := (Numeral.leading 10 text).take 9
  let rest := text.drop (Numeral.leading 10 text).length
  if digits = [] ∨ (rest ≠ [] ∧ rest.head? ≠ some 'Z') then none
  else some (Numeral.ofDigits 10 digits * 10 ^ (9 - digits.length))

def parse_time (text : List Char) : Option Int :=
  if text[10]? ≠ some 'T' ∧ text[10]? ≠ some ' ' then none
  else if text.length < 19 then none
  else if text[13]? ≠ some ':' ∨ text[16]? ≠ some ':' then none
  else
    match parse_uint text 11 2, parse_uint text 14 2, parse_uint text 17 2 with
    | some hh, some mm, some ss =>
      if hh > 23 ∨ mm > 59 ∨ ss > 59 then none
      else
        let ns := (hh * 3600 + mm * 60 + ss) * 1000000000
        if text[19]? = some '.' then (parse_fraction (text.drop 20)).map (ns + ·)
        else if text[19]? ≠ none ∧ text[19]? ≠ some 'Z' then none
        else some ns
    | _, _, _ => none

def parse_timestamp (text : List Char) : Option Timestamp :=
  if text.length < 10 then none
  else if text[4]? ≠ some '-' ∨ text[7]? ≠ some '-' then none
  else
    match parse_uint text 0 4, parse_uint text 5 2, parse_uint text 8 2 with
    | some y, some m, some d =>
      if ¬ ymd_ok y m d then none
      else
        let midnight := days_from_civil y m.toNat d.toNat * nanosPerDay
        if text.length ≤ 10 then some midnight else (parse_time text).map (midnight + ·)
    | _, _, _ => none

/-- The start of the day of a timestamp. -/
def utc_date_floor (ts : Timestamp) : Timestamp := ts.fdiv nanosPerDay * nanosPerDay

/-! ### The calendar and back -/

/-- The year of an era that a day of it falls into. Counted from March, a year
has its leap day at its end. -/
theorem year_of_era (doe : Nat) {yoe : Nat} (hdoe : doe < 146097)
    (hyoe : yoe = (doe - doe / 1460 + doe / 36524 - doe / 146096) / 365) :
    365 * yoe + yoe / 4 - yoe / 100 ≤ doe ∧ doe - (365 * yoe + yoe / 4 - yoe / 100) ≤ 365 ∧ yoe ≤ 399 ∧
      (doe - (365 * yoe + yoe / 4 - yoe / 100) = 365 →
        (yoe + 1) % 4 = 0 ∧ ((yoe + 1) % 100 ≠ 0 ∨ (yoe + 1) % 400 = 0)) := by
  have hbounds : ∀ g c f q h t : Nat, 1460 * g ≤ doe → doe < 1460 * g + 1460 → 36524 * c ≤ doe →
      doe < 36524 * c + 36524 → 146096 * f ≤ doe → doe < 146096 * f + 146096 →
      365 * yoe + g + f ≤ doe + c → doe + c < 365 * yoe + 365 + g + f → yoe = 4 * q + t → t < 4 →
      100 * h ≤ yoe → yoe < 100 * h + 100 →
      365 * yoe + q ≤ doe + h ∧ doe + h ≤ 365 * yoe + q + 365 ∧ yoe ≤ 399 ∧
        (doe + h = 365 * yoe + q + 365 → t = 3 ∧ (yoe ≠ 100 * h + 99 ∨ yoe = 399)) := by
    intro g c f q h t _ _ _ _ _ _ _ _ _ ht _ _
    by_cases hlast : doe = 146096
    · have hf : f = 1 := by omega
      have hc : c = 4 := by omega
      have hg : g = 100 := by omega
      have hyear : yoe = 399 := by omega
      omega
    · have hf : f = 0 := by omega
      have hc : c ≤ 3 := by omega
      subst hf
      -- The century of the year is the century of the day.
      have hcentury : h = c := by interval_cases c <;> omega
      subst hcentury
      have hq : q ≤ 25 * h + 24 := by omega
      refine ⟨by omega, by omega, by omega, fun hday => ⟨by omega, by omega⟩⟩
  obtain ⟨hlow, hhigh, hyears, hleap⟩ := hbounds (doe / 1460) (doe / 36524) (doe / 146096) (yoe / 4)
    (yoe / 100) (yoe % 4) (by omega) (by omega) (by omega) (by omega) (by omega) (by omega)
    (by omega) (by omega) (by omega) (by omega) (by omega) (by omega)
  refine ⟨by omega, by omega, hyears, fun hday => ?_⟩
  obtain ⟨hmod, hcentury⟩ := hleap (by omega)
  omega

/-- The month and the day in it of a day of the year counted from March. -/
theorem month_of_year {doy : Nat} (hdoy : doy ≤ 365) (mp : Nat) (hmp : mp = (5 * doy + 2) / 153) :
    mp ≤ 11 ∧ (153 * mp + 2) / 5 ≤ doy ∧
      (doy - (153 * mp + 2) / 5 + 1 ≤ 28 ∨
        (doy - (153 * mp + 2) / 5 + 1 = 29 ∧ (mp < 11 ∨ doy = 365)) ∨
        (doy - (153 * mp + 2) / 5 + 1 = 30 ∧ mp < 11) ∨
        (doy - (153 * mp + 2) / 5 + 1 = 31 ∧ mp ∉ [1, 3, 6, 8, 11])) := by
  have hlow : 153 * mp ≤ 5 * doy + 2 := by omega
  have hhigh : 5 * doy + 2 < 153 * mp + 153 := by omega
  have hlast : mp ≤ 11 := by omega
  clear hmp
  -- A month is the days of its stretch of the year; only the last is cut short.
  interval_cases mp <;> simp <;> omega

/-- A date from its parts: the era, the year of it, and the day of that year
counted from March. -/
theorem days_from_civil_parts {era : Int} {yoe doy mp : Nat} (hyears : yoe ≤ 399)
    (hmp : mp ≤ 11) (hstart : (153 * mp + 2) / 5 ≤ doy) :
    days_from_civil
      ((yoe : Int) + era * 400 + if (if mp < 10 then mp + 3 else mp - 9) ≤ 2 then 1 else 0)
      (if mp < 10 then mp + 3 else mp - 9) (doy - (153 * mp + 2) / 5 + 1) =
        era * 146097 + ((yoe * 365 + yoe / 4 - yoe / 100 + doy : Nat) : Int) - 719468 := by
  have hera : ((yoe : Int) + era * 400).fdiv 400 = era := by
    rw [Int.fdiv_eq_ediv_of_nonneg _ (by decide)]
    omega
  have hyoe : ((yoe : Int) + era * 400 - era * 400).toNat = yoe := by omega
  unfold days_from_civil
  by_cases hten : mp < 10
  · have hmonth : ¬ mp + 3 ≤ 2 := by omega
    have hback : mp + 3 - 3 = mp := by omega
    have hday : (153 * mp + 2) / 5 + (doy - (153 * mp + 2) / 5 + 1) - 1 = doy := by omega
    simp only [hten, if_true, hmonth, if_false, add_zero, hera, hyoe, gt_iff_lt,
      show 2 < mp + 3 by omega, hback, hday]
  · have hmonth : mp - 9 ≤ 2 := by omega
    have hback : mp - 9 + 9 = mp := by omega
    have hday : (153 * mp + 2) / 5 + (doy - (153 * mp + 2) / 5 + 1) - 1 = doy := by omega
    simp only [hten, if_false, hmonth, if_true, add_sub_cancel_right, hera, Int.toNat_natCast,
      gt_iff_lt, show ¬ 2 < mp - 9 by omega, hback, hday]

theorem ymd_ok_parts {era : Int} {yoe doy mp : Nat} (hdoy : doy ≤ 365)
    (hleap : doy = 365 → (yoe + 1) % 4 = 0 ∧ ((yoe + 1) % 100 ≠ 0 ∨ (yoe + 1) % 400 = 0))
    (hmp : mp = (5 * doy + 2) / 153) :
    ymd_ok ((yoe : Int) + era * 400 + if (if mp < 10 then mp + 3 else mp - 9) ≤ 2 then 1 else 0)
      ((if mp < 10 then mp + 3 else mp - 9 : Nat) : Int)
      ((doy - (153 * mp + 2) / 5 + 1 : Nat) : Int) = true := by
  obtain ⟨hle, -, hlength⟩ := month_of_year hdoy mp hmp
  have hday : 1 ≤ doy - (153 * mp + 2) / 5 + 1 := by omega
  generalize doy - (153 * mp + 2) / 5 + 1 = day at hlength hday ⊢
  clear hmp
  unfold ymd_ok last_day is_leap
  simp only [decide_eq_true_eq]
  interval_cases mp <;> simp at hlength ⊢ <;> omega

/-- Every day count is the day count of its date, which is one. -/
theorem days_from_civil_from_days (days : Int) :
    days_from_civil (civil_from_days days).1 (civil_from_days days).2.1 (civil_from_days days).2.2 = days ∧
      ymd_ok (civil_from_days days).1 (civil_from_days days).2.1 (civil_from_days days).2.2 = true := by
  obtain ⟨doe, hlt, hdoe, hdays⟩ : ∃ doe : Nat, doe < 146097 ∧
      (days + 719468 - (days + 719468).fdiv 146097 * 146097).toNat = doe ∧
      days = (days + 719468).fdiv 146097 * 146097 + doe - 719468 := by
    have hdiv := Int.fdiv_eq_ediv_of_nonneg (days + 719468) (b := 146097) (by decide)
    refine ⟨_, ?_, rfl, ?_⟩ <;> omega
  have hyear := year_of_era doe hlt rfl
  simp only [civil_from_days, hdoe]
  generalize (doe - doe / 1460 + doe / 36524 - doe / 146096) / 365 = yoe at hyear ⊢
  obtain ⟨hlow, hdoy, hyears, hleap⟩ := hyear
  have hsplit : yoe * 365 + yoe / 4 - yoe / 100 + (doe - (365 * yoe + yoe / 4 - yoe / 100)) = doe := by
    omega
  generalize doe - (365 * yoe + yoe / 4 - yoe / 100) = doy at hdoy hleap hsplit ⊢
  obtain ⟨hmp, hstart, -⟩ := month_of_year hdoy _ rfl
  refine ⟨?_, ymd_ok_parts hdoy hleap rfl⟩
  rw [days_from_civil_parts hyears hmp hstart, hsplit]
  exact hdays.symm

/-- The years of the days that 64 bits of nanoseconds reach have four digits. -/
theorem civil_year_range {days : Int} (hlow : -106752 ≤ days) (hhigh : days ≤ 106751) :
    0 ≤ (civil_from_days days).1 ∧ (civil_from_days days).1.toNat < 10 ^ 4 := by
  have hdiv := Int.fdiv_eq_ediv_of_nonneg (days + 719468) (b := 146097) (by decide)
  have hyear := year_of_era (days + 719468 - (days + 719468).fdiv 146097 * 146097).toNat
    (by omega) rfl
  simp only [civil_from_days]
  generalize hyoe : ((days + 719468 - (days + 719468).fdiv 146097 * 146097).toNat -
    (days + 719468 - (days + 719468).fdiv 146097 * 146097).toNat / 1460 +
    (days + 719468 - (days + 719468).fdiv 146097 * 146097).toNat / 36524 -
    (days + 719468 - (days + 719468).fdiv 146097 * 146097).toNat / 146096) / 365 = yoe at hyear ⊢
  have hyears := hyear.2.2.1
  split <;> omega

/-! ### The text and back -/

theorem padded_length {width n : Nat} (hwidth : 0 < width) (hn : n < 10 ^ width) :
    (padded width n).toList.length = width := by
  have hdigits := (Nat.length_repr_le_iff hwidth).mpr hn
  have hsame : (Nat.toDigits 10 n).length = n.repr.length := by
    rw [← Nat.toList_repr, String.length_toList]
  simp [padded]
  omega

/-- A padded number is read back wherever it stands. -/
theorem parse_uint_padded (pre : List Char) {text post : List Char} {pos width n : Nat} (hwidth : 0 < width)
    (hn : n < 10 ^ width) (htext : text = pre ++ ((padded width n).toList ++ post))
    (hpos : pre.length = pos) : parse_uint text pos width = some (n : Int) := by
  have hlength := padded_length hwidth hn
  have hslice : (text.drop pos).take width = (padded width n).toList := by
    rw [htext, ← hpos, List.drop_left, List.take_left' hlength]
  have hdigits : ∃ k, (padded width n).toList = List.replicate k '0' ++ Nat.toDigits 10 n := by
    exact ⟨width - (toString n).length, by simp [padded]⟩
  obtain ⟨k, hdigits⟩ := hdigits
  have hall : ∀ c ∈ (padded width n).toList, Numeral.isDigit 10 c = true := by
    intro c hmem
    rw [hdigits, List.mem_append] at hmem
    rcases hmem with hzero | hdigit
    · rw [List.eq_of_mem_replicate hzero]
      decide
    · exact Numeral.isDigit_of_mem_toDigits (by decide) (by decide) hdigit
  have hvalue : Numeral.ofDigits 10 (padded width n).toList = n := by
    rw [hdigits, Numeral.ofDigits_zeros, Numeral.ofDigits_toDigits (by decide) (by decide)]
  have hlong : ¬ pos + width > text.length := by
    rw [htext, List.length_append, List.length_append, hlength, hpos]
    omega
  have hsome : ¬ ((padded width n).toList = [] ∨ ¬ (padded width n).toList.all (Numeral.isDigit 10) = true) := by
    rintro (hnil | hnot)
    · rw [hnil] at hlength
      simp only [List.length_nil] at hlength
      omega
    · exact hnot (List.all_eq_true.mpr hall)
  unfold parse_uint
  rw [if_neg hlong, hslice]
  split
  rename_i negative digits hsign
  split at hsign
  · rename_i rest hminus
    have hdash := hall '-' (by rw [hminus]; exact List.mem_cons_self)
    exact absurd hdash (by decide)
  · cases hsign
    simp only [hsome, if_false, hvalue, Bool.false_eq_true]

theorem getElem?_of_append (pre : List Char) {text post : List Char} {c : Char} {pos : Nat}
    (htext : text = pre ++ c :: post) (hpos : pre.length = pos) : text[pos]? = some c := by
  rw [htext, ← hpos]
  simp

/-- The text of a timestamp from its parts. -/
def isoText (y m d hh mm ss ns : Nat) : List Char :=
  (padded 4 y).toList ++ '-' :: ((padded 2 m).toList ++ '-' :: ((padded 2 d).toList ++
    'T' :: ((padded 2 hh).toList ++ ':' :: ((padded 2 mm).toList ++ ':' :: ((padded 2 ss).toList ++
      '.' :: ((padded 9 ns).toList ++ ['Z']))))))

theorem parse_fraction_padded {ns : Nat} (hns : ns < 10 ^ 9) :
    parse_fraction ((padded 9 ns).toList ++ ['Z']) = some (ns : Int) := by
  have hlength := padded_length (by decide) hns
  have hprinted : ∃ k, (padded 9 ns).toList = List.replicate k '0' ++ Nat.toDigits 10 ns :=
    ⟨9 - (toString ns).length, by simp [padded]⟩
  obtain ⟨k, hprinted⟩ := hprinted
  have hleading : Numeral.leading 10 ((padded 9 ns).toList ++ ['Z']) = (padded 9 ns).toList := by
    rw [hprinted]
    exact Numeral.leading_padded (by decide) (by decide) (by simp; decide)
  have hvalue : Numeral.ofDigits 10 (padded 9 ns).toList = ns := by
    rw [hprinted, Numeral.ofDigits_zeros, Numeral.ofDigits_toDigits (by decide) (by decide)]
  have htake : (padded 9 ns).toList.take 9 = (padded 9 ns).toList := List.take_of_length_le (by omega)
  have hdrop : ((padded 9 ns).toList ++ ['Z']).drop 9 = ['Z'] := List.drop_left' hlength
  have hne : (padded 9 ns).toList ≠ [] := by
    intro hnil
    simp [hnil] at hlength
  simp only [parse_fraction, hleading, htake, hvalue, hne, hlength, hdrop]
  simp

theorem parse_time_text {y m d hh mm ss ns : Nat} (hy : y < 10 ^ 4) (hm : m < 10 ^ 2) (hd : d < 10 ^ 2)
    (hhh : hh ≤ 23) (hmm : mm ≤ 59) (hss : ss ≤ 59) (hns : ns < 10 ^ 9) :
    parse_time (isoText y m d hh mm ss ns) =
      some (((hh : Int) * 3600 + mm * 60 + ss) * 1000000000 + ns) := by
  have hylen := padded_length (by decide) hy
  have hmlen := padded_length (by decide) hm
  have hdlen := padded_length (by decide) hd
  have hhlen : (padded 2 hh).toList.length = 2 := padded_length (by decide) (by omega)
  have hmmlen : (padded 2 mm).toList.length = 2 := padded_length (by decide) (by omega)
  have hslen : (padded 2 ss).toList.length = 2 := padded_length (by decide) (by omega)
  have hlong : ¬ (isoText y m d hh mm ss ns).length < 19 := by
    simp only [isoText, List.length_append, List.length_cons]
    omega
  have hT : (isoText y m d hh mm ss ns)[10]? = some 'T' :=
    getElem?_of_append ((padded 4 y).toList ++ '-' :: ((padded 2 m).toList ++ '-' :: (padded 2 d).toList))
      (by simp only [isoText, List.append_assoc, List.cons_append]; rfl) (by simp; omega)
  have hcolon : (isoText y m d hh mm ss ns)[13]? = some ':' :=
    getElem?_of_append ((padded 4 y).toList ++ '-' :: ((padded 2 m).toList ++
      '-' :: ((padded 2 d).toList ++ 'T' :: (padded 2 hh).toList)))
      (by simp only [isoText, List.append_assoc, List.cons_append]; rfl) (by simp; omega)
  have hcolon' : (isoText y m d hh mm ss ns)[16]? = some ':' :=
    getElem?_of_append ((padded 4 y).toList ++ '-' :: ((padded 2 m).toList ++
      '-' :: ((padded 2 d).toList ++ 'T' :: ((padded 2 hh).toList ++ ':' :: (padded 2 mm).toList))))
      (by simp only [isoText, List.append_assoc, List.cons_append]; rfl) (by simp; omega)
  have hpoint : (isoText y m d hh mm ss ns)[19]? = some '.' :=
    getElem?_of_append ((padded 4 y).toList ++ '-' :: ((padded 2 m).toList ++
      '-' :: ((padded 2 d).toList ++ 'T' :: ((padded 2 hh).toList ++ ':' :: ((padded 2 mm).toList ++
        ':' :: (padded 2 ss).toList)))))
      (by simp only [isoText, List.append_assoc, List.cons_append]; rfl) (by simp; omega)
  have hhour : parse_uint (isoText y m d hh mm ss ns) 11 2 = some (hh : Int) :=
    parse_uint_padded ((padded 4 y).toList ++ '-' :: ((padded 2 m).toList ++
      '-' :: ((padded 2 d).toList ++ ['T']))) (by decide) (by omega)
      (by simp only [isoText, List.append_assoc, List.cons_append, List.nil_append]; rfl) (by simp; omega)
  have hminute : parse_uint (isoText y m d hh mm ss ns) 14 2 = some (mm : Int) :=
    parse_uint_padded ((padded 4 y).toList ++ '-' :: ((padded 2 m).toList ++
      '-' :: ((padded 2 d).toList ++ 'T' :: ((padded 2 hh).toList ++ [':'])))) (by decide) (by omega)
      (by simp only [isoText, List.append_assoc, List.cons_append, List.nil_append]; rfl) (by simp; omega)
  have hsecond : parse_uint (isoText y m d hh mm ss ns) 17 2 = some (ss : Int) :=
    parse_uint_padded ((padded 4 y).toList ++ '-' :: ((padded 2 m).toList ++
      '-' :: ((padded 2 d).toList ++ 'T' :: ((padded 2 hh).toList ++ ':' :: ((padded 2 mm).toList ++ [':'])))))
      (by decide) (by omega)
      (by simp only [isoText, List.append_assoc, List.cons_append, List.nil_append]; rfl) (by simp; omega)
  have hrest : (isoText y m d hh mm ss ns).drop 20 = (padded 9 ns).toList ++ ['Z'] := by
    have hpre : isoText y m d hh mm ss ns = ((padded 4 y).toList ++ '-' :: ((padded 2 m).toList ++
        '-' :: ((padded 2 d).toList ++ 'T' :: ((padded 2 hh).toList ++ ':' :: ((padded 2 mm).toList ++
          ':' :: ((padded 2 ss).toList ++ ['.'])))))) ++ ((padded 9 ns).toList ++ ['Z']) := by
      simp only [isoText, List.append_assoc, List.cons_append, List.nil_append]
    rw [hpre]
    exact List.drop_left' (by simp; omega)
  have hrange : ¬ ((hh : Int) > 23 ∨ (mm : Int) > 59 ∨ (ss : Int) > 59) := by omega
  unfold parse_time
  rw [if_neg (by simp [hT]), if_neg hlong, if_neg (by simp [hcolon, hcolon'])]
  simp only [hhour, hminute, hsecond, hrange, if_false, hpoint, if_true, hrest, parse_fraction_padded hns,
    Option.map_some]

theorem parse_timestamp_text {y m d hh mm ss ns : Nat} (hy : y < 10 ^ 4) (hm : m < 10 ^ 2) (hd : d < 10 ^ 2)
    (hok : ymd_ok y m d = true) (hhh : hh ≤ 23) (hmm : mm ≤ 59) (hss : ss ≤ 59) (hns : ns < 10 ^ 9) :
    parse_timestamp (isoText y m d hh mm ss ns) =
      some (days_from_civil y m d * nanosPerDay +
        (((hh : Int) * 3600 + mm * 60 + ss) * 1000000000 + ns)) := by
  have hylen := padded_length (by decide) hy
  have hmlen := padded_length (by decide) hm
  have hdlen := padded_length (by decide) hd
  have hlong : 10 < (isoText y m d hh mm ss ns).length := by
    simp only [isoText, List.length_append, List.length_cons]
    omega
  have hdash : (isoText y m d hh mm ss ns)[4]? = some '-' :=
    getElem?_of_append ((padded 4 y).toList) (by rw [isoText]) hylen
  have hdash' : (isoText y m d hh mm ss ns)[7]? = some '-' :=
    getElem?_of_append ((padded 4 y).toList ++ '-' :: (padded 2 m).toList)
      (by simp only [isoText, List.append_assoc, List.cons_append]; rfl) (by simp; omega)
  have hyear : parse_uint (isoText y m d hh mm ss ns) 0 4 = some (y : Int) :=
    parse_uint_padded [] (by decide) hy (by rw [isoText, List.nil_append]) List.length_nil
  have hmonth : parse_uint (isoText y m d hh mm ss ns) 5 2 = some (m : Int) :=
    parse_uint_padded ((padded 4 y).toList ++ ['-']) (by decide) hm
      (by simp only [isoText, List.append_assoc, List.cons_append, List.nil_append]; rfl) (by simp; omega)
  have hday : parse_uint (isoText y m d hh mm ss ns) 8 2 = some (d : Int) :=
    parse_uint_padded ((padded 4 y).toList ++ '-' :: ((padded 2 m).toList ++ ['-'])) (by decide) hd
      (by simp only [isoText, List.append_assoc, List.cons_append, List.nil_append]; rfl) (by simp; omega)
  unfold parse_timestamp
  rw [if_neg (by omega), if_neg (by simp [hdash, hdash'])]
  simp only [hyear, hmonth, hday, hok, not_true_eq_false, if_false, Int.toNat_natCast,
    show ¬ (isoText y m d hh mm ss ns).length ≤ 10 by omega, parse_time_text hy hm hd hhh hmm hss hns,
    Option.map_some]

theorem ymd_ok_bounds {year month day : Int} (hok : ymd_ok year month day = true) :
    1 ≤ month ∧ month ≤ 12 ∧ 1 ≤ day ∧ day ≤ 31 := by
  unfold ymd_ok last_day at hok
  rw [decide_eq_true_eq] at hok
  obtain ⟨hfirst, hlast, hday, hend⟩ := hok
  refine ⟨hfirst, hlast, hday, hend.trans ?_⟩
  split
  · split <;> decide
  · split <;> decide

/-- Every timestamp of 64 bits is read back from its text. -/
theorem parse_timestamp_to_iso8601 {ts : Int} (hlow : -2 ^ 63 ≤ ts) (hhigh : ts < 2 ^ 63) :
    parse_timestamp (to_iso8601 ts).toList = some ts := by
  have hday : ts.fdiv (86400 * 1000000000) = ts / 86400000000000 :=
    Int.fdiv_eq_ediv_of_nonneg _ (by decide)
  have htext : (to_iso8601 ts).toList =
      isoText (civil_from_days (ts / 86400000000000)).1.toNat
        (civil_from_days (ts / 86400000000000)).2.1 (civil_from_days (ts / 86400000000000)).2.2
        ((ts - ts / 86400000000000 * 86400000000000).toNat / 1000000000 / 3600)
        ((ts - ts / 86400000000000 * 86400000000000).toNat / 1000000000 / 60 % 60)
        ((ts - ts / 86400000000000 * 86400000000000).toNat / 1000000000 % 60)
        ((ts - ts / 86400000000000 * 86400000000000).toNat % 1000000000) := by
    simp only [to_iso8601, hday]
    simp [isoText]
  obtain ⟨since, hlt, hsince, hts⟩ : ∃ since : Nat, since < 86400000000000 ∧
      (ts - ts / 86400000000000 * 86400000000000).toNat = since ∧
      ts = ts / 86400000000000 * 86400000000000 + since := by
    refine ⟨_, ?_, rfl, ?_⟩ <;> omega
  have hlowday : -106752 ≤ ts / 86400000000000 := by omega
  have hhighday : ts / 86400000000000 ≤ 106751 := by omega
  rw [htext, hsince]
  generalize ts / 86400000000000 = day at hts hlowday hhighday
  obtain ⟨hback, hok⟩ := days_from_civil_from_days day
  obtain ⟨hyear, hfour⟩ := civil_year_range hlowday hhighday
  have hcast : ((civil_from_days day).1.toNat : Int) = (civil_from_days day).1 := Int.toNat_of_nonneg hyear
  obtain ⟨-, hmonth, -, hdate⟩ := ymd_ok_bounds hok
  have hparsed := @parse_timestamp_text (civil_from_days day).1.toNat (civil_from_days day).2.1
    (civil_from_days day).2.2 (since / 1000000000 / 3600) (since / 1000000000 / 60 % 60)
    (since / 1000000000 % 60) (since % 1000000000)
    hfour (by omega) (by omega) (by rw [hcast]; exact hok) (by omega) (by omega) (by omega) (by omega)
  rw [hparsed, hcast, hback, nanosPerDay, Option.some.injEq, hts]
  omega

end ptl
