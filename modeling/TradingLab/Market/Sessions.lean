import Mathlib.Data.List.TakeWhile
import TradingLab.Core.Grammar
import TradingLab.Market.Calendar

/-! What a calendar answers about an instant, and how far its rules reach before an instant leaves
64 bits. -/

namespace ptl.market

/-! ### Lookup -/

/-- The trading days only. -/
def Calendar.open_ (c : Calendar) : List Session := c.all.filter Session.is_open

open Calendar

def Calendar.session_on (c : Calendar) (ts : Timestamp) : Option Session := c.find_by_date (utc_date_floor ts)

/-- The dates increase, so the first after a date is the one a binary search finds. -/
def Calendar.next_session (c : Calendar) (ts : Timestamp) : Option Session :=
  c.open_.find? fun s => utc_date_floor ts < s.date

/-- The one before the first that is not before the date. -/
def Calendar.previous_session (c : Calendar) (ts : Timestamp) : Option Session :=
  (c.open_.takeWhile fun s => s.date < utc_date_floor ts).getLast?

/-! ### Where the days of a year lie -/

theorem days_from_civil_from_march (y : Int) {m d : Nat} (hm : 3 ≤ m) (hd : 1 ≤ d) :
    days_from_civil y m d = days_from_civil y 3 1 + ((153 * (m - 3) + 2) / 5 + d - 1 : Nat) := by
  simp only [days_from_civil, if_neg (show ¬ m ≤ 2 by omega), if_pos (show m > 2 by omega)]
  norm_num
  omega

/-- March begins 306 days before a New Year and 59 or 60 after one. -/
theorem days_from_civil_march (y : Int) :
    days_from_civil (y + 1) 1 1 = days_from_civil y 3 1 + 306 ∧
      days_from_civil y 1 1 + 59 ≤ days_from_civil y 3 1 := by
  simp only [days_from_civil, Int.fdiv_eq_ediv_of_nonneg _ (by decide : (0 : Int) ≤ 400)]
  norm_num
  omega

theorem days_from_civil_winter (y : Int) {m d : Nat} (hm : 1 ≤ m ∧ m ≤ 2) (hd : 1 ≤ d) :
    days_from_civil y m d = days_from_civil y 1 1 + (31 * (m - 1) + d - 1 : Nat) := by
  obtain rfl | rfl : m = 1 ∨ m = 2 := by omega
  · simp only [days_from_civil]
    norm_num
    omega
  · simp only [days_from_civil]
    norm_num
    omega

/-- A day of a month lies in the year. -/
theorem days_from_civil_within (y : Int) {m d : Nat} (hm : 1 ≤ m ∧ m ≤ 12) (hd : 1 ≤ d ∧ d ≤ 31) :
    days_from_civil y 1 1 ≤ days_from_civil y m d ∧ days_from_civil y m d < days_from_civil (y + 1) 1 1 := by
  obtain ⟨hnext, hmarch⟩ := days_from_civil_march y
  by_cases hlate : 3 ≤ m
  · rw [days_from_civil_from_march y hlate hd.1]
    omega
  · rw [days_from_civil_winter y (by omega) hd.1]
    omega

/-- From one New Year to the next. -/
def InYear (y : Int) (ts : Timestamp) : Prop := from_ymd y 1 1 ≤ ts ∧ ts < from_ymd (y + 1) 1 1

theorem from_ymd_within (y : Int) {m d : Nat} (hm : 1 ≤ m ∧ m ≤ 12) (hd : 1 ≤ d ∧ d ≤ 31) :
    InYear y (from_ymd y m d) := by
  obtain ⟨hafter, hbefore⟩ := days_from_civil_within y hm hd
  exact ⟨Int.mul_le_mul_of_nonneg_right hafter (by decide), Int.mul_lt_mul_of_pos_right hbefore (by decide)⟩

theorem InYear.unique {y y' : Int} {ts : Timestamp} (h : InYear y ts) (h' : InYear y' ts) : y = y' := by
  have hordered : ∀ {a b : Int}, InYear a ts → InYear b ts → ¬ a < b := fun {a b} ha hb hless => by
    have hyears : from_ymd (a + 1) 1 1 ≤ from_ymd b 1 1 :=
      Int.mul_le_mul_of_nonneg_right (new_year_le (by omega)) (by decide)
    exact absurd (hyears.trans hb.1) (not_le.mpr ha.2)
  exact le_antisymm (not_lt.mp (hordered h' h)) (not_lt.mp (hordered h h'))

/-- The year of a date is the one it lies in. -/
theorem year_of_eq {y : Int} {k : Int} (hyear : InYear y (k * nanosPerDay)) : year_of (k * nanosPerDay) = y := by
  have hday : (k * nanosPerDay).fdiv nanosPerDay = k := Int.mul_fdiv_cancel k (by decide)
  obtain ⟨hdays, hok⟩ := days_from_civil_from_days k
  rw [year_of, hday]
  simp only [ymd_ok, Bool.decide_and, Bool.and_eq_true, decide_eq_true_eq] at hok
  obtain ⟨hm, hm', hd, hd'⟩ := hok
  have hlast : last_day (civil_from_days k).1 (civil_from_days k).2.1 ≤ 31 := by
    unfold last_day
    split_ifs <;> decide
  have hwithin := from_ymd_within (civil_from_days k).1 (m := (civil_from_days k).2.1)
    (d := (civil_from_days k).2.2) (by omega) (by omega)
  rw [from_ymd, hdays] at hwithin
  exact hwithin.unique hyear

/-! ### Where the holidays of a year lie -/

theorem iso_weekday_range (ts : Timestamp) : 1 ≤ iso_weekday ts ∧ iso_weekday ts ≤ 7 := by
  have hmod : (ts.fdiv nanosPerDay + 3).emod 7 = (ts.fdiv nanosPerDay + 3) % 7 := rfl
  rw [iso_weekday, hmod]
  omega

theorem nth_weekday_within (y : Int) {m w : Nat} (hm : 1 ≤ m ∧ m ≤ 12) (hw : 1 ≤ w ∧ w ≤ 7) {n : Int}
    (hn : n = -1 ∨ (1 ≤ n ∧ n ≤ 4)) : InYear y (nth_weekday y m w n) := by
  unfold nth_weekday
  dsimp only
  split
  · refine from_ymd_within y hm ?_
    have hfirst := iso_weekday_range (from_ymd y m 1)
    omega
  · refine from_ymd_within y hm ?_
    have hlast := iso_weekday_range (from_ymd y m (last_day y m).toNat)
    have hdays : 28 ≤ last_day y m ∧ last_day y m ≤ 31 := by
      unfold last_day
      split_ifs <;> decide
    omega

theorem observed_holiday_cases (actual : Timestamp) :
    observed_holiday actual = actual ∨ observed_holiday actual = actual - days 1 ∨
      observed_holiday actual = actual + days 1 := by
  unfold observed_holiday
  split_ifs <;> simp

/-- Easter is in March or April. -/
theorem easter_sunday_eq {y : Int} (hy : 0 ≤ y) :
    ∃ m d : Nat, (m = 3 ∨ m = 4) ∧ (1 ≤ d ∧ d ≤ 31) ∧ easter_sunday y = from_ymd y m d := by
  unfold easter_sunday
  dsimp only
  have ha := Int.tmod_eq_emod_of_nonneg (b := 19) hy
  have hb := Int.tdiv_eq_ediv_of_nonneg (b := 100) hy
  have hc := Int.tmod_eq_emod_of_nonneg (b := 100) hy
  rw [ha, hb, hc]
  generalize haa : y % 19 = a
  generalize hbb : y / 100 = b
  generalize hcc : y % 100 = c
  have hb0 : 0 ≤ b := by omega
  have hc0 : 0 ≤ c := by omega
  rw [Int.tdiv_eq_ediv_of_nonneg hb0, Int.tmod_eq_emod_of_nonneg hb0,
    Int.tdiv_eq_ediv_of_nonneg (show 0 ≤ b + 8 by omega), Int.tdiv_eq_ediv_of_nonneg hc0,
    Int.tmod_eq_emod_of_nonneg hc0,
    Int.tdiv_eq_ediv_of_nonneg (show 0 ≤ b - (b + 8) / 25 + 1 by omega),
    Int.tmod_eq_emod_of_nonneg (show 0 ≤ 19 * a + b - b / 4 - (b - (b + 8) / 25 + 1) / 3 + 15 by omega)]
  generalize hhh : (19 * a + b - b / 4 - (b - (b + 8) / 25 + 1) / 3 + 15) % 30 = h
  rw [Int.tmod_eq_emod_of_nonneg (show 0 ≤ 32 + 2 * (b % 4) + 2 * (c / 4) - h - c % 4 by omega)]
  generalize hll : (32 + 2 * (b % 4) + 2 * (c / 4) - h - c % 4) % 7 = l
  rw [Int.tdiv_eq_ediv_of_nonneg (show 0 ≤ a + 11 * h + 22 * l by omega)]
  generalize hmm : (a + 11 * h + 22 * l) / 451 = m
  rw [Int.tdiv_eq_ediv_of_nonneg (show 0 ≤ h + l - 7 * m + 114 by omega),
    Int.tmod_eq_emod_of_nonneg (show 0 ≤ h + l - 7 * m + 114 by omega)]
  exact ⟨_, _, by omega, by omega, rfl⟩

/-- A day from March on, moved by some days that do not leave the year. -/
theorem from_ymd_moved (y : Int) {m d : Nat} (hm : 3 ≤ m) (hd : 1 ≤ d) {k : Int}
    (hstays : -59 ≤ ((153 * (m - 3) + 2) / 5 + d - 1 : Nat) + k ∧ ((153 * (m - 3) + 2) / 5 + d - 1 : Nat) + k < 306) :
    InYear y (from_ymd y m d + days k) := by
  obtain ⟨hnext, hmarch⟩ := days_from_civil_march y
  have hday : 0 < nanosPerDay := by decide
  rw [from_ymd, days, ← Int.add_mul, days_from_civil_from_march y hm hd]
  refine ⟨Int.mul_le_mul_of_nonneg_right ?_ hday.le, Int.mul_lt_mul_of_pos_right ?_ hday⟩
  · omega
  · omega

theorem observed_within (y : Int) {m d : Nat} (hm : 3 ≤ m) (hd : 1 ≤ d)
    (hlate : (153 * (m - 3) + 2) / 5 + d < 306) : InYear y (observed_holiday (from_ymd y m d)) := by
  obtain heq | heq | heq := observed_holiday_cases (from_ymd y m d)
  · rw [heq, ← Int.add_zero (from_ymd y m d), ← Int.zero_mul nanosPerDay]
    exact from_ymd_moved y hm hd (by omega)
  · rw [heq, Int.sub_eq_add_neg, days, Int.neg_mul_eq_neg_mul]
    exact from_ymd_moved y hm hd (by omega)
  · rw [heq]
    exact from_ymd_moved y hm hd (by omega)

/-- A New Year's holiday is in its year, or the day before it. -/
theorem observed_new_year (y : Int) :
    InYear y (observed_holiday (from_ymd y 1 1)) ∨ observed_holiday (from_ymd y 1 1) = from_ymd y 1 1 - days 1 := by
  obtain heq | heq | heq := observed_holiday_cases (from_ymd y 1 1)
  · rw [heq]
    exact .inl (from_ymd_within y (by decide) (by decide))
  · exact .inr heq
  · rw [heq]
    have hsecond : from_ymd y 1 1 + days 1 = from_ymd y 1 2 := by
      rw [from_ymd, from_ymd, days, ← Int.add_mul, days_from_civil_winter y (m := 1) (d := 2) (by decide) (by decide)]
      rfl
    rw [hsecond]
    exact .inl (from_ymd_within y (by decide) (by decide))

theorem day_before_new_year (y : Int) : InYear y (from_ymd (y + 1) 1 1 - days 1) := by
  obtain ⟨hnext, hmarch⟩ := days_from_civil_march y
  have hday : 0 < nanosPerDay := by decide
  rw [from_ymd, days, ← Int.sub_mul]
  refine ⟨Int.mul_le_mul_of_nonneg_right ?_ hday.le, Int.mul_lt_mul_of_pos_right ?_ hday⟩
  · omega
  · omega

/-- The day before a New Year belongs to the old year. -/
theorem year_of_new_year (y : Int) :
    year_of (observed_holiday (from_ymd (y + 1) 1 1)) = y ↔
      observed_holiday (from_ymd (y + 1) 1 1) = from_ymd (y + 1) 1 1 - days 1 := by
  have hmultiple : ∃ k, observed_holiday (from_ymd (y + 1) 1 1) = k * nanosPerDay := by
    obtain heq | heq | heq := observed_holiday_cases (from_ymd (y + 1) 1 1)
    · exact ⟨_, heq⟩
    · exact ⟨days_from_civil (y + 1) 1 1 - 1, by rw [heq, from_ymd, days, Int.sub_mul]⟩
    · exact ⟨days_from_civil (y + 1) 1 1 + 1, by rw [heq, from_ymd, days, Int.add_mul]⟩
  obtain ⟨k, hk⟩ := hmultiple
  constructor
  · intro hyear
    obtain hnew | hbefore := observed_new_year (y + 1)
    · rw [hk] at hnew hyear
      rw [year_of_eq hnew] at hyear
      omega
    · exact hbefore
  · intro hbefore
    have hold := day_before_new_year y
    rw [← hbefore, hk] at hold
    rw [hk]
    exact year_of_eq hold

/-- The full holidays of a year are in it, but for a New Year's that is observed
the day before. -/
theorem full_holidays_within {y : Int} (hy : 0 ≤ y) {h : Timestamp} (hholiday : h ∈ full_holidays y) :
    InYear y h ∨ (h = observed_holiday (from_ymd y 1 1) ∧ h = from_ymd y 1 1 - days 1) := by
  unfold full_holidays at hholiday
  simp only [List.mem_append, List.mem_cons, List.not_mem_nil, or_false] at hholiday
  obtain ((((rfl | rfl | rfl | rfl | rfl) | hjune) | (rfl | rfl | rfl | rfl)) | hnext) := hholiday
  · exact (observed_new_year y).imp_right fun hbefore => ⟨rfl, hbefore⟩
  · exact .inl (nth_weekday_within y (by decide) (by decide) (by decide))
  · exact .inl (nth_weekday_within y (by decide) (by decide) (by decide))
  · obtain ⟨m, d, hm, hd, heaster⟩ := easter_sunday_eq hy
    rw [heaster, Int.sub_eq_add_neg, days, Int.neg_mul_eq_neg_mul]
    exact .inl (from_ymd_moved y (by omega) hd.1 (by omega))
  · exact .inl (nth_weekday_within y (by decide) (by decide) (by decide))
  · split at hjune
    · rw [List.mem_singleton.mp hjune]
      exact .inl (observed_within y (by decide) (by decide) (by decide))
    · cases hjune
  · exact .inl (observed_within y (by decide) (by decide) (by decide))
  · exact .inl (nth_weekday_within y (by decide) (by decide) (by decide))
  · exact .inl (nth_weekday_within y (by decide) (by decide) (by decide))
  · exact .inl (observed_within y (by decide) (by decide) (by decide))
  · split at hnext
    · rename_i hyear
      rw [List.mem_singleton.mp hnext, (year_of_new_year y).mp hyear]
      exact .inl (day_before_new_year y)
    · cases hnext

/-- A holiday that falls in a year is one the year's own list has. -/
theorem mem_full_holidays {y y' : Int} (hy' : 0 ≤ y') {h : Timestamp} (hholiday : h ∈ full_holidays y')
    (hyear : InYear y h) : h ∈ full_holidays y := by
  obtain hown | ⟨hnext, hbefore⟩ := full_holidays_within hy' hholiday
  · rwa [hyear.unique hown]
  · have hold := day_before_new_year (y' - 1)
    rw [Int.sub_add_cancel, ← hbefore] at hold
    obtain rfl : y = y' - 1 := hyear.unique hold
    have hyear_of := (year_of_new_year (y' - 1)).mpr (by rw [Int.sub_add_cancel, ← hbefore, hnext])
    unfold full_holidays
    simp only [List.mem_append]
    refine .inr ?_
    rw [if_pos hyear_of, Int.sub_add_cancel, hnext]
    exact List.mem_singleton_self _

/-! ### The law of a lookup -/

/-- Times within one day and sessions under 23 hours, at a distance from UTC that
changes by an hour at most. -/
structure CalendarSpec.Sound (spec : CalendarSpec) : Prop where
  opens : 0 ≤ spec.regular_open ∧ spec.regular_open ≤ hours 24
  closes : spec.regular_close ≤ hours 24 ∧ spec.half_day_close ≤ hours 24
  short : spec.regular_close - spec.regular_open < hours 23 ∧ spec.half_day_close - spec.regular_open < hours 23
  standard : -14 ≤ spec.standard_utc_offset_hours ∧ spec.standard_utc_offset_hours ≤ 14
  daylight : -14 ≤ spec.daylight_utc_offset_hours ∧ spec.daylight_utc_offset_hours ≤ 14
  near : |spec.standard_utc_offset_hours - spec.daylight_utc_offset_hours| ≤ 1

/-- A Saturday, a Sunday, or a holiday of some year. -/
def NonTrading (d : Timestamp) : Prop := iso_weekday d ≥ kSaturday ∨ ∃ y : Int, 0 ≤ y ∧ d ∈ full_holidays y

structure Calendar.Lawful (c : Calendar) (spec : CalendarSpec) (ts : Timestamp) : Prop where
  increasing : c.all.Pairwise fun s t => s.date < t.date
  disjoint : c.open_.Pairwise fun s t => ∀ instant, ¬ ((s.open_ ≤ instant ∧ instant < s.close) ∧
    t.open_ ≤ instant ∧ instant < t.close)
  containing : ∀ s, c.session_containing ts = some s ↔ s ∈ c.all ∧ s.contains ts = true
  next : ∀ s, c.next_session ts = some s ↔
    s ∈ c.open_ ∧ utc_date_floor ts < s.date ∧ ∀ t ∈ c.open_, utc_date_floor ts < t.date → s.date ≤ t.date
  previous : ∀ s, c.previous_session ts = some s ↔
    s ∈ c.open_ ∧ s.date < utc_date_floor ts ∧ ∀ t ∈ c.open_, t.date < utc_date_floor ts → t.date ≤ s.date
  closed : ∀ s ∈ c.all, NonTrading s.date → (∀ e ∈ spec.exceptions, utc_date_floor e.date ≠ s.date) →
    s.is_open = false

theorem hours_le {a b : Int} (hle : a ≤ b) : hours a ≤ hours b := Int.mul_le_mul_of_nonneg_right hle (by decide)

theorem CalendarSpec.to_utc_cases (spec : CalendarSpec) (y : Int) (d : Timestamp) :
    ∃ o, spec.to_utc y d = -hours o ∧ (o = spec.daylight_utc_offset_hours ∨ o = spec.standard_utc_offset_hours) := by
  unfold CalendarSpec.to_utc
  split_ifs
  · exact ⟨_, rfl, .inl rfl⟩
  · exact ⟨_, rfl, .inr rfl⟩

/-- Of the two distances the larger gives the earliest opening and the smaller the
latest close. -/
theorem CalendarSpec.Sound.orderly {spec : CalendarSpec} (hsound : spec.Sound) {first_year last_year : Int}
    {c : Calendar} (hbuild : build spec first_year last_year = .ok c) : c.Orderly := by
  obtain ⟨⟨hopen, -⟩, ⟨hclose, hhalf⟩, ⟨hshort, hshort'⟩, ⟨hlow, hhigh⟩, ⟨hlow', hhigh'⟩, hnear⟩ := hsound
  obtain ⟨hi, hhi⟩ : ∃ hi, hi = max spec.standard_utc_offset_hours spec.daylight_utc_offset_hours := ⟨_, rfl⟩
  obtain ⟨lo, hlo⟩ : ∃ lo, lo = min spec.standard_utc_offset_hours spec.daylight_utc_offset_hours := ⟨_, rfl⟩
  obtain ⟨close, hcloses⟩ : ∃ close, close = max spec.regular_close spec.half_day_close := ⟨_, rfl⟩
  have hlast : close ≤ hours 24 ∧ close - spec.regular_open < hours 23 := by
    obtain heq | heq := max_choice spec.regular_close spec.half_day_close
    · rw [hcloses, heq]
      exact ⟨hclose, hshort⟩
    · rw [hcloses, heq]
      exact ⟨hhalf, hshort'⟩
  have hbounds : hi ≤ 14 ∧ -14 ≤ lo ∧ hi ≤ lo + 1 := by
    rw [abs_le] at hnear
    omega
  have hearliest : hours hi ≤ hours 14 := hours_le hbounds.1
  have hlatest : hours (-14) ≤ hours lo := hours_le hbounds.2.1
  have hspread : hours hi ≤ hours lo + hours 1 := by
    rw [hours, hours, hours, ← Int.add_mul]
    exact hours_le hbounds.2.2
  have hwithin : spec.Within (spec.regular_open - hours hi) (close - hours lo) := by
    intro y d
    obtain ⟨o, hto_utc, hcases⟩ := spec.to_utc_cases y d
    have ho : lo ≤ o ∧ o ≤ hi := by omega
    have hregular := le_max_left spec.regular_close spec.half_day_close
    have hhalf_day := le_max_right spec.regular_close spec.half_day_close
    rw [hto_utc]
    have hleast := hours_le ho.1
    have hmost := hours_le ho.2
    rw [← hcloses] at hregular hhalf_day
    exact ⟨by linarith, by linarith, by linarith⟩
  refine hwithin.orderly ⟨?_, ?_⟩ ?_ hbuild
  · have : -days 1 ≤ -hours 14 := by decide
    linarith
  · have : hours 24 - hours (-14) ≤ days 2 := by decide
    linarith
  · have : hours 23 + hours 1 = days 1 := by decide
    linarith

section Lookup

variable {c : Calendar} {s t : Session} {ts : Timestamp}

theorem Calendar.mem_open : s ∈ c.open_ ↔ s ∈ c.all ∧ s.is_open = true := List.mem_filter

theorem Calendar.open_increasing (c : Calendar) : c.open_.Pairwise fun s t => s.date < t.date :=
  c.increasing.sublist List.filter_sublist

/-- A date is one session. -/
theorem Calendar.open_unique (hs : s ∈ c.open_) (ht : t ∈ c.open_) (hdate : s.date = t.date) : s = t := by
  have hfound := c.find_by_date_mem (mem_open.mp hs).1
  rw [hdate, c.find_by_date_mem (mem_open.mp ht).1] at hfound
  exact (Option.some.inj hfound).symm

theorem Calendar.next_session_iff : c.next_session ts = some s ↔
    s ∈ c.open_ ∧ utc_date_floor ts < s.date ∧ ∀ t ∈ c.open_, utc_date_floor ts < t.date → s.date ≤ t.date := by
  have hfound : ∀ s, c.next_session ts = some s →
      s ∈ c.open_ ∧ utc_date_floor ts < s.date ∧ ∀ t ∈ c.open_, utc_date_floor ts < t.date → s.date ≤ t.date := by
    intro s hs
    obtain ⟨hafter, before, rest, hsplit, hnone⟩ := List.find?_eq_some_iff_append.mp hs
    have hincreasing := c.open_increasing
    rw [hsplit, List.pairwise_append, List.pairwise_cons] at hincreasing
    refine ⟨List.mem_of_find?_eq_some hs, by simpa using hafter, fun t ht hlater => ?_⟩
    rw [hsplit, List.mem_append, List.mem_cons] at ht
    obtain ht | rfl | ht := ht
    · have hnot := hnone t ht
      simp only [Bool.not_eq_eq_eq_not, Bool.not_true, decide_eq_false_iff_not] at hnot
      exact absurd hlater hnot
    · exact le_rfl
    · exact (hincreasing.2.1.1 t ht).le
  refine ⟨hfound s, fun ⟨hs, hafter, hleast⟩ => ?_⟩
  have hsome : (c.next_session ts).isSome = true := List.find?_isSome.mpr ⟨s, hs, by simpa using hafter⟩
  obtain ⟨t, ht⟩ := Option.isSome_iff_exists.mp hsome
  obtain ⟨hmem, hafter', hleast'⟩ := hfound t ht
  rw [ht, open_unique hmem hs (le_antisymm (hleast' s hs hafter) (hleast t hmem hafter'))]

/-- On a sorted list the sessions before a date come first. -/
theorem Calendar.mem_takeWhile_open {d : Timestamp} :
    s ∈ c.open_.takeWhile (fun s => s.date < d) ↔ s ∈ c.open_ ∧ s.date < d := by
  constructor
  · intro hs
    exact ⟨List.takeWhile_subset _ hs, by simpa using List.mem_takeWhile_imp hs⟩
  · rintro ⟨hs, hbefore⟩
    have hincreasing := c.open_increasing
    rw [← List.takeWhile_append_dropWhile (p := fun s : Session => decide (s.date < d)) (l := c.open_)]
      at hs hincreasing
    obtain hs | hs := List.mem_append.mp hs
    · exact hs
    · -- the first session dropped is not before the date, and the others are after it
      cases hdropped : c.open_.dropWhile fun s => decide (s.date < d) with
      | nil =>
        rw [hdropped] at hs
        cases hs
      | cons t rest =>
        have hnot := List.head?_dropWhile_not (fun s : Session => decide (s.date < d)) c.open_
        rw [hdropped] at hnot hs hincreasing
        simp only [List.head?_cons, decide_eq_false_iff_not] at hnot
        obtain rfl | hs := List.mem_cons.mp hs
        · exact absurd hbefore hnot
        · have hlater := (List.pairwise_cons.mp (List.pairwise_append.mp hincreasing).2.1).1 s hs
          exact absurd (hlater.trans hbefore) hnot

theorem Calendar.previous_session_iff : c.previous_session ts = some s ↔
    s ∈ c.open_ ∧ s.date < utc_date_floor ts ∧ ∀ t ∈ c.open_, t.date < utc_date_floor ts → t.date ≤ s.date := by
  have hfound : ∀ s, c.previous_session ts = some s →
      s ∈ c.open_ ∧ s.date < utc_date_floor ts ∧ ∀ t ∈ c.open_, t.date < utc_date_floor ts → t.date ≤ s.date := by
    intro s hs
    obtain ⟨before, hsplit⟩ := List.getLast?_eq_some_iff.mp hs
    have hincreasing := c.open_increasing.sublist (List.takeWhile_sublist fun s => decide (s.date < utc_date_floor ts))
    obtain ⟨hmem, hbefore⟩ := mem_takeWhile_open.mp (List.mem_of_getLast? hs)
    refine ⟨hmem, hbefore, fun t ht hearlier => ?_⟩
    have hin := mem_takeWhile_open.mpr ⟨ht, hearlier⟩
    rw [hsplit] at hin hincreasing
    obtain hin | hin := List.mem_append.mp hin
    · exact ((List.pairwise_append.mp hincreasing).2.2 t hin s (List.mem_singleton_self s)).le
    · rw [List.mem_singleton.mp hin]
  refine ⟨hfound s, fun ⟨hs, hbefore, hgreatest⟩ => ?_⟩
  have hne : c.open_.takeWhile (fun s => s.date < utc_date_floor ts) ≠ [] :=
    List.ne_nil_of_mem (mem_takeWhile_open.mpr ⟨hs, hbefore⟩)
  obtain ⟨t, ht⟩ : ∃ t, c.previous_session ts = some t := ⟨_, List.getLast?_eq_some_getLast hne⟩
  obtain ⟨hmem, hbefore', hgreatest'⟩ := hfound t ht
  rw [ht, open_unique hmem hs (le_antisymm (hgreatest t hmem hbefore') (hgreatest' s hs hbefore))]

end Lookup

section Law

variable {spec : CalendarSpec} {first_year last_year : Int} {c : Calendar}

theorem Calendar.build_range (hbuild : build spec first_year last_year = .ok c) :
    first_year ≤ last_year ∧ 2008 ≤ first_year ∧ spec.regular_open < spec.regular_close ∧
      spec.regular_open < spec.half_day_close := by
  unfold build at hbuild
  split_ifs at hbuild with hyears hfirst hcloses
  rw [not_or, not_le, not_le] at hcloses
  exact ⟨not_lt.mp hyears, not_lt.mp hfirst, hcloses⟩

/-- A session is that of a date of some year of the range. -/
theorem Calendar.build_session (hbuild : build spec first_year last_year = .ok c) {s : Session}
    (hs : s ∈ c.all) : ∃ y, first_year ≤ y ∧ y ≤ last_year ∧ InYear y s.date ∧
      s = spec.session_of y (spec.kind_of (full_holidays y) (half_days y (full_holidays y)) s.date) s.date := by
  rw [build_all hbuild] at hs
  obtain ⟨y, hy, hs⟩ := List.mem_flatMap.mp hs
  obtain ⟨k, hk, rfl⟩ := List.mem_map.mp hy
  rw [List.mem_range] at hk
  obtain ⟨d, hd, rfl⟩ := List.mem_map.mp hs
  refine ⟨first_year + k, by omega, by omega, ?_, ?_⟩
  · rw [CalendarSpec.session_of_date]
    exact (mem_dates_of_year hd).2
  · rw [CalendarSpec.session_of_date]

/-- No rule opens a weekend or a holiday. -/
theorem Calendar.build_closed (hbuild : build spec first_year last_year = .ok c) {s : Session}
    (hs : s ∈ c.all) (hrest : NonTrading s.date)
    (hrules : ∀ e ∈ spec.exceptions, utc_date_floor e.date ≠ s.date) : s.is_open = false := by
  obtain ⟨y, -, -, hyear, hsession⟩ := build_session hbuild hs
  have hclosed : iso_weekday s.date ≥ kSaturday ∨ s.date ∈ full_holidays y :=
    hrest.imp_right fun ⟨y', hy', hholiday⟩ => mem_full_holidays hy' hholiday hyear
  have hnone : (spec.exceptions.find? fun e => utc_date_floor e.date = s.date) = none :=
    List.find?_eq_none.mpr fun e he => by simpa using hrules e he
  rw [hsession, CalendarSpec.kind_of, hnone]
  simp only [if_pos hclosed]
  rfl

theorem Calendar.lawful (hsound : spec.Sound) (hbuild : build spec first_year last_year = .ok c)
    (ts : Timestamp) : c.Lawful spec ts := by
  have horderly := hsound.orderly hbuild
  refine ⟨c.increasing, ?_, fun s => horderly.session_containing_iff, fun s => next_session_iff,
    fun s => previous_session_iff, fun s hs => build_closed hbuild hs⟩
  refine c.open_increasing.imp_of_mem fun {s t} hs ht hless => ?_
  obtain ⟨hs, hopen⟩ := mem_open.mp hs
  obtain ⟨ht, hopen'⟩ := mem_open.mp ht
  have hover := horderly.follow s hs t ht hopen hopen' hless
  exact fun instant ⟨hin, hin'⟩ => absurd (hover.trans hin'.1) (not_le.mpr hin.2)

end Law

/-! ### How far 64 bits reach -/

/-- The instants that building a year computes. -/
def CalendarSpec.instants_of_year (spec : CalendarSpec) (y : Int) : List Timestamp :=
  [from_ymd y 1 1, from_ymd (y + 1) 1 1, easter_sunday y, from_ymd y 6 19, from_ymd y 7 3, from_ymd y 7 4,
    from_ymd y 12 24, from_ymd y 12 25, nth_weekday y 3 kSunday 2, nth_weekday y 11 kSunday 1,
    observed_holiday (from_ymd (y + 1) 1 1)] ++
  full_holidays y ++ half_days y (full_holidays y) ++
  (spec.sessions_of_year y).flatMap fun s => [s.date, s.open_, s.close]

def CalendarSpec.instants (spec : CalendarSpec) (first_year last_year : Int) : List Timestamp :=
  (spec.exceptions.map fun e => utc_date_floor e.date) ++
    ((List.range (last_year + 1 - first_year).toNat).map fun k : Nat => first_year + k).flatMap
      spec.instants_of_year

/-- The dates that a lookup of an instant computes. -/
def lookups (ts : Timestamp) : List Timestamp :=
  [utc_date_floor ts + days (-1), utc_date_floor ts, utc_date_floor ts + days 1]

/-- Nothing overflows, neither while the calendar is built nor in a lookup. -/
def CalendarSpec.Fits (spec : CalendarSpec) (first_year last_year : Int) (ts : Timestamp) : Prop :=
  (∀ t ∈ spec.instants first_year last_year, representable t) ∧ ∀ t ∈ lookups ts, representable t

/-- The last year whose end 64 bits reach. -/
def lastYear : Int := 2261

/-- The range ends in time, and no exception and no lookup is at the ends of the
clock: the first midnight that 64 bits reach is 106751 days before the epoch, and the
last as many after it. -/
structure CalendarSpec.InRange (spec : CalendarSpec) (last_year : Int) (ts : Timestamp) : Prop where
  years : last_year ≤ lastYear
  exceptions : ∀ e ∈ spec.exceptions, days (-106751) ≤ e.date
  lookup : days (-106750) ≤ ts ∧ ts < days 106751

section Range

variable {y : Int} {t : Timestamp}

theorem representable_days (k : Int) : representable (k * nanosPerDay) ↔ -106751 ≤ k ∧ k ≤ 106751 := by
  unfold representable nanosPerDay
  omega

theorem representable_floor (ht : representable t) : representable (utc_date_floor t) ↔ days (-106751) ≤ t := by
  have hreach : days (-106751) ≤ t ↔ (-106751 * (86400 * 1000000000) : Int) ≤ t := Iff.rfl
  rw [utc_date_floor, representable_days, hreach, Int.fdiv_eq_ediv_of_nonneg _ (by decide)]
  unfold representable at ht
  unfold nanosPerDay
  omega

theorem lookups_representable_iff (ht : representable t) :
    (∀ d ∈ lookups t, representable d) ↔ days (-106750) ≤ t ∧ t < days 106751 := by
  have hreach : (days (-106750) ≤ t ∧ t < days 106751) ↔
      ((-106750 * (86400 * 1000000000) : Int) ≤ t ∧ ¬ (106751 * (86400 * 1000000000) : Int) ≤ t) :=
    and_congr_right' not_le.symm
  rw [hreach]
  simp only [lookups, List.forall_mem_cons, List.not_mem_nil, false_imp_iff, implies_true, and_true, utc_date_floor,
    days, ← Int.add_mul, representable_days]
  rw [Int.fdiv_eq_ediv_of_nonneg _ (by decide)]
  unfold representable at ht
  unfold nanosPerDay
  omega

/-- Two days about the years that are built. -/
theorem representable_near (hfirst : 2008 ≤ y) (hlast : y ≤ lastYear)
    (hnear : from_ymd y 1 1 - days 2 ≤ t ∧ t ≤ from_ymd (y + 1) 1 1 + days 2) : representable t := by
  have hafter : from_ymd 2008 1 1 ≤ from_ymd y 1 1 :=
    Int.mul_le_mul_of_nonneg_right (new_year_le hfirst) (by decide)
  have hbefore : from_ymd (y + 1) 1 1 ≤ from_ymd 2262 1 1 :=
    Int.mul_le_mul_of_nonneg_right (new_year_le (by unfold lastYear at hlast; omega)) (by decide)
  have hstart : -2 ^ 63 ≤ from_ymd 2008 1 1 - days 2 := by decide
  have hend : from_ymd 2262 1 1 + days 2 < 2 ^ 63 := by decide
  exact ⟨by linarith, by linarith⟩

theorem representable_in_year (hfirst : 2008 ≤ y) (hlast : y ≤ lastYear) (hyear : InYear y t) : representable t := by
  refine representable_near hfirst hlast ⟨?_, ?_⟩
  · exact (Int.sub_le_self _ (by decide)).trans hyear.1
  · exact hyear.2.le.trans (Int.le_add_of_nonneg_right (by decide))

theorem half_days_within {closed : List Timestamp} (hhalf : t ∈ half_days y closed) :
    InYear y t ∨ InYear y (t - days 1) := by
  unfold half_days at hhalf
  simp only [List.mem_append, List.mem_singleton] at hhalf
  obtain (hjuly | rfl) | hdecember := hhalf
  · split at hjuly
    · rw [List.mem_singleton.mp hjuly]
      exact .inl (from_ymd_within y (by decide) (by decide))
    · cases hjuly
  · rw [Int.add_sub_cancel]
    exact .inr (nth_weekday_within y (by decide) (by decide) (by decide))
  · split at hdecember
    · rw [List.mem_singleton.mp hdecember]
      exact .inl (from_ymd_within y (by decide) (by decide))
    · cases hdecember

/-- A session opens and closes less than two days from its date. -/
theorem CalendarSpec.Sound.session_near {spec : CalendarSpec} (hsound : spec.Sound)
    (hcloses : spec.regular_open < spec.regular_close ∧ spec.regular_open < spec.half_day_close) (kind : SessionKind)
    (d : Timestamp) (hopen : (spec.session_of y kind d).is_open = true) :
    (d - days 2 ≤ (spec.session_of y kind d).open_ ∧ (spec.session_of y kind d).open_ ≤ d + days 2) ∧
      d - days 2 ≤ (spec.session_of y kind d).close ∧ (spec.session_of y kind d).close ≤ d + days 2 := by
  have htrading : kind ≠ .Closed := by
    rintro rfl
    cases hopen
  have hzone : hours (-14) ≤ -spec.to_utc y d ∧ -spec.to_utc y d ≤ hours 14 := by
    obtain ⟨o, hto_utc, hcases⟩ := spec.to_utc_cases y d
    obtain ⟨-, -, -, hstandard, hdaylight, -⟩ := hsound
    rw [hto_utc, Int.neg_neg]
    exact ⟨hours_le (by omega), hours_le (by omega)⟩
  have hclose : 0 ≤ (if kind = .HalfDay then spec.half_day_close else spec.regular_close) ∧
      (if kind = .HalfDay then spec.half_day_close else spec.regular_close) ≤ hours 24 := by
    split
    · exact ⟨hsound.opens.1.trans hcloses.2.le, hsound.closes.2⟩
    · exact ⟨hsound.opens.1.trans hcloses.1.le, hsound.closes.1⟩
  have hday : hours 24 - hours (-14) ≤ days 2 ∧ hours 14 ≤ days 2 := by decide
  have hopens := hsound.opens
  rw [CalendarSpec.session_of, if_neg htrading]
  exact ⟨⟨by linarith, by linarith⟩, by linarith, by linarith⟩

/-- A date is in its year, and the times of its session are near it. -/
theorem CalendarSpec.Sound.session_representable {spec : CalendarSpec} (hsound : spec.Sound)
    (hcloses : spec.regular_open < spec.regular_close ∧ spec.regular_open < spec.half_day_close)
    (hfirst : 2008 ≤ y) (hlast : y ≤ lastYear) {s : Session} (hs : s ∈ spec.sessions_of_year y)
    (hsession : t ∈ [s.date, s.open_, s.close]) : representable t := by
  obtain ⟨hdate, kind, heq⟩ := CalendarSpec.mem_sessions_of_year hs
  have hyear : InYear y s.date := (mem_dates_of_year hdate).2
  have habout {t : Timestamp} (hnear : s.date - days 2 ≤ t ∧ t ≤ s.date + days 2) : representable t :=
    representable_near hfirst hlast ⟨by linarith [hyear.1], by linarith [hyear.2]⟩
  have hin : representable s.date := representable_in_year hfirst hlast hyear
  simp only [List.mem_cons, List.not_mem_nil, or_false] at hsession
  by_cases hopen : s.is_open = true
  · have hnear := hsound.session_near hcloses (y := y) kind s.date (heq ▸ hopen)
    rw [← heq] at hnear
    obtain rfl | rfl | rfl := hsession
    · exact hin
    · exact habout hnear.1
    · exact habout hnear.2
  · -- a closed session has no times
    have hclosed : kind = .Closed := by
      by_contra htrading
      rw [heq, CalendarSpec.session_of, if_neg htrading] at hopen
      exact hopen (by simpa [Session.is_open] using htrading)
    have hunset : s.open_ = kNoTimestamp ∧ s.close = kNoTimestamp := by
      rw [heq, CalendarSpec.session_of, if_pos hclosed]
      exact ⟨rfl, rfl⟩
    have hfits : representable kNoTimestamp := ⟨le_rfl, by decide⟩
    obtain rfl | rfl | rfl := hsession
    · exact hin
    · rwa [hunset.1]
    · rwa [hunset.2]

/-- What building a year computes is near the year. -/
theorem instants_of_year_representable {spec : CalendarSpec} (hsound : spec.Sound)
    (hcloses : spec.regular_open < spec.regular_close ∧ spec.regular_open < spec.half_day_close)
    (hfirst : 2008 ≤ y) (hlast : y ≤ lastYear) : ∀ t ∈ spec.instants_of_year y, representable t := by
  have hyears : from_ymd y 1 1 ≤ from_ymd (y + 1) 1 1 :=
    Int.mul_le_mul_of_nonneg_right (new_year_lt y).le (by decide)
  have hdays : 0 ≤ days 1 ∧ days 1 + days 1 = days 2 := by decide
  have hin {t : Timestamp} (hyear : InYear y t) : representable t := representable_in_year hfirst hlast hyear
  have hholiday {t : Timestamp} (hfull : t ∈ full_holidays y) : representable t := by
    obtain hyear | ⟨-, hbefore⟩ := full_holidays_within (by omega) hfull
    · exact hin hyear
    · exact representable_near hfirst hlast ⟨by linarith, by linarith⟩
  intro t ht
  simp only [CalendarSpec.instants_of_year, List.mem_append, List.mem_flatMap] at ht
  obtain ((hfixed | hfull) | hhalf) | ⟨s, hs, hsession⟩ := ht
  · simp only [List.mem_cons, List.not_mem_nil, or_false] at hfixed
    obtain rfl | rfl | rfl | rfl | rfl | rfl | rfl | rfl | rfl | rfl | rfl := hfixed
    · exact hin (from_ymd_within y (by decide) (by decide))
    · exact representable_near hfirst hlast ⟨by linarith, by linarith⟩
    · obtain ⟨m, d, hm, hd, heaster⟩ := easter_sunday_eq (show 0 ≤ y by omega)
      rw [heaster]
      exact hin (from_ymd_within y (by omega) hd)
    · exact hin (from_ymd_within y (by decide) (by decide))
    · exact hin (from_ymd_within y (by decide) (by decide))
    · exact hin (from_ymd_within y (by decide) (by decide))
    · exact hin (from_ymd_within y (by decide) (by decide))
    · exact hin (from_ymd_within y (by decide) (by decide))
    · exact hin (nth_weekday_within y (by decide) (by decide) (by decide))
    · exact hin (nth_weekday_within y (by decide) (by decide) (by decide))
    · obtain heq | heq | heq := observed_holiday_cases (from_ymd (y + 1) 1 1)
      · exact representable_near hfirst hlast ⟨by rw [heq]; linarith, by rw [heq]; linarith⟩
      · exact representable_near hfirst hlast ⟨by rw [heq]; linarith, by rw [heq]; linarith⟩
      · exact representable_near hfirst hlast ⟨by rw [heq]; linarith, by rw [heq]; linarith⟩
  · exact hholiday hfull
  · obtain hyear | hyear := half_days_within hhalf
    · exact hin hyear
    · exact representable_near hfirst hlast ⟨by linarith [hyear.1], by linarith [hyear.2]⟩
  · exact hsound.session_representable hcloses hfirst hlast hs hsession

end Range

/-- The end of a year after the last one is out of reach. -/
theorem not_representable_end {y : Int} (hlate : lastYear < y) : ¬ representable (from_ymd (y + 1) 1 1) := by
  have hend : days_from_civil 2263 1 1 ≤ days_from_civil (y + 1) 1 1 := by
    unfold lastYear at hlate
    exact new_year_le (by omega)
  have hdays : 106751 < days_from_civil 2263 1 1 := by decide
  rw [from_ymd, representable_days]
  omega

theorem us_equities_sound : us_equities_spec.Sound := by
  constructor <;> decide

theorem us_equities_dates : ∀ e ∈ us_equities_spec.exceptions, representable e.date := by
  unfold representable
  decide

end ptl.market
