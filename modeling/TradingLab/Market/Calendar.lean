import TradingLab.Core.Iso8601
import TradingLab.Market.Merge

namespace ptl.market

/-! ### Rules for dates -/

def kMonday : Nat := 1
def kThursday : Nat := 4
def kFriday : Nat := 5
def kSaturday : Nat := 6
def kSunday : Nat := 7

def hours (n : Int) : Duration := n * 3600000000000

def days (n : Int) : Duration := n * nanosPerDay

def from_ymd (y : Int) (m d : Nat) : Timestamp := days_from_civil y m d * nanosPerDay

/-- Monday is 1 and Sunday 7. The epoch was a Thursday. -/
def iso_weekday (ts : Timestamp) : Nat := ((ts.fdiv nanosPerDay + 3).emod 7).toNat + 1

def year_of (ts : Timestamp) : Int := (civil_from_days (ts.fdiv nanosPerDay)).1

/-- The anonymous Gregorian algorithm. -/
def easter_sunday (y : Int) : Timestamp :=
  let a := y.tmod 19
  let b := y.tdiv 100
  let c := y.tmod 100
  let d := b.tdiv 4
  let e := b.tmod 4
  let f := (b + 8).tdiv 25
  let g := (b - f + 1).tdiv 3
  let h := (19 * a + b - d - g + 15).tmod 30
  let i := c.tdiv 4
  let k := c.tmod 4
  let l := (32 + 2 * e + 2 * i - h - k).tmod 7
  let m := (a + 11 * h + 22 * l).tdiv 451
  let month_ := (h + l - 7 * m + 114).tdiv 31
  let day_ := (h + l - 7 * m + 114).tmod 31 + 1
  from_ymd y month_.toNat day_.toNat

/-- A negative `n` counts back from the end of the month. -/
def nth_weekday (y : Int) (month weekday_iso : Nat) (n : Int) : Timestamp :=
  if n > 0 then
    let first_wd := iso_weekday (from_ymd y month 1)
    let offset := (weekday_iso + 7 - first_wd) % 7 + (n - 1).toNat * 7
    from_ymd y month (1 + offset)
  else
    let last := (last_day y month).toNat
    let last_wd := iso_weekday (from_ymd y month last)
    let back := (last_wd + 7 - weekday_iso) % 7 + (-n - 1).toNat * 7
    from_ymd y month (last - back)

/-- A holiday at a weekend is observed on the weekday next to it. -/
def observed_holiday (actual : Timestamp) : Timestamp :=
  if iso_weekday actual = kSaturday then actual - days 1
  else if iso_weekday actual = kSunday then actual + days 1
  else actual

def is_us_daylight_time (utc_date : Timestamp) (y : Int) : Bool :=
  nth_weekday y 3 kSunday 2 ≤ utc_date ∧ utc_date < nth_weekday y 11 kSunday 1

/-- Full closures of a year. The next New Year may be observed in this one. -/
def full_holidays (y : Int) : List Timestamp :=
  let next_ny := observed_holiday (from_ymd (y + 1) 1 1)
  [observed_holiday (from_ymd y 1 1), nth_weekday y 1 kMonday 3, nth_weekday y 2 kMonday 3,
    easter_sunday y - days 2, nth_weekday y 5 kMonday (-1)] ++
  (if y ≥ 2022 then [observed_holiday (from_ymd y 6 19)] else []) ++
  [observed_holiday (from_ymd y 7 4), nth_weekday y 9 kMonday 1, nth_weekday y 11 kThursday 4,
    observed_holiday (from_ymd y 12 25)] ++
  (if year_of next_ny = y then [next_ny] else [])

/-- Scheduled early closes of a year. -/
def half_days (y : Int) (closed : List Timestamp) : List Timestamp :=
  let jul3 := from_ymd y 7 3
  let dec24 := from_ymd y 12 24
  (if iso_weekday jul3 ≤ kFriday ∧ iso_weekday (from_ymd y 7 4) ≤ kFriday ∧ jul3 ∉ closed then [jul3] else []) ++
  [nth_weekday y 11 kThursday 4 + days 1] ++
  (if iso_weekday dec24 ≤ kFriday ∧ dec24 ∉ closed then [dec24] else [])

/-! ### The calendar -/

/-- A deviation that no rule predicts. -/
structure CalendarException where
  date : Timestamp := kNoTimestamp
  kind : SessionKind := .Closed
  deriving DecidableEq, Repr

/-- The exchange's schedule as offsets from its midnight, with its distance from
UTC in either half of the year. -/
structure CalendarSpec where
  regular_open : Duration := 0
  regular_close : Duration := 0
  half_day_close : Duration := 0
  standard_utc_offset_hours : Int := -5
  daylight_utc_offset_hours : Int := -4
  exceptions : List CalendarException := []
  deriving DecidableEq, Repr

/-- The US equity market. -/
def us_equities_spec : CalendarSpec where
  regular_open := hours 9 + 1800000000000
  regular_close := hours 16
  half_day_close := hours 13
  exceptions := [{ date := from_ymd 2018 12 5 }, { date := from_ymd 2025 1 9 }]

/-- What kind of day a date is. The first exception for it decides. -/
def CalendarSpec.kind_of (spec : CalendarSpec) (closed early : List Timestamp) (d : Timestamp) : SessionKind :=
  match spec.exceptions.find? fun e => utc_date_floor e.date = d with
  | some e => e.kind
  | none =>
    if iso_weekday d ≥ kSaturday ∨ d ∈ closed then .Closed
    else if d ∈ early then .HalfDay
    else .Regular

def CalendarSpec.to_utc (spec : CalendarSpec) (y : Int) (d : Timestamp) : Duration :=
  -hours (if is_us_daylight_time d y then spec.daylight_utc_offset_hours else spec.standard_utc_offset_hours)

/-- The session of a date, whose kind is known. A closed one has no times. -/
def CalendarSpec.session_of (spec : CalendarSpec) (y : Int) (kind : SessionKind) (d : Timestamp) : Session :=
  if kind = .Closed then { date := d }
  else {
    date := d, kind
    open_ := d + spec.regular_open + spec.to_utc y d
    close := d + (if kind = .HalfDay then spec.half_day_close else spec.regular_close) + spec.to_utc y d }

/-- The dates from one New Year to the next. -/
def dates_of_year (y : Int) : List Timestamp :=
  (List.range (days_from_civil (y + 1) 1 1 - days_from_civil y 1 1).toNat).map fun k : Nat =>
    (days_from_civil y 1 1 + k) * nanosPerDay

def CalendarSpec.sessions_of_year (spec : CalendarSpec) (y : Int) : List Session :=
  let closed := full_holidays y
  let early := half_days y closed
  (dates_of_year y).map fun d => spec.session_of y (spec.kind_of closed early d) d

/-! ### The dates of a calendar -/

theorem new_year_lt (y : Int) : days_from_civil y 1 1 < days_from_civil (y + 1) 1 1 := by
  simp only [days_from_civil, Int.fdiv_eq_ediv_of_nonneg _ (by decide : (0 : Int) ≤ 400)]
  norm_num
  omega

theorem new_year_le {y y' : Int} (hle : y ≤ y') : days_from_civil y 1 1 ≤ days_from_civil y' 1 1 :=
  monotone_int_of_le_succ (fun y => le_of_lt (new_year_lt y)) hle

/-- A date of a year is a midnight from its New Year to before the next. -/
theorem mem_dates_of_year {y : Int} {d : Timestamp} (hd : d ∈ dates_of_year y) :
    nanosPerDay ∣ d ∧ from_ymd y 1 1 ≤ d ∧ d < from_ymd (y + 1) 1 1 := by
  obtain ⟨k, hk, rfl⟩ := List.mem_map.mp hd
  rw [List.mem_range] at hk
  have hbelow : days_from_civil y 1 1 + k < days_from_civil (y + 1) 1 1 := by omega
  have hday : 0 < nanosPerDay := by decide
  refine ⟨Dvd.intro_left _ rfl, ?_, ?_⟩
  · exact Int.mul_le_mul_of_nonneg_right (by omega) hday.le
  · exact Int.mul_lt_mul_of_pos_right hbelow hday

theorem dates_of_year_increase (y : Int) : (dates_of_year y).Pairwise (· < ·) := by
  refine List.pairwise_map.mpr (List.pairwise_lt_range.imp fun hless => ?_)
  exact Int.mul_lt_mul_of_pos_right (by omega) (by decide)

@[simp] theorem CalendarSpec.session_of_date (spec : CalendarSpec) (y : Int) (kind : SessionKind) (d : Timestamp) :
    (spec.session_of y kind d).date = d := by
  unfold CalendarSpec.session_of
  split
  · rfl
  · rfl

theorem CalendarSpec.sessions_of_year_dates (spec : CalendarSpec) (y : Int) :
    (spec.sessions_of_year y).map Session.date = dates_of_year y := by
  unfold CalendarSpec.sessions_of_year
  dsimp only
  rw [List.map_map]
  exact (List.map_congr_left fun d _ => spec.session_of_date y _ d).trans (List.map_id _)

theorem CalendarSpec.mem_sessions_of_year {spec : CalendarSpec} {y : Int} {s : Session}
    (hs : s ∈ spec.sessions_of_year y) : s.date ∈ dates_of_year y ∧ ∃ kind, s = spec.session_of y kind s.date := by
  obtain ⟨d, hd, rfl⟩ := List.mem_map.mp hs
  rw [spec.session_of_date]
  exact ⟨hd, _, rfl⟩

/-- The sessions of several years in turn. -/
def CalendarSpec.sessions_of (spec : CalendarSpec) (first_year last_year : Int) : List Session :=
  ((List.range (last_year + 1 - first_year).toNat).map fun k : Nat => first_year + k).flatMap
    spec.sessions_of_year

theorem CalendarSpec.mem_sessions_of {spec : CalendarSpec} {first_year last_year : Int} {s : Session}
    (hs : s ∈ spec.sessions_of first_year last_year) : ∃ y, s ∈ spec.sessions_of_year y := by
  obtain ⟨y, -, hy⟩ := List.mem_flatMap.mp hs
  exact ⟨y, hy⟩

theorem CalendarSpec.sessions_of_increase (spec : CalendarSpec) (first_year last_year : Int) :
    (spec.sessions_of first_year last_year).Pairwise fun s t => s.date < t.date := by
  refine List.pairwise_flatMap.mpr ⟨fun y _ => ?_, List.pairwise_map.mpr (List.pairwise_lt_range.imp ?_)⟩
  · rw [← List.pairwise_map, spec.sessions_of_year_dates]
    exact dates_of_year_increase y
  · intro k k' hless s hs t ht
    obtain ⟨-, -, hbefore⟩ := mem_dates_of_year (CalendarSpec.mem_sessions_of_year hs).1
    obtain ⟨-, hafter, -⟩ := mem_dates_of_year (CalendarSpec.mem_sessions_of_year ht).1
    have hyears : from_ymd (first_year + k + 1) 1 1 ≤ from_ymd (first_year + k') 1 1 :=
      Int.mul_le_mul_of_nonneg_right (new_year_le (by omega)) (by decide)
    exact lt_of_lt_of_le hbefore (hyears.trans hafter)

/-- The sessions of a range of dates, in their order. -/
structure Calendar where
  all : List Session
  increasing : all.Pairwise fun s t => s.date < t.date
  dated : ∀ s ∈ all, nanosPerDay ∣ s.date

def Calendar.build (spec : CalendarSpec) (first_year last_year : Int) : Result Calendar :=
  if last_year < first_year then
    .error (make_error .InvalidArgument "calendar last_year precedes first_year")
  else if first_year < 2008 then
    .error (make_error .Unsupported
      "calendar generation requires first_year >= 2008 (DST rule changed in 2007)")
  else if spec.regular_close ≤ spec.regular_open ∨ spec.half_day_close ≤ spec.regular_open then
    .error (make_error .InvalidArgument "calendar close must be after open")
  else
    .ok {
      all := spec.sessions_of first_year last_year
      increasing := spec.sessions_of_increase first_year last_year
      dated := fun _ hs =>
        have ⟨_, hyear⟩ := CalendarSpec.mem_sessions_of hs
        (mem_dates_of_year (CalendarSpec.mem_sessions_of_year hyear).1).1 }

/-- The session of a date. The dates increase, so the first not before it is the
one a binary search finds. -/
def Calendar.find_by_date (c : Calendar) (date : Timestamp) : Option Session :=
  c.all.find? fun s => s.date = date

/-- The session containing an instant, looked for on the dates about it. -/
def Calendar.session_containing (c : Calendar) (ts : Timestamp) : Option Session :=
  [-1, 0, 1].findSome? fun offset =>
    (c.find_by_date (utc_date_floor ts + days offset)).filter fun s => s.contains ts

theorem Calendar.find_by_date_some {c : Calendar} {date : Timestamp} {s : Session}
    (hfound : c.find_by_date date = some s) : s ∈ c.all ∧ s.date = date :=
  ⟨List.mem_of_find?_eq_some hfound, by simpa using List.find?_some hfound⟩

theorem Calendar.session_containing_some {c : Calendar} {ts : Timestamp} {s : Session}
    (hfound : c.session_containing ts = some s) :
    c.find_by_date s.date = some s ∧ s.contains ts = true ∧ is_set s.date = true := by
  obtain ⟨offset, -, hlookup⟩ := List.exists_of_findSome?_eq_some hfound
  obtain ⟨hdate, hcontains⟩ := Option.filter_eq_some_iff.mp hlookup
  obtain ⟨hmem, heq⟩ := c.find_by_date_some hdate
  refine ⟨heq ▸ hdate, hcontains, ?_⟩
  obtain ⟨k, hk⟩ := c.dated s hmem
  refine decide_eq_true fun hunset => ?_
  have hmultiple : (86400 * 1000000000 * k : Int) = -2 ^ 63 := hk.symm.trans hunset
  omega

/-! ### Calendars whose sessions follow one another -/

/-- Each session is near its date, and over before a later one opens. -/
structure Calendar.Orderly (c : Calendar) : Prop where
  near : ∀ s ∈ c.all, s.is_open = true → s.date - days 1 ≤ s.open_ ∧ s.close ≤ s.date + days 2
  follow : ∀ s ∈ c.all, ∀ t ∈ c.all, s.is_open = true → t.is_open = true → s.date < t.date → s.close ≤ t.open_

/-- There is time between one session and the next. -/
structure Calendar.Separate (c : Calendar) : Prop extends c.Orderly where
  apart : ∀ s ∈ c.all, ∀ t ∈ c.all, s.is_open = true → t.is_open = true → s.date < t.date → s.close < t.open_

theorem Session.contains_iff {s : Session} {ts : Timestamp} :
    s.contains ts = true ↔ s.is_open = true ∧ s.open_ ≤ ts ∧ ts < s.close := by
  simp [Session.contains]

theorem Calendar.find_by_date_mem {c : Calendar} {s : Session} (hmem : s ∈ c.all) :
    c.find_by_date s.date = some s := by
  obtain ⟨before, after, hsplit⟩ := List.append_of_mem hmem
  have hincreasing := c.increasing
  rw [hsplit, List.pairwise_append] at hincreasing
  rw [Calendar.find_by_date, hsplit, List.find?_append, List.find?_eq_none.mpr, Option.none_or,
    List.find?_cons_of_pos (by simp)]
  intro t ht
  have hless := hincreasing.2.2 t ht s List.mem_cons_self
  simpa using (ne_of_lt hless : t.date ≠ s.date)

/-- An orderly calendar has at most one session at an instant. -/
theorem Calendar.Orderly.unique {c : Calendar} (horderly : c.Orderly) {s t : Session} (ts : Timestamp)
    (hs : s ∈ c.all) (ht : t ∈ c.all) (hin : s.contains ts = true) (hin' : t.contains ts = true) : s = t := by
  obtain ⟨hopen, hafter, hbefore⟩ := Session.contains_iff.mp hin
  obtain ⟨hopen', hafter', hbefore'⟩ := Session.contains_iff.mp hin'
  rcases lt_trichotomy s.date t.date with hless | hsame | hmore
  · have hover := horderly.follow s hs t ht hopen hopen' hless
    exact absurd (hover.trans hafter') (not_le.mpr hbefore)
  · have hfound := c.find_by_date_mem hs
    rw [hsame, c.find_by_date_mem ht] at hfound
    exact (Option.some.inj hfound).symm
  · have hover := horderly.follow t ht s hs hopen' hopen hmore
    exact absurd (hover.trans hafter) (not_le.mpr hbefore')

theorem fdiv_nanosPerDay_near {k ts : Int} (hafter : nanosPerDay * k - nanosPerDay ≤ ts)
    (hbefore : ts < nanosPerDay * k + 2 * nanosPerDay) : k - ts.fdiv nanosPerDay ∈ [-1, 0, 1] := by
  rw [Int.fdiv_eq_ediv_of_nonneg _ (by decide)]
  unfold nanosPerDay at *
  simp only [List.mem_cons, List.not_mem_nil, or_false]
  omega

/-- A date is the floor of an instant near it, or next to that floor. -/
theorem exists_offset {date ts : Timestamp} (hdate : nanosPerDay ∣ date) (hafter : date - days 1 ≤ ts)
    (hbefore : ts < date + days 2) : ∃ offset ∈ [-1, 0, 1], utc_date_floor ts + days offset = date := by
  obtain ⟨k, rfl⟩ := hdate
  refine ⟨k - ts.fdiv nanosPerDay, fdiv_nanosPerDay_near ?_ hbefore, ?_⟩
  · rwa [days, Int.one_mul] at hafter
  · rw [utc_date_floor, days, ← Int.add_mul, add_sub_cancel, Int.mul_comm]

theorem next_date_le {date date' : Timestamp} (hdate : nanosPerDay ∣ date) (hdate' : nanosPerDay ∣ date')
    (hless : date < date') : date + days 1 ≤ date' := by
  obtain ⟨k, rfl⟩ := hdate
  obtain ⟨k', rfl⟩ := hdate'
  have hday : 0 < nanosPerDay := by decide
  have hnext : k + 1 ≤ k' := lt_of_mul_lt_mul_left hless hday.le
  calc nanosPerDay * k + days 1 = nanosPerDay * (k + 1) := by rw [days, Int.mul_add, Int.mul_comm 1]
    _ ≤ nanosPerDay * k' := Int.mul_le_mul_of_nonneg_left hnext hday.le

/-- In an orderly calendar the dates about an instant are enough to find the
session containing it. -/
theorem Calendar.Orderly.session_containing_iff {c : Calendar} (horderly : c.Orderly) {s : Session}
    {ts : Timestamp} : c.session_containing ts = some s ↔ s ∈ c.all ∧ s.contains ts = true := by
  constructor
  · intro hfound
    obtain ⟨hdate, hin, -⟩ := c.session_containing_some hfound
    exact ⟨(c.find_by_date_some hdate).1, hin⟩
  · rintro ⟨hs, hin⟩
    obtain ⟨hopen, hafter, hbefore⟩ := Session.contains_iff.mp hin
    obtain ⟨hnear, hnear'⟩ := horderly.near s hs hopen
    obtain ⟨offset, hmem, hdate⟩ := exists_offset (c.dated s hs) (hnear.trans hafter)
      (lt_of_lt_of_le hbefore hnear')
    have hsome : (c.session_containing ts).isSome = true := by
      refine List.findSome?_isSome_iff.mpr ⟨offset, hmem, ?_⟩
      rw [hdate, c.find_by_date_mem hs, Option.filter_some, if_pos hin]
      rfl
    obtain ⟨t, hfound⟩ := Option.isSome_iff_exists.mp hsome
    obtain ⟨hdate', hin', -⟩ := c.session_containing_some hfound
    rw [hfound, horderly.unique _ hs (c.find_by_date_some hdate').1 hin hin']

/-- Whatever the time of the year, sessions open no earlier and close no later
than these times of the UTC date. -/
def CalendarSpec.Within (spec : CalendarSpec) (earliest latest : Duration) : Prop :=
  ∀ y d, earliest ≤ spec.regular_open + spec.to_utc y d ∧ spec.regular_close + spec.to_utc y d ≤ latest ∧
    spec.half_day_close + spec.to_utc y d ≤ latest

theorem CalendarSpec.Within.session_of {spec : CalendarSpec} {earliest latest : Duration}
    (hwithin : spec.Within earliest latest) {y : Int} {kind : SessionKind} {d : Timestamp}
    (hopen : (spec.session_of y kind d).is_open = true) :
    d + earliest ≤ (spec.session_of y kind d).open_ ∧ (spec.session_of y kind d).close ≤ d + latest := by
  obtain ⟨hearliest, hregular, hhalf⟩ := hwithin y d
  have htrading : kind ≠ .Closed := by
    rintro rfl
    cases hopen
  unfold CalendarSpec.session_of
  rw [if_neg htrading]
  refine ⟨?_, ?_⟩
  · exact (Int.add_le_add_left hearliest d).trans (le_of_eq (Int.add_assoc d _ _).symm)
  · dsimp only
    rw [Int.add_assoc]
    refine Int.add_le_add_left ?_ d
    split
    · exact hhalf
    · exact hregular

theorem Calendar.build_all {spec : CalendarSpec} {first_year last_year : Int} {c : Calendar}
    (hbuild : Calendar.build spec first_year last_year = .ok c) :
    c.all = spec.sessions_of first_year last_year := by
  unfold Calendar.build at hbuild
  split_ifs at hbuild
  cases hbuild
  rfl

/-- Every session is within the times of its date. -/
theorem CalendarSpec.Within.span {spec : CalendarSpec} {earliest latest : Duration}
    (hwithin : spec.Within earliest latest) {first_year last_year : Int} {c : Calendar}
    (hbuild : Calendar.build spec first_year last_year = .ok c) {s : Session} (hs : s ∈ c.all)
    (hopen : s.is_open = true) : s.date + earliest ≤ s.open_ ∧ s.close ≤ s.date + latest := by
  rw [Calendar.build_all hbuild] at hs
  obtain ⟨y, hyear⟩ := CalendarSpec.mem_sessions_of hs
  obtain ⟨-, kind, hsession⟩ := CalendarSpec.mem_sessions_of_year hyear
  rw [hsession] at hopen ⊢
  simpa using hwithin.session_of hopen

/-- Sessions that all lie within a day, not far from their dates, make an
orderly calendar. -/
theorem CalendarSpec.Within.orderly {spec : CalendarSpec} {earliest latest : Duration}
    (hwithin : spec.Within earliest latest) (hnear : -days 1 ≤ earliest ∧ latest ≤ days 2)
    (hday : latest ≤ days 1 + earliest) {first_year last_year : Int} {c : Calendar}
    (hbuild : Calendar.build spec first_year last_year = .ok c) : c.Orderly := by
  refine ⟨fun s hs hopen => ?_, fun s hs t ht hopen hopen' hless => ?_⟩
  · obtain ⟨hopens, hcloses⟩ := hwithin.span hbuild hs hopen
    exact ⟨(Int.add_le_add_left hnear.1 s.date).trans hopens, hcloses.trans (Int.add_le_add_left hnear.2 s.date)⟩
  · have hnext : s.date + days 1 ≤ t.date := next_date_le (c.dated s hs) (c.dated t ht) hless
    calc s.close ≤ s.date + latest := (hwithin.span hbuild hs hopen).2
      _ ≤ s.date + (days 1 + earliest) := Int.add_le_add_left hday s.date
      _ = s.date + days 1 + earliest := (Int.add_assoc _ _ _).symm
      _ ≤ t.date + earliest := Int.add_le_add_right hnext earliest
      _ ≤ t.open_ := (hwithin.span hbuild ht hopen').1

theorem us_equities_within : us_equities_spec.Within (hours 13 + 1800000000000) (hours 21) := by
  intro y d
  unfold CalendarSpec.to_utc
  split
  · decide
  · decide

/-- The US calendar is orderly, whatever its years. -/
theorem us_equities_orderly {first_year last_year : Int} {c : Calendar}
    (hbuild : Calendar.build us_equities_spec first_year last_year = .ok c) : c.Orderly :=
  us_equities_within.orderly (by decide) (by decide) hbuild

/-- Its nights lie between its sessions. -/
theorem us_equities_separate {first_year last_year : Int} {c : Calendar}
    (hbuild : Calendar.build us_equities_spec first_year last_year = .ok c) : c.Separate where
  toOrderly := us_equities_orderly hbuild
  apart s hs t ht hopen hopen' hless := by
    have hnext : s.date + days 1 ≤ t.date := next_date_le (c.dated s hs) (c.dated t ht) hless
    calc s.close ≤ s.date + hours 21 := (us_equities_within.span hbuild hs hopen).2
      _ < s.date + (days 1 + (hours 13 + 1800000000000)) := Int.add_lt_add_left (by decide) s.date
      _ = s.date + days 1 + (hours 13 + 1800000000000) := (Int.add_assoc _ _ _).symm
      _ ≤ t.date + (hours 13 + 1800000000000) := Int.add_le_add_right hnext _
      _ ≤ t.open_ := (us_equities_within.span hbuild ht hopen').1

end ptl.market
