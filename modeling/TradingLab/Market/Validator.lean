import Std.Data.TreeMap.Lemmas
import TradingLab.Market.Calendar
import TradingLab.Market.Merge

open Std (TreeMap)

namespace ptl.market

inductive IssueCode where
  | NonMonotonicTimestamp
  | DuplicateTimestamp
  | GapInSession
  | OutsideSession
  | UnknownSession
  | SuspiciousPriceJump
  | ZeroVolume
  | StaleQuote
  | CrossedQuote
  | TimeframeMismatch
  deriving DecidableEq, Repr

inductive Severity where
  | Fatal
  | Warning
  deriving DecidableEq, Repr

structure ValidationIssue where
  code : IssueCode
  severity : Severity
  at_ : Timestamp
  instrument : InstrumentId
  detail : String
  deriving DecidableEq, Repr

structure ValidationStats where
  events : Nat := 0
  bars : Nat := 0
  quotes : Nat := 0
  trades : Nat := 0
  sessions : Nat := 0
  zero_volume_bars : Nat := 0
  first : Timestamp := kNoTimestamp
  last : Timestamp := kNoTimestamp
  deriving DecidableEq, Repr

structure ValidationReport where
  issues : List ValidationIssue
  stats : ValidationStats
  deriving DecidableEq, Repr

structure ValidatorConfig where
  expected_bar_timeframe : Duration := 60000000000
  max_abs_log_return : Rat := 0.20
  require_complete_sessions : Bool := true
  max_consecutive_zero_volume : Nat := 30
  strict : Bool := false
  deriving DecidableEq, Repr

/-- A warning, promoted where every surprise is to be fatal. -/
def ValidatorConfig.warn (cfg : ValidatorConfig) : Severity := if cfg.strict then .Fatal else .Warning

structure InstrumentState where
  last_bar_close : Timestamp := kNoTimestamp
  last_close : Price := 0
  consecutive_zero_volume : Nat := 0
  deriving DecidableEq, Repr

def Bar.timeframe (b : Bar) : Duration := b.close_time - b.open_time

/-- Market data is to be inside a session. -/
def in_session_only : MarketEvent → Bool
  | .bar _ => true
  | .quote _ => true
  | .trade _ => true
  | _ => false

namespace DataValidator

/-! ### The checks of a bar -/

section Bars

variable (log : Rat → Rat) (cfg : ValidatorConfig) (calendar : Option Calendar) (st : InstrumentState) (bar : Bar)

def timeframe_issues : List ValidationIssue :=
  if 0 < cfg.expected_bar_timeframe ∧ bar.timeframe ≠ cfg.expected_bar_timeframe then
    [{ code := .TimeframeMismatch, severity := .Fatal, at_ := bar.close_time, instrument := bar.instrument,
       detail := "bar spans " ++ toString bar.timeframe ++ "ns, expected " ++ toString cfg.expected_bar_timeframe }]
  else []

/-- The session lookup of the previous close is just before it, that of the bar at its
own close. -/
def same_session (c : Calendar) (last_bar_close ts : Timestamp) : Bool :=
  match c.session_containing (last_bar_close - 1), c.session_containing ts with
  | some prev_s, some cur_s => prev_s.date = cur_s.date
  | _, _ => false

/-- Nothing where the code divides by zero. -/
def gap_issues (c : Calendar) : Option (List ValidationIssue) :=
  let delta := bar.close_time - st.last_bar_close
  if same_session c st.last_bar_close bar.close_time ∧ cfg.expected_bar_timeframe < delta then
    if cfg.expected_bar_timeframe = 0 then none
    else
      some [{ code := .GapInSession, severity := cfg.warn, at_ := bar.close_time, instrument := bar.instrument,
              detail := "missing " ++ toString (delta.tdiv cfg.expected_bar_timeframe - 1) ++ " bar(s) since " ++
                to_iso8601 st.last_bar_close }]
  else some []

def spacing_issues : Option (List ValidationIssue) :=
  if ¬ is_set st.last_bar_close then some []
  else if bar.close_time = st.last_bar_close then
    some [{ code := .DuplicateTimestamp, severity := .Fatal, at_ := bar.close_time, instrument := bar.instrument,
            detail := "repeated bar close" }]
  else
    match calendar with
    | some c => if cfg.require_complete_sessions then gap_issues cfg st bar c else some []
    | none => some []

def jump_issues : List ValidationIssue :=
  let r := log (bar.close / st.last_close)
  if is_set st.last_bar_close ∧ cfg.max_abs_log_return < |r| then
    [{ code := .SuspiciousPriceJump, severity := .Fatal, at_ := bar.close_time, instrument := bar.instrument,
       detail := "log return " ++ to_string r ++ " exceeds the corporate-action threshold; a split or " ++
         "dividend adjustment is probably missing" }]
  else []

def zero_volume_issues : List ValidationIssue :=
  let consecutive := st.consecutive_zero_volume + 1
  if bar.volume = 0 ∧ consecutive = cfg.max_consecutive_zero_volume then
    [{ code := .ZeroVolume, severity := cfg.warn, at_ := bar.close_time, instrument := bar.instrument,
       detail := toString consecutive ++ " consecutive zero-volume bars: the feed may have " ++
         "stopped rather than the market being quiet" }]
  else []

def InstrumentState.next : InstrumentState where
  last_bar_close := bar.close_time
  last_close := bar.close
  consecutive_zero_volume := if bar.volume = 0 then st.consecutive_zero_volume + 1 else 0

/-- All that is checked of a bar but the session it is in. -/
def bar_issues : Option (List ValidationIssue) :=
  (spacing_issues cfg calendar st bar).map fun spacing =>
    timeframe_issues cfg bar ++ spacing ++ jump_issues log cfg st bar ++ zero_volume_issues cfg st bar

end Bars

/-! ### One event after the other -/

structure Progress where
  stats : ValidationStats := {}
  state : TreeMap InstrumentId InstrumentState := {}
  prev_ts : Timestamp := kNoTimestamp
  current_session : Timestamp := kNoTimestamp

def Progress.of (p : Progress) (id : InstrumentId) : InstrumentState := p.state.getD id {}

def order_issues (p : Progress) (e : MarketEvent) : List ValidationIssue :=
  if is_set p.prev_ts ∧ exchange_time_of e < p.prev_ts then
    [{ code := .NonMonotonicTimestamp, severity := .Fatal, at_ := exchange_time_of e, instrument := instrument_of e,
       detail := "preceded by " ++ to_iso8601 p.prev_ts }]
  else []

def session_issues (calendar : Option Calendar) (e : MarketEvent) : List ValidationIssue :=
  match calendar with
  | some c =>
    if in_session_only e ∧ (c.session_containing (exchange_time_of e)).isNone then
      [{ code := .OutsideSession, severity := .Fatal, at_ := exchange_time_of e, instrument := instrument_of e,
         detail := "no trading session contains this timestamp" }]
    else []
  | none => []

/-- The date of the session an event is found in, else the one before. -/
def session_after (calendar : Option Calendar) (p : Progress) (e : MarketEvent) : Timestamp :=
  match calendar with
  | some c => if in_session_only e then (c.session_containing (exchange_time_of e)).elim p.current_session Session.date
      else p.current_session
  | none => p.current_session

/-- The counters after an event, but for those of its kind. -/
def Progress.see (calendar : Option Calendar) (p : Progress) (e : MarketEvent) : Progress :=
  let ts := exchange_time_of e
  let date := session_after calendar p e
  { p with
    stats := { p.stats with
      events := p.stats.events + 1
      first := if ¬ is_set p.stats.first then ts else p.stats.first
      last := ts
      sessions := if date ≠ p.current_session then p.stats.sessions + 1 else p.stats.sessions }
    prev_ts := ts
    current_session := date }

/-- The issues of the kind of an event, and what is remembered of it. -/
def visit (log : Rat → Rat) (cfg : ValidatorConfig) (calendar : Option Calendar) (p : Progress) :
    MarketEvent → Option (List ValidationIssue × Progress)
  | .bar bar =>
    (bar_issues log cfg calendar (p.of bar.instrument) bar).map fun issues =>
      (issues, { p with
        stats := { p.stats with
          bars := p.stats.bars + 1
          zero_volume_bars := if bar.volume = 0 then p.stats.zero_volume_bars + 1 else p.stats.zero_volume_bars }
        state := p.state.insert bar.instrument (InstrumentState.next (p.of bar.instrument) bar) })
  | .quote quote =>
    some (if quote.ask < quote.bid then
        [{ code := .CrossedQuote, severity := .Fatal, at_ := quote.time.exchange_time,
           instrument := quote.instrument, detail := "ask below bid" }]
      else [], { p with stats := { p.stats with quotes := p.stats.quotes + 1 } })
  | .trade _ => some ([], { p with stats := { p.stats with trades := p.stats.trades + 1 } })
  | _ => some ([], p)

/-- The issues of an event in the order they are found, and the progress after it. -/
def step (log : Rat → Rat) (cfg : ValidatorConfig) (calendar : Option Calendar) (p : Progress) (e : MarketEvent) :
    Option (List ValidationIssue × Progress) :=
  (visit log cfg calendar (p.see calendar e) e).map fun (issues, p') =>
    (order_issues p e ++ session_issues calendar e ++ issues, p')

/-- The issues of every event. -/
def examine (log : Rat → Rat) (cfg : ValidatorConfig) (calendar : Option Calendar) :
    Progress → List MarketEvent → Option (List (List ValidationIssue) × Progress)
  | p, [] => some ([], p)
  | p, e :: events =>
    match step log cfg calendar p e with
    | none => none
    | some (issues, p') => (examine log cfg calendar p' events).map fun (found, last) => (issues :: found, last)

def validate (log : Rat → Rat) (cfg : ValidatorConfig) (events : List MarketEvent) (calendar : Option Calendar) :
    Option ValidationReport :=
  let unknown : List ValidationIssue := if calendar.isNone then
      [{ code := .UnknownSession, severity := cfg.warn, at_ := kNoTimestamp, instrument := kInvalidInstrument,
         detail := "no calendar supplied; session boundary and gap checks were skipped" }]
    else []
  (examine log cfg calendar {} events).map fun (found, last) => {
    issues := unknown ++ found.flatten
    stats := last.stats }

/-! ### The bars of a stream -/

def reports (code : IssueCode) (issues : List ValidationIssue) : Bool := issues.any fun i => i.code = code

@[simp] theorem reports_append (code : IssueCode) (xs ys : List ValidationIssue) :
    reports code (xs ++ ys) = (reports code xs || reports code ys) := List.any_append

/-- One issue or none is of its own code only. -/
theorem reports_ite {code : IssueCode} {found : Prop} [Decidable found] {issue : ValidationIssue} :
    reports code (if found then [issue] else []) = decide (found ∧ issue.code = code) := by
  split
  · rename_i hfound
    simp [reports, hfound]
  · rename_i hnone
    simp [reports, hnone]

def bar_of (id : InstrumentId) : MarketEvent → Option Bar
  | .bar b => if b.instrument = id then some b else none
  | _ => none

/-- The last bar of an instrument in what has been seen. -/
def previous_bar (past : List MarketEvent) (id : InstrumentId) : Option Bar := past.reverse.findSome? (bar_of id)

theorem previous_bar_snoc (past : List MarketEvent) (e : MarketEvent) (id : InstrumentId) :
    previous_bar (past ++ [e]) id = (bar_of id e).or (previous_bar past id) := by
  rw [previous_bar, List.reverse_append, List.reverse_singleton, List.singleton_append, List.findSome?_cons]
  cases bar_of id e with
  | none => rfl
  | some b => rfl

theorem previous_bar_mem {past : List MarketEvent} {id : InstrumentId} {b : Bar}
    (hprevious : previous_bar past id = some b) : .bar b ∈ past := by
  obtain ⟨e, he, hbar⟩ := List.exists_of_findSome?_eq_some hprevious
  cases e with
  | bar b' =>
    rw [bar_of] at hbar
    split at hbar
    · cases hbar
      exact List.mem_reverse.mp he
    · cases hbar
  | _ => cases hbar

/-- What is remembered of each instrument is the close of its last bar. -/
def Progress.Remembers (p : Progress) (past : List MarketEvent) : Prop :=
  ∀ id, (p.of id).last_bar_close = (previous_bar past id).elim kNoTimestamp Bar.close_time

theorem Progress.remembers_nil : ({} : Progress).Remembers [] := by
  intro id
  simp [Progress.of, previous_bar]

variable {log : Rat → Rat} {cfg : ValidatorConfig} {c : Calendar}

theorem Progress.Remembers.step {calendar : Option Calendar} {p p' : Progress} {past : List MarketEvent}
    {e : MarketEvent} {issues : List ValidationIssue} (hremembers : p.Remembers past)
    (hstep : step log cfg calendar p e = some (issues, p')) : p'.Remembers (past ++ [e]) := by
  have hseen : ∀ id, (p.see calendar e).of id = p.of id := fun _ => rfl
  obtain ⟨⟨found, next⟩, hvisit, hresult⟩ := Option.map_eq_some_iff.mp hstep
  obtain ⟨-, rfl⟩ := Prod.mk.inj hresult
  intro id
  rw [previous_bar_snoc]
  cases e with
  | bar bar =>
    obtain ⟨_, -, hnext⟩ := Option.map_eq_some_iff.mp hvisit
    obtain ⟨-, rfl⟩ := Prod.mk.inj hnext
    by_cases hsame : bar.instrument = id
    · subst hsame
      simp [Progress.of, bar_of, InstrumentState.next]
    · simp only [Progress.of, bar_of, hsame, if_false, Option.none_or, Std.TreeMap.getD_insert,
        Std.LawfulEqCmp.compare_eq_iff_eq]
      exact hremembers id
  | quote quote =>
    cases hvisit
    exact hremembers id
  | trade trade =>
    cases hvisit
    exact hremembers id
  | corporateAction action =>
    cases hvisit
    exact hremembers id
  | session event =>
    cases hvisit
    exact hremembers id
  | timer event =>
    cases hvisit
    exact hremembers id

/-- By the lookups of the code, a bar of one session with the bar before it, and more
than a timeframe after it. -/
def Spaced (c : Calendar) (cfg : ValidatorConfig) (last_bar_close : Timestamp) (bar : Bar) : Prop :=
  is_set last_bar_close = true ∧ bar.close_time ≠ last_bar_close ∧ cfg.require_complete_sessions = true ∧
    same_session c last_bar_close bar.close_time = true ∧
    cfg.expected_bar_timeframe < bar.close_time - last_bar_close

theorem spacing_issues_eq_none_iff {st : InstrumentState} {bar : Bar} :
    spacing_issues cfg (some c) st bar = none ↔
      Spaced c cfg st.last_bar_close bar ∧ cfg.expected_bar_timeframe = 0 := by
  unfold spacing_issues gap_issues Spaced
  dsimp only
  split_ifs <;> simp_all

theorem reports_spacing_issues {st : InstrumentState} {bar : Bar} {issues : List ValidationIssue}
    (hissues : spacing_issues cfg (some c) st bar = some issues) :
    (reports .GapInSession issues = true ↔ Spaced c cfg st.last_bar_close bar) ∧
      reports .OutsideSession issues = false := by
  unfold spacing_issues gap_issues at hissues
  unfold Spaced
  dsimp only at hissues
  split_ifs at hissues <;> cases hissues <;> simp_all [reports]

/-- What one bar is reported for, and where it makes the code divide by zero. -/
theorem step_bar {p : Progress} {bar : Bar} :
    (step log cfg (some c) p (.bar bar) = none ↔
      Spaced c cfg (p.of bar.instrument).last_bar_close bar ∧ cfg.expected_bar_timeframe = 0) ∧
    ∀ issues p', step log cfg (some c) p (.bar bar) = some (issues, p') →
      (reports .OutsideSession issues = true ↔ c.session_containing bar.close_time = none) ∧
      (reports .GapInSession issues = true ↔ Spaced c cfg (p.of bar.instrument).last_bar_close bar) := by
  have hseen : (p.see (some c) (.bar bar)).of bar.instrument = p.of bar.instrument := rfl
  have htime : exchange_time_of (.bar bar) = bar.close_time := bar.exchange_time_eq
  constructor
  · rw [← spacing_issues_eq_none_iff]
    simp only [step, visit, bar_issues, Option.map_eq_none_iff, hseen]
  · intro issues p' hstep
    obtain ⟨⟨found, next⟩, hvisit, hresult⟩ := Option.map_eq_some_iff.mp hstep
    obtain ⟨rfl, -⟩ := Prod.mk.inj hresult
    obtain ⟨checked, hchecked, hnext⟩ := Option.map_eq_some_iff.mp hvisit
    obtain ⟨rfl, -⟩ := Prod.mk.inj hnext
    obtain ⟨spacing, hspacing, rfl⟩ := Option.map_eq_some_iff.mp hchecked
    rw [hseen] at hspacing
    obtain ⟨hgap, houtside⟩ := reports_spacing_issues hspacing
    rw [← hgap]
    simp only [reports_append, order_issues, session_issues, timeframe_issues, jump_issues, zero_volume_issues,
      reports_ite, htime, houtside, in_session_only]
    simp [Option.isNone_iff_eq_none]

/-- Only a bar can make the code divide by zero. -/
theorem step_eq_none {calendar : Option Calendar} {p : Progress} {e : MarketEvent}
    (hnone : step log cfg calendar p e = none) : ∃ bar, e = .bar bar := by
  rw [step, Option.map_eq_none_iff] at hnone
  cases e with
  | bar bar => exact ⟨bar, rfl⟩
  | _ => cases hnone

/-- The close of the last bar of an instrument, as it is remembered. -/
def last_close_of (prev : Option Bar) : Timestamp := prev.elim kNoTimestamp Bar.close_time

variable (log cfg c) in
/-- A whole stream: either some bar makes the code divide by zero, or each event has
its issues and those of the bars are what the lookups say. -/
theorem examine_spec {p : Progress} {past : List MarketEvent} (hremembers : p.Remembers past)
    (events : List MarketEvent) :
    (examine log cfg (some c) p events = none → ∃ i bar, events[i]? = some (.bar bar) ∧
      Spaced c cfg (last_close_of (previous_bar (past ++ events.take i) bar.instrument)) bar ∧
      cfg.expected_bar_timeframe = 0) ∧
    ∀ found last, examine log cfg (some c) p events = some (found, last) → found.length = events.length ∧
      ∀ i bar issues, events[i]? = some (.bar bar) → found[i]? = some issues →
        ¬ (Spaced c cfg (last_close_of (previous_bar (past ++ events.take i) bar.instrument)) bar ∧
          cfg.expected_bar_timeframe = 0) ∧
        (reports .OutsideSession issues = true ↔ c.session_containing bar.close_time = none) ∧
        (reports .GapInSession issues = true ↔
          Spaced c cfg (last_close_of (previous_bar (past ++ events.take i) bar.instrument)) bar) := by
  induction events generalizing p past with
  | nil =>
    refine ⟨fun hnone => absurd hnone (Option.some_ne_none _), fun found last hsome => ?_⟩
    obtain ⟨rfl, -⟩ := Prod.mk.inj (Option.some.inj hsome)
    exact ⟨rfl, fun i bar issues hbar => absurd hbar (by simp)⟩
  | cons e events ih =>
    -- The first event is a step; the later ones have it behind them.
    have hpast : ∀ i, past ++ (e :: events).take (i + 1) = past ++ [e] ++ events.take i := fun i => by simp
    have hfirst : ∀ {bar : Bar}, e = .bar bar →
        (p.of bar.instrument).last_bar_close = last_close_of (previous_bar (past ++ (e :: events).take 0) bar.instrument) :=
      fun {bar} _ => by simpa [last_close_of] using hremembers bar.instrument
    rw [examine]
    cases hstep : step log cfg (some c) p e with
    | none =>
      refine ⟨fun _ => ?_, fun found last hsome => absurd hsome.symm (Option.some_ne_none _)⟩
      obtain ⟨bar, rfl⟩ := step_eq_none hstep
      obtain ⟨hspaced, hzero⟩ := step_bar.1.mp hstep
      exact ⟨0, bar, rfl, hfirst rfl ▸ hspaced, hzero⟩
    | some result =>
      obtain ⟨issues, p'⟩ := result
      obtain ⟨hnone, hsome⟩ := ih (hremembers.step hstep)
      dsimp only
      refine ⟨fun hrest => ?_, fun found last hrest => ?_⟩
      · obtain ⟨i, bar, hbar, hspaced⟩ := hnone (Option.map_eq_none_iff.mp hrest)
        exact ⟨i + 1, bar, hbar, by rw [hpast]; exact hspaced⟩
      · obtain ⟨⟨later, last'⟩, hlater, hresult⟩ := Option.map_eq_some_iff.mp hrest
        obtain ⟨rfl, -⟩ := Prod.mk.inj hresult
        obtain ⟨hlength, hreported⟩ := hsome later last' hlater
        refine ⟨by rw [List.length_cons, List.length_cons, hlength], fun i bar issues' hbar hissues => ?_⟩
        cases i with
        | zero =>
          cases hbar
          cases hissues
          obtain ⟨houtside, hgap⟩ := step_bar.2 _ _ hstep
          rw [hfirst rfl] at hgap
          refine ⟨fun hdivides => ?_, houtside, hgap⟩
          have hnever : step log cfg (some c) p (.bar bar) = none := step_bar.1.mpr (hfirst rfl ▸ hdivides)
          rw [hstep] at hnever
          cases hnever
        | succ i =>
          rw [hpast]
          exact hreported i bar issues' hbar hissues

/-! ### Soundness and completeness about sessions -/

/-- A bar lies in a session with its whole interval. -/
def Inside (bar : Bar) (s : Session) : Prop :=
  s.is_open = true ∧ s.open_ ≤ bar.open_time ∧ bar.close_time ≤ s.close

def Held (c : Calendar) (bar : Bar) : Prop := ∃ s ∈ c.all, Inside bar s

/-- In the session of the previous bar, and more than a timeframe after it. -/
def Gap (c : Calendar) (cfg : ValidatorConfig) (prev : Option Bar) (bar : Bar) : Prop :=
  ∃ p ∈ prev, cfg.expected_bar_timeframe < bar.close_time - p.close_time ∧ ∃ s ∈ c.all, Inside p s ∧ Inside bar s

/-- Every bar of a stream with the one before it of its instrument. -/
def OnEvery (holds : Option Bar → Bar → Prop) (events : List MarketEvent) : Prop :=
  ∀ i bar, events[i]? = some (.bar bar) → holds (previous_bar (events.take i) bar.instrument) bar

/-- The stream is examined without a division by zero, the report has the issues of
every event, and each bar is reported as it should be. -/
def Sound (log : Rat → Rat) (cfg : ValidatorConfig) (c : Calendar) (events : List MarketEvent) : Prop :=
  ∃ found last, examine log cfg (some c) {} events = some (found, last) ∧ found.length = events.length ∧
    (∃ report, validate log cfg events (some c) = some report ∧ report.issues = found.flatten) ∧
    ∀ i bar issues, events[i]? = some (.bar bar) → found[i]? = some issues →
      (reports .OutsideSession issues = true ↔ ¬ Held c bar) ∧
      (cfg.require_complete_sessions = true → 0 < cfg.expected_bar_timeframe →
        (reports .GapInSession issues = true ↔ Gap c cfg (previous_bar (events.take i) bar.instrument) bar))

/-- The lookups of the code, at the close of a bar and just before the previous one,
tell where the two bars lie. -/
def Settled (c : Calendar) (cfg : ValidatorConfig) (prev : Option Bar) (bar : Bar) : Prop :=
  ¬ (Spaced c cfg (last_close_of prev) bar ∧ cfg.expected_bar_timeframe = 0) ∧
    (c.session_containing bar.close_time = none ↔ ¬ Held c bar) ∧
    (cfg.require_complete_sessions = true → 0 < cfg.expected_bar_timeframe →
      (Spaced c cfg (last_close_of prev) bar ↔ Gap c cfg prev bar))

theorem sound_iff_settled (events : List MarketEvent) :
    Sound log cfg c events ↔ OnEvery (Settled c cfg) events := by
  obtain ⟨hnone, hsome⟩ := examine_spec log cfg c Progress.remembers_nil events
  simp only [List.nil_append] at hnone hsome
  constructor
  · rintro ⟨found, last, hexamined, hlength, -, hreported⟩ i bar hbar
    have hplace : i < found.length := by
      rw [hlength]
      exact (List.getElem?_eq_some_iff.mp hbar).1
    obtain ⟨hundivided, houtside, hgap⟩ := (hsome found last hexamined).2 i bar _ hbar (List.getElem?_eq_getElem hplace)
    obtain ⟨houtside', hgap'⟩ := hreported i bar _ hbar (List.getElem?_eq_getElem hplace)
    exact ⟨hundivided, houtside.symm.trans houtside', fun hrequire htimeframe =>
      hgap.symm.trans (hgap' hrequire htimeframe)⟩
  · intro hsettled
    cases hexamined : examine log cfg (some c) {} events with
    | none =>
      obtain ⟨i, bar, hbar, hdivides⟩ := hnone hexamined
      exact absurd hdivides (hsettled i bar hbar).1
    | some result =>
      obtain ⟨found, last⟩ := result
      obtain ⟨hlength, hreported⟩ := hsome found last hexamined
      refine ⟨found, last, hexamined, hlength, ?_, fun i bar issues hbar hissues => ?_⟩
      · simp [validate, hexamined]
      · obtain ⟨-, hlookup, hspaced⟩ := hsettled i bar hbar
        obtain ⟨-, houtside, hgap⟩ := hreported i bar issues hbar hissues
        exact ⟨houtside.trans hlookup, fun hrequire htimeframe => hgap.trans (hspaced hrequire htimeframe)⟩

/-! ### Where sessions are separate -/

/-- A bar that closes its session. -/
def Ends (c : Calendar) (bar : Bar) : Prop := ∃ s ∈ c.all, Inside bar s ∧ bar.close_time = s.close

/-- A bar that opens before the session in which it closes. -/
def Straddles (c : Calendar) (bar : Bar) : Prop :=
  ∃ s ∈ c.all, s.contains bar.close_time = true ∧ bar.open_time < s.open_

/-- No bar is at an edge of its session, and with a timeframe of zero, where complete
sessions are required, no two bars in turn are in one session. -/
def Clean (c : Calendar) (cfg : ValidatorConfig) (events : List MarketEvent) : Prop :=
  (∀ bar, .bar bar ∈ events → ¬ Ends c bar ∧ ¬ Straddles c bar) ∧
    (cfg.require_complete_sessions = true → cfg.expected_bar_timeframe = 0 →
      OnEvery (fun prev bar => ¬ Gap c cfg prev bar) events)

section Separate

variable (hseparate : c.Separate)

include hseparate

theorem same_of_overlap {s t : Session} (hs : s ∈ c.all) (ht : t ∈ c.all) (hopen : s.is_open = true)
    (hopen' : t.is_open = true) {ts : Timestamp} (hin : s.open_ ≤ ts ∧ ts ≤ s.close)
    (hin' : t.open_ ≤ ts ∧ ts ≤ t.close) : s = t := by
  rcases lt_trichotomy s.date t.date with hless | hsame | hmore
  · have hover := hseparate.apart s hs t ht hopen hopen' hless
    exact absurd (hin.2.trans_lt (hover.trans_le hin'.1)) (lt_irrefl ts)
  · have hfound := c.find_by_date_mem hs
    rw [hsame, c.find_by_date_mem ht] at hfound
    exact (Option.some.inj hfound).symm
  · have hover := hseparate.apart t ht s hs hopen' hopen hmore
    exact absurd (hin'.2.trans_lt (hover.trans_le hin.1)) (lt_irrefl ts)

theorem lookup_iff (bar : Bar) :
    (c.session_containing bar.close_time = none ↔ ¬ Held c bar) ↔ ¬ Ends c bar ∧ ¬ Straddles c bar := by
  have hlength := bar.opens_first
  constructor
  · intro hlookup
    constructor
    · rintro ⟨s, hs, ⟨hopen, hopens, hcloses⟩, hend⟩
      cases hfound : c.session_containing bar.close_time with
      | none => exact hlookup.mp hfound ⟨s, hs, hopen, hopens, hcloses⟩
      | some t =>
        obtain ⟨ht, hin⟩ := hseparate.session_containing_iff.mp hfound
        obtain ⟨hopen', hafter, hbefore⟩ := Session.contains_iff.mp hin
        have hsame := same_of_overlap hseparate hs ht hopen hopen' ⟨hopens.trans hlength.le, hcloses⟩
          ⟨hafter, hbefore.le⟩
        rw [← hsame, hend] at hbefore
        exact lt_irrefl _ hbefore
    · rintro ⟨s, hs, hin, hearly⟩
      obtain ⟨hopen, hafter, hbefore⟩ := Session.contains_iff.mp hin
      have hfound := hseparate.session_containing_iff.mpr ⟨hs, hin⟩
      have hheld : Held c bar := by
        by_contra hnot
        rw [hlookup.mpr hnot] at hfound
        cases hfound
      obtain ⟨t, ht, hopen', hopens, hcloses⟩ := hheld
      have hsame := same_of_overlap hseparate hs ht hopen hopen' ⟨hafter, hbefore.le⟩
        ⟨hopens.trans hlength.le, hcloses⟩
      rw [← hsame] at hopens
      exact absurd hopens (not_le.mpr hearly)
  · rintro ⟨hends, hstraddles⟩
    constructor
    · rintro hnone ⟨s, hs, hopen, hopens, hcloses⟩
      have hbefore : bar.close_time < s.close :=
        lt_of_le_of_ne hcloses fun hend => hends ⟨s, hs, ⟨hopen, hopens, hcloses⟩, hend⟩
      have hfound := hseparate.session_containing_iff.mpr
        ⟨hs, Session.contains_iff.mpr ⟨hopen, hopens.trans hlength.le, hbefore⟩⟩
      rw [hnone] at hfound
      cases hfound
    · intro hnot
      cases hfound : c.session_containing bar.close_time with
      | none => rfl
      | some s =>
        obtain ⟨hs, hin⟩ := hseparate.session_containing_iff.mp hfound
        obtain ⟨hopen, -, hbefore⟩ := Session.contains_iff.mp hin
        exact absurd ⟨s, hs, hopen, not_lt.mp fun hearly => hstraddles ⟨s, hs, hin, hearly⟩, hbefore.le⟩ hnot

/-- Away from the edges of the sessions the two lookups find the session of both bars. -/
theorem same_session_iff {p bar : Bar} (hafter : p.close_time < bar.close_time) (hends : ¬ Ends c bar)
    (hstraddles : ¬ Straddles c bar) (hprevious : ¬ Straddles c p) :
    same_session c p.close_time bar.close_time = true ↔ ∃ s ∈ c.all, Inside p s ∧ Inside bar s := by
  have hlength := p.opens_first
  have hlength' := bar.opens_first
  constructor
  · intro hsame
    unfold same_session at hsame
    split at hsame
    · rename_i s t hfound hfound'
      obtain ⟨hs, hin⟩ := hseparate.session_containing_iff.mp hfound
      obtain ⟨ht, hin'⟩ := hseparate.session_containing_iff.mp hfound'
      have hdate : c.find_by_date s.date = some t := (of_decide_eq_true hsame) ▸ c.find_by_date_mem ht
      rw [c.find_by_date_mem hs] at hdate
      obtain rfl := Option.some.inj hdate
      obtain ⟨hopen, hfrom, -⟩ := Session.contains_iff.mp hin
      obtain ⟨-, hfrom', hto'⟩ := Session.contains_iff.mp hin'
      have hfirst : s.contains p.close_time = true :=
        Session.contains_iff.mpr ⟨hopen, hfrom.trans (Int.sub_le_self _ (by decide)), hafter.trans hto'⟩
      exact ⟨s, hs, ⟨hopen, not_lt.mp fun hearly => hprevious ⟨s, hs, hfirst, hearly⟩, (hafter.trans hto').le⟩,
        hopen, not_lt.mp fun hearly => hstraddles ⟨s, hs, hin', hearly⟩, hto'.le⟩
    · cases hsame
  · rintro ⟨s, hs, ⟨hopen, hopens, hcloses⟩, -, hopens', hcloses'⟩
    have hbefore : bar.close_time < s.close :=
      lt_of_le_of_ne hcloses' fun hend => hends ⟨s, hs, ⟨hopen, hopens', hcloses'⟩, hend⟩
    have hprev : s.contains (p.close_time - 1) = true :=
      Session.contains_iff.mpr ⟨hopen, hopens.trans (Int.le_sub_one_of_lt hlength),
        (Int.sub_lt_self _ (by decide)).trans_le hcloses⟩
    have hcur : s.contains bar.close_time = true :=
      Session.contains_iff.mpr ⟨hopen, hopens'.trans hlength'.le, hbefore⟩
    rw [same_session, hseparate.session_containing_iff.mpr ⟨hs, hprev⟩,
      hseparate.session_containing_iff.mpr ⟨hs, hcur⟩]
    exact decide_eq_true rfl

theorem spaced_iff_gap {prev : Option Bar} {bar : Bar} (hrequire : cfg.require_complete_sessions = true)
    (htimeframe : 0 ≤ cfg.expected_bar_timeframe)
    (hprevious : ∀ p ∈ prev, is_set p.close_time = true ∧ ¬ Straddles c p) (hends : ¬ Ends c bar)
    (hstraddles : ¬ Straddles c bar) : Spaced c cfg (last_close_of prev) bar ↔ Gap c cfg prev bar := by
  cases prev with
  | none =>
    constructor
    · rintro ⟨hset, -⟩
      exact absurd hset (by decide)
    · rintro ⟨p, hp, -⟩
      cases hp
  | some p =>
    obtain ⟨hset, hearly⟩ := hprevious p rfl
    constructor
    · rintro ⟨-, -, -, hsame, hdelta⟩
      have hafter : p.close_time < bar.close_time := Int.lt_of_sub_pos (htimeframe.trans_lt hdelta)
      exact ⟨p, rfl, hdelta, (same_session_iff hseparate hafter hends hstraddles hearly).mp hsame⟩
    · rintro ⟨p, hp, hdelta, hboth⟩
      cases hp
      have hafter : p.close_time < bar.close_time := Int.lt_of_sub_pos (htimeframe.trans_lt hdelta)
      exact ⟨hset, ne_of_gt hafter, hrequire, (same_session_iff hseparate hafter hends hstraddles hearly).mpr hboth,
        hdelta⟩

/-- Between separate sessions the lookups tell where the bars lie exactly in a clean
stream. -/
theorem settled_iff_clean {events : List MarketEvent}
    (hset : ∀ bar, .bar bar ∈ events → is_set bar.close_time = true) :
    OnEvery (Settled c cfg) events ↔ Clean c cfg events := by
  have hbefore : ∀ {i id p}, p ∈ previous_bar (events.take i) id → MarketEvent.bar p ∈ events :=
    fun hp => List.mem_of_mem_take (previous_bar_mem hp)
  constructor
  · intro hsettled
    have hedges : ∀ bar, .bar bar ∈ events → ¬ Ends c bar ∧ ¬ Straddles c bar := by
      intro bar hbar
      obtain ⟨i, hi⟩ := List.mem_iff_getElem?.mp hbar
      exact (lookup_iff hseparate bar).mp (hsettled i bar hi).2.1
    refine ⟨hedges, fun hrequire hzero i bar hbar hgap => (hsettled i bar hbar).1 ⟨?_, hzero⟩⟩
    obtain ⟨hends, hstraddles⟩ := hedges bar (List.mem_of_getElem? hbar)
    exact (spaced_iff_gap hseparate hrequire (le_of_eq hzero.symm)
      (fun p hp => ⟨hset p (hbefore hp), (hedges p (hbefore hp)).2⟩) hends hstraddles).mpr hgap
  · rintro ⟨hedges, hapart⟩ i bar hbar
    obtain ⟨hends, hstraddles⟩ := hedges bar (List.mem_of_getElem? hbar)
    have hgap : cfg.require_complete_sessions = true → 0 ≤ cfg.expected_bar_timeframe →
        (Spaced c cfg (last_close_of (previous_bar (events.take i) bar.instrument)) bar ↔
          Gap c cfg (previous_bar (events.take i) bar.instrument) bar) :=
      fun hrequire htimeframe => spaced_iff_gap hseparate hrequire htimeframe
        (fun p hp => ⟨hset p (hbefore hp), (hedges p (hbefore hp)).2⟩) hends hstraddles
    refine ⟨fun ⟨hspaced, hzero⟩ => ?_, (lookup_iff hseparate bar).mpr ⟨hends, hstraddles⟩,
      fun hrequire htimeframe => hgap hrequire htimeframe.le⟩
    have hrequire := hspaced.2.2.1
    exact hapart hrequire hzero i bar hbar ((hgap hrequire (le_of_eq hzero.symm)).mp hspaced)

end Separate

/-- Whatever the calendar, the validator is sound and complete about the sessions of a
stream exactly where its lookups tell where the bars lie. Between separate sessions
these are the streams without a bar at an edge of its session, and with a timeframe of
zero, where complete sessions are required, those without two bars in turn in one. -/
theorem validate_sound_iff (log : Rat → Rat) (cfg : ValidatorConfig) (c : Calendar) {events : List MarketEvent}
    (hset : ∀ bar, .bar bar ∈ events → is_set bar.close_time = true) :
    (Sound log cfg c events ↔ OnEvery (Settled c cfg) events) ∧
      (c.Separate → (Sound log cfg c events ↔ Clean c cfg events)) :=
  ⟨sound_iff_settled events, fun hseparate =>
    (sound_iff_settled events).trans (settled_iff_clean hseparate hset)⟩

/-- A day with one session, of ten nanoseconds. -/
def oneSession : Calendar where
  all := [{ date := 0, open_ := 10, close := 20, kind := .Regular }]
  increasing := List.pairwise_singleton _ _
  dated s hs := by
    rw [List.mem_singleton.mp hs]
    exact Int.dvd_zero _

theorem oneSession_separate : oneSession.Separate := by
  have hsame : ∀ s ∈ oneSession.all, s = { date := 0, open_ := 10, close := 20, kind := .Regular } :=
    fun s hs => List.mem_singleton.mp hs
  refine ⟨⟨fun s hs _ => ?_, fun s hs t ht _ _ hless => ?_⟩, fun s hs t ht _ _ hless => ?_⟩
  · rw [hsame s hs]
    decide
  · rw [hsame s hs, hsame t ht] at hless
    exact absurd hless (by decide)
  · rw [hsame s hs, hsame t ht] at hless
    exact absurd hless (by decide)

/-- A bar of one nanosecond. -/
def barAt (close_time : Timestamp)
    (h : (flatBar 1 close_time 1 1).toOption.isSome = true := by decide +kernel) : Bar :=
  Result.value (flatBar 1 close_time 1 1) h

/-- Two bars within the session are reported as they should be. -/
theorem validate_sound_inside : Sound (fun _ => 0) { expected_bar_timeframe := 1 } oneSession
    [.bar (barAt 12), .bar (barAt 15)] := by
  have hset : ∀ bar, .bar bar ∈ [MarketEvent.bar (barAt 12), .bar (barAt 15)] → is_set bar.close_time = true := by
    intro bar hbar
    simp only [List.mem_cons, MarketEvent.bar.injEq, List.not_mem_nil, or_false] at hbar
    obtain rfl | rfl := hbar <;> decide
  refine ((validate_sound_iff (fun _ => 0) { expected_bar_timeframe := 1 } oneSession hset).2
    oneSession_separate).mpr ⟨fun bar hbar => ?_, fun _ hzero => absurd hzero (by decide)⟩
  simp only [List.mem_cons, MarketEvent.bar.injEq, List.not_mem_nil, or_false] at hbar
  obtain rfl | rfl := hbar
  · constructor
    · rintro ⟨s, hs, -, hend⟩
      rw [List.mem_singleton.mp hs] at hend
      exact absurd hend (by decide)
    · rintro ⟨s, hs, -, hearly⟩
      rw [List.mem_singleton.mp hs] at hearly
      exact absurd hearly (by decide)
  · constructor
    · rintro ⟨s, hs, -, hend⟩
      rw [List.mem_singleton.mp hs] at hend
      exact absurd hend (by decide)
    · rintro ⟨s, hs, -, hearly⟩
      rw [List.mem_singleton.mp hs] at hearly
      exact absurd hearly (by decide)

/-- The last bar of the session is reported as outside it, the gap before it is not,
and a timeframe of zero makes the code divide by it. -/
theorem validate_unsound :
    (∃ found last, examine (fun _ => 0) { expected_bar_timeframe := 1 } (some oneSession) {}
        [.bar (barAt 12), .bar (barAt 20)] = some (found, last) ∧
      found.map (reports .OutsideSession) = [false, true] ∧ found.map (reports .GapInSession) = [false, false]) ∧
    Held oneSession (barAt 20) ∧
    ¬ Sound (fun _ => 0) { expected_bar_timeframe := 1 } oneSession [.bar (barAt 12), .bar (barAt 20)] ∧
    validate (fun _ => 0) { expected_bar_timeframe := 0 } [.bar (barAt 12), .bar (barAt 15)] (some oneSession) =
      none := by
  have hheld : Held oneSession (barAt 20) := ⟨_, List.mem_singleton_self _, by decide, by decide, by decide⟩
  have hexamined : ∃ found last, examine (fun _ => 0) { expected_bar_timeframe := 1 } (some oneSession) {}
      [.bar (barAt 12), .bar (barAt 20)] = some (found, last) ∧
      found.map (reports .OutsideSession) = [false, true] ∧ found.map (reports .GapInSession) = [false, false] :=
    ⟨_, _, rfl, by decide +kernel, by decide +kernel⟩
  refine ⟨hexamined, hheld, fun hsound => ?_, ?_⟩
  · obtain ⟨-, hlookup, -⟩ := (sound_iff_settled _).mp hsound 1 (barAt 20) rfl
    exact absurd hheld (hlookup.mp (by decide +kernel))
  · have hnone : (validate (fun _ => 0) { expected_bar_timeframe := 0 } [.bar (barAt 12), .bar (barAt 15)]
        (some oneSession)).isNone = true := by decide +kernel
    exact Option.isNone_iff_eq_none.mp hnone

end DataValidator

end ptl.market
