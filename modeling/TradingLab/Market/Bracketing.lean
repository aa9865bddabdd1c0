import Mathlib.Data.List.Chain
import TradingLab.Market.Calendar
import TradingLab.Market.Merge

namespace ptl.market

def CorporateActionKind.to_string : CorporateActionKind → String
  | .Split => "split"
  | .CashDividend => "cash_dividend"

def kind_name : MarketEvent → String
  | .bar _ => "bar"
  | .quote _ => "quote"
  | .trade _ => "trade"
  | .corporateAction e => e.kind.to_string
  | .session e => if e.kind = .Open then "session_open" else "session_close"
  | .timer _ => "timer"

def Session.open_ev (s : Session) : MarketEvent :=
  .session { time := { exchange_time := s.open_, receive_time := s.open_ }, kind := .Open }

def Session.close_ev (s : Session) : MarketEvent :=
  .session { time := { exchange_time := s.close, receive_time := s.close }, kind := .Close }

@[simp] theorem exchange_time_of_open_ev (s : Session) : exchange_time_of s.open_ev = s.open_ := rfl

@[simp] theorem exchange_time_of_close_ev (s : Session) : exchange_time_of s.close_ev = s.close := rfl

/-- The close of the session entered last, if one was entered. -/
def Session.closing (current : Session) : List MarketEvent :=
  if is_set current.date then [current.close_ev] else []

/-- The events still to come, from within the session entered last. Its date is
unset until the first is entered. -/
def bracketFrom (calendar : Calendar) (current : Session) : List MarketEvent → Result (List MarketEvent)
  | [] => .ok current.closing
  | e :: rest =>
    match calendar.session_containing (exchange_time_of e) with
    | none =>
      .error (make_error .ValidationFailed "event falls outside any trading session"
        (to_iso8601 (exchange_time_of e) ++ " " ++ kind_name e))
    | some s =>
      if s.date ≠ current.date then
        (bracketFrom calendar s rest).map fun out => current.closing ++ s.open_ev :: e :: out
      else (bracketFrom calendar current rest).map (e :: ·)

/-- The events with those of the sessions they fall in. -/
def with_session_events (events : List MarketEvent) (calendar : Calendar) : Result (List MarketEvent) :=
  if events = [] then .ok events else bracketFrom calendar {} events

/-! ### The runs of one session -/

/-- A session and its events, between its open and its close. -/
def bracket (run : Session × List MarketEvent) : List MarketEvent :=
  run.1.open_ev :: run.2 ++ [run.1.close_ev]

theorem bracket_getLast? (run : Session × List MarketEvent) : (bracket run).getLast? = some run.1.close_ev :=
  List.getLast?_concat

/-- Events in the runs of their sessions, each run as long as it can be. -/
structure Runs (calendar : Calendar) (runs : List (Session × List MarketEvent)) : Prop where
  nonempty : ∀ run ∈ runs, run.2 ≠ []
  contained : ∀ run ∈ runs, ∀ e ∈ run.2, calendar.session_containing (exchange_time_of e) = some run.1
  maximal : runs.IsChain fun run run' => run.1.date ≠ run'.1.date

/-- Only an event that no session contains is refused. -/
theorem bracketFrom_ok_iff {calendar : Calendar} {current : Session} {events : List MarketEvent} :
    (∃ out, bracketFrom calendar current events = .ok out) ↔
      ∀ e ∈ events, (calendar.session_containing (exchange_time_of e)).isSome = true := by
  induction events generalizing current with
  | nil => exact ⟨fun _ e he => (by cases he), fun _ => ⟨_, rfl⟩⟩
  | cons e rest ih =>
    rw [List.forall_mem_cons, bracketFrom]
    cases hsession : calendar.session_containing (exchange_time_of e) with
    | none => exact ⟨fun ⟨out, hok⟩ => (by cases hok), fun hall => (by cases hall.1)⟩
    | some s =>
      by_cases hnew : s.date ≠ current.date
      · rw [← @ih s]
        simp only [if_pos hnew, Option.isSome_some, true_and]
        cases bracketFrom calendar s rest with
        | error e => exact ⟨fun ⟨out, hok⟩ => (by cases hok), fun ⟨out, hok⟩ => (by cases hok)⟩
        | ok out => exact ⟨fun _ => ⟨_, rfl⟩, fun _ => ⟨_, rfl⟩⟩
      · rw [← @ih current]
        simp only [if_neg hnew, Option.isSome_some, true_and]
        cases bracketFrom calendar current rest with
        | error e => exact ⟨fun ⟨out, hok⟩ => (by cases hok), fun ⟨out, hok⟩ => (by cases hok)⟩
        | ok out => exact ⟨fun _ => ⟨_, rfl⟩, fun _ => ⟨_, rfl⟩⟩

theorem Runs.nil (calendar : Calendar) : Runs calendar [] where
  nonempty run hrun := by cases hrun
  contained run hrun := by cases hrun
  maximal := .nil

/-- A run of another session is put before runs. -/
theorem Runs.cons {calendar : Calendar} {s : Session} {events : List MarketEvent}
    {runs : List (Session × List MarketEvent)} (hruns : Runs calendar runs) (hnonempty : events ≠ [])
    (hcontained : ∀ e ∈ events, calendar.session_containing (exchange_time_of e) = some s)
    (hother : ∀ run ∈ runs.head?, s.date ≠ run.1.date) : Runs calendar ((s, events) :: runs) where
  nonempty := List.forall_mem_cons.mpr ⟨hnonempty, hruns.nonempty⟩
  contained := List.forall_mem_cons.mpr ⟨hcontained, hruns.contained⟩
  maximal := List.isChain_cons.mpr ⟨hother, hruns.maximal⟩

/-- Within a session that was entered, what is left of its run comes first, then
its close and the later runs. -/
theorem bracketFrom_runs {calendar : Calendar} {current : Session} {events out : List MarketEvent}
    (hentered : calendar.find_by_date current.date = some current) (hset : is_set current.date = true)
    (hok : bracketFrom calendar current events = .ok out) :
    ∃ more runs, out = more ++ current.close_ev :: runs.flatMap bracket ∧
      events = more ++ runs.flatMap Prod.snd ∧
      (∀ e ∈ more, calendar.session_containing (exchange_time_of e) = some current) ∧
      Runs calendar runs ∧ ∀ run ∈ runs.head?, current.date ≠ run.1.date := by
  have hclosing : current.closing = [current.close_ev] := if_pos hset
  induction events generalizing current out with
  | nil =>
    rw [bracketFrom, hclosing] at hok
    cases hok
    exact ⟨[], [], rfl, rfl, fun e he => (by cases he), .nil calendar, fun run hrun => (by cases hrun)⟩
  | cons e rest ih =>
    rw [bracketFrom] at hok
    cases hsession : calendar.session_containing (exchange_time_of e) with
    | none =>
      rw [hsession] at hok
      cases hok
    | some s =>
      obtain ⟨hdate, -, hdated⟩ := calendar.session_containing_some hsession
      rw [hsession] at hok
      dsimp only at hok
      by_cases hnew : s.date ≠ current.date
      · rw [if_pos hnew] at hok
        cases hlater : bracketFrom calendar s rest with
        | error e =>
          rw [hlater] at hok
          cases hok
        | ok later =>
          rw [hlater] at hok
          cases hok
          obtain ⟨more, runs, rfl, rfl, hmore, hruns, hother⟩ := ih hdate hdated hlater (if_pos hdated)
          have hrun := hruns.cons (List.cons_ne_nil e more) (List.forall_mem_cons.mpr ⟨hsession, hmore⟩) hother
          refine ⟨[], (s, e :: more) :: runs, ?_, rfl, fun e he => (by cases he), hrun, ?_⟩
          · rw [hclosing, List.flatMap_cons, bracket]
            simp
          · rintro run ⟨⟩
            exact hnew.symm
      · rw [if_neg hnew] at hok
        -- the same date is the same session, as the calendar holds a date once
        have hsame : s = current := by
          rw [not_not.mp hnew, hentered] at hdate
          exact (Option.some.inj hdate).symm
        cases hlater : bracketFrom calendar current rest with
        | error e =>
          rw [hlater] at hok
          cases hok
        | ok later =>
          rw [hlater] at hok
          cases hok
          obtain ⟨more, runs, rfl, rfl, hmore, hruns, hother⟩ := ih hentered hset hlater hclosing
          exact ⟨e :: more, runs, rfl, rfl,
            List.forall_mem_cons.mpr ⟨hsession.trans (congrArg some hsame), hmore⟩, hruns, hother⟩

/-- The events of a successful call are the runs of their sessions, and each run
is returned between the open and the close of its session. -/
theorem with_session_events_runs {calendar : Calendar} {events out : List MarketEvent}
    (hok : with_session_events events calendar = .ok out) :
    ∃ runs, Runs calendar runs ∧ events = runs.flatMap Prod.snd ∧ out = runs.flatMap bracket := by
  unfold with_session_events at hok
  split at hok
  · rename_i hempty
    cases hok
    exact ⟨[], .nil calendar, hempty, hempty⟩
  · rename_i hnonempty
    obtain ⟨e, rest, rfl⟩ := List.exists_cons_of_ne_nil hnonempty
    rw [bracketFrom] at hok
    cases hsession : calendar.session_containing (exchange_time_of e) with
    | none =>
      rw [hsession] at hok
      cases hok
    | some s =>
      obtain ⟨hdate, -, hdated⟩ := calendar.session_containing_some hsession
      have hnew : s.date ≠ ({} : Session).date := of_decide_eq_true hdated
      rw [hsession] at hok
      dsimp only at hok
      rw [if_pos hnew] at hok
      cases hlater : bracketFrom calendar s rest with
      | error e =>
        rw [hlater] at hok
        cases hok
      | ok later =>
        rw [hlater] at hok
        cases hok
        obtain ⟨more, runs, rfl, rfl, hmore, hruns, hother⟩ := bracketFrom_runs hdate hdated hlater
        have hrun := hruns.cons (List.cons_ne_nil e more) (List.forall_mem_cons.mpr ⟨hsession, hmore⟩) hother
        refine ⟨(s, e :: more) :: runs, hrun, rfl, ?_⟩
        have hfirst : ({} : Session).closing = [] := by decide
        rw [hfirst, List.flatMap_cons, bracket]
        simp

theorem with_session_events_ok_iff {calendar : Calendar} {events : List MarketEvent} :
    (∃ out, with_session_events events calendar = .ok out) ↔
      ∀ e ∈ events, (calendar.session_containing (exchange_time_of e)).isSome = true := by
  unfold with_session_events
  split
  · rename_i hempty
    rw [hempty]
    exact ⟨fun _ e he => (by cases he), fun _ => ⟨_, rfl⟩⟩
  · exact bracketFrom_ok_iff

/-! ### In the order of time -/

theorem Runs.tail {calendar : Calendar} {run : Session × List MarketEvent}
    {runs : List (Session × List MarketEvent)} (hruns : Runs calendar (run :: runs)) : Runs calendar runs where
  nonempty := (List.forall_mem_cons.mp hruns.nonempty).2
  contained := (List.forall_mem_cons.mp hruns.contained).2
  maximal := hruns.maximal.tail

/-- The event of a run is in its session, which is one of the calendar's. -/
theorem Runs.of_mem {calendar : Calendar} {runs : List (Session × List MarketEvent)}
    (hruns : Runs calendar runs) {run : Session × List MarketEvent} (hrun : run ∈ runs) {e : MarketEvent}
    (he : e ∈ run.2) : run.1 ∈ calendar.all ∧ run.1.contains (exchange_time_of e) = true := by
  obtain ⟨hdate, hin, -⟩ := calendar.session_containing_some (hruns.contained run hrun e he)
  exact ⟨(calendar.find_by_date_some hdate).1, hin⟩

theorem bracket_chronological {run : Session × List MarketEvent}
    (hin : ∀ e ∈ run.2, run.1.contains (exchange_time_of e) = true) (hnonempty : run.2 ≠ [])
    (hchron : Chronological run.2) : Chronological (bracket run) := by
  have hbounds : ∀ e ∈ run.2, run.1.open_ ≤ exchange_time_of e ∧ exchange_time_of e ≤ run.1.close := by
    intro e he
    obtain ⟨-, hafter, hbefore⟩ := Session.contains_iff.mp (hin e he)
    exact ⟨hafter, hbefore.le⟩
  obtain ⟨e, he⟩ := List.exists_mem_of_ne_nil _ hnonempty
  have hlength : run.1.open_ ≤ run.1.close := (hbounds e he).1.trans (hbounds e he).2
  rw [chronological_iff_pairwise] at hchron ⊢
  refine List.pairwise_cons.mpr ⟨fun e' he' => ?_, List.pairwise_append.mpr ⟨hchron, by simp, ?_⟩⟩
  · rcases List.mem_append.mp he' with hevent | hlast
    · exact (hbounds e' hevent).1
    · rw [List.mem_singleton.mp hlast]
      exact hlength
  · intro e' he' last hlast
    rw [List.mem_singleton.mp hlast]
    exact (hbounds e' he').2

/-- In an orderly calendar the session of a run is over when that of the next
one opens. -/
theorem Runs.follow {calendar : Calendar} (horderly : calendar.Orderly) {run run' : Session × List MarketEvent}
    {runs : List (Session × List MarketEvent)} (hruns : Runs calendar (run :: run' :: runs))
    (hordered : ∀ e ∈ run.2, ∀ e' ∈ run'.2, exchange_time_of e ≤ exchange_time_of e') :
    run.1.close ≤ run'.1.open_ := by
  have hrun : run ∈ run :: run' :: runs := List.mem_cons_self
  have hrun' : run' ∈ run :: run' :: runs := List.mem_cons_of_mem _ List.mem_cons_self
  obtain ⟨e, he⟩ := List.exists_mem_of_ne_nil _ (hruns.nonempty run hrun)
  obtain ⟨e', he'⟩ := List.exists_mem_of_ne_nil _ (hruns.nonempty run' hrun')
  obtain ⟨hmem, hin⟩ := hruns.of_mem hrun he
  obtain ⟨hmem', hin'⟩ := hruns.of_mem hrun' he'
  obtain ⟨hopen, hafter, -⟩ := Session.contains_iff.mp hin
  obtain ⟨hopen', -, hbefore'⟩ := Session.contains_iff.mp hin'
  rcases lt_or_gt_of_ne (List.isChain_cons_cons.mp hruns.maximal).1 with hless | hmore
  · exact horderly.follow _ hmem _ hmem' hopen hopen' hless
  · -- sessions the other way round would hold their events the other way round
    have hover := horderly.follow _ hmem' _ hmem hopen' hopen hmore
    exact absurd ((hover.trans hafter).trans (hordered e he e' he')) (not_le.mpr hbefore')

theorem Runs.chronological {calendar : Calendar} (horderly : calendar.Orderly)
    {runs : List (Session × List MarketEvent)} (hruns : Runs calendar runs)
    (hchron : Chronological (runs.flatMap Prod.snd)) : Chronological (runs.flatMap bracket) := by
  induction runs with
  | nil => exact .nil
  | cons run rest ih =>
    rw [List.flatMap_cons, chronological_iff_pairwise, List.pairwise_append] at hchron
    obtain ⟨hfirst, hrest, hordered⟩ := hchron
    have hbracket := bracket_chronological (fun e he => (hruns.of_mem List.mem_cons_self he).2)
      (hruns.nonempty run List.mem_cons_self) (chronological_iff_pairwise.mpr hfirst)
    have hlater := ih hruns.tail (chronological_iff_pairwise.mpr hrest)
    refine hbracket.append hlater fun last hlast next hnext => ?_
    cases rest with
    | nil => cases hnext
    | cons run' rest =>
      rw [bracket_getLast?] at hlast
      cases hlast
      cases hnext
      refine hruns.follow horderly fun e he e' he' => hordered e he e' ?_
      exact List.mem_append_left _ he'

/-! ### Bars -/

/-- The interval of a bar is one of a session's. -/
def Bar.Inside (b : Bar) (s : Session) : Prop := s.is_open = true ∧ s.open_ ≤ b.open_time ∧ b.close_time ≤ s.close

/-- Bars in the order of time between the session events, every run of bars of
one session between its open and its close. -/
def Bracketed (calendar : Calendar) (bars : List Bar) (out : List MarketEvent) : Prop :=
  Chronological out ∧ ∃ runs, Runs calendar runs ∧ bars.map .bar = runs.flatMap Prod.snd ∧
    out = runs.flatMap bracket ∧ ∀ run ∈ runs, ∀ b, .bar b ∈ run.2 → b.Inside run.1

/-- In an orderly calendar a bar that closes within its session is looked up
there. -/
theorem Bar.Inside.session_containing {calendar : Calendar} (horderly : calendar.Orderly) {b : Bar} {s : Session}
    (hmem : s ∈ calendar.all) (hinside : b.Inside s) (hbefore : b.close_time < s.close) :
    calendar.session_containing (exchange_time_of (.bar b)) = some s := by
  have hstamp : exchange_time_of (.bar b) = b.close_time := b.exchange_time_eq
  rw [hstamp, horderly.session_containing_iff, Session.contains_iff]
  exact ⟨hmem, hinside.1, hinside.2.1.trans b.opens_first.le, hbefore⟩

theorem Bar.Inside.unique {calendar : Calendar} (horderly : calendar.Orderly) {b : Bar} {s t : Session}
    (hs : s ∈ calendar.all) (ht : t ∈ calendar.all) (hinside : b.Inside s) (hinside' : b.Inside t) : s = t := by
  refine horderly.unique b.open_time hs ht ?_ ?_
  · exact Session.contains_iff.mpr ⟨hinside.1, hinside.2.1, lt_of_lt_of_le b.opens_first hinside.2.2⟩
  · exact Session.contains_iff.mpr ⟨hinside'.1, hinside'.2.1, lt_of_lt_of_le b.opens_first hinside'.2.2⟩

instance Bar.decidableInside (b : Bar) (s : Session) : Decidable (b.Inside s) :=
  inferInstanceAs (Decidable (_ ∧ _ ∧ _))

/-- The bar of an hour of a day of January 2024, at 100 throughout. -/
def januaryHour (day : Nat) (hour : Int) : Result Bar :=
  Bar.make 0 (from_ymd 2024 1 day + hours hour) (from_ymd 2024 1 day + hours (hour + 1)) 100 100 100 100 1000 0

def januaryBar (day : Nat) (hour : Int)
    (h : (januaryHour day hour).toOption.isSome = true := by decide +kernel) : Bar :=
  Result.value (januaryHour day hour) h

def winterBars : List Bar := [januaryBar 2 15, januaryBar 2 19, januaryBar 3 15]

theorem us_equities_2024 : ∃ calendar, Calendar.build us_equities_spec 2024 2024 = .ok calendar :=
  ⟨_, rfl⟩

/-- Sessions that last into the next one. -/
def longSpec : CalendarSpec := { us_equities_spec with regular_close := hours 40 }

theorem longSpec_2024 : ∃ calendar, Calendar.build longSpec 2024 2024 = .ok calendar :=
  ⟨_, rfl⟩

def longSession (day : Nat) : Session := longSpec.session_of 2024 .Regular (from_ymd 2024 1 day)

end ptl.market
