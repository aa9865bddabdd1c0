import TradingLab.Execution.Broker
import TradingLab.Market.Merge
import TradingLab.TableSum

open Std (TreeMap)
open ptl.market

namespace ptl.execution

/-! ### The book -/

inductive QuoteCondition where
  | Normal
  | Locked
  | Crossed
  | Stale
  | Absent
  deriving DecidableEq, Repr

inductive TradingState where
  | Trading
  | Halted
  | Closed
  | Auction
  deriving DecidableEq, Repr

/-- How often quotes are sampled. -/
inductive QuoteTier where
  | OneMinute
  | OneSecond
  | Continuous
  deriving DecidableEq, Repr

def default_staleness_budget : QuoteTier → Duration
  | .OneMinute => 60 * 1000000000
  | .OneSecond => 2 * 1000000000
  | .Continuous => 5 * 1000000000

structure QuoteState where
  quote : Option Quote := none
  condition : QuoteCondition := .Absent
  trading_state : TradingState := .Closed
  tier : QuoteTier := .OneMinute
  age : Duration := 0
  present : Bool := false
  deriving DecidableEq, Repr

def QuoteState.executable (s : QuoteState) : Bool :=
  s.present ∧ s.trading_state = .Trading ∧ (s.condition = .Normal ∨ s.condition = .Locked)

structure QuoteBookConfig where
  tier : QuoteTier := .OneMinute
  staleness_budget : Duration := 0
  reject_crossed : Bool := true
  deriving DecidableEq, Repr

structure QuoteBookStats where
  updates_accepted : Nat := 0
  updates_rejected_out_of_order : Nat := 0
  updates_rejected_crossed : Nat := 0
  locked_observed : Nat := 0
  stale_reads : Nat := 0
  halted_reads : Nat := 0
  deriving DecidableEq, Repr

/-- What is known of an instrument. What is present is a quote with its own time. -/
structure Entry where
  quote : Option Quote := none
  received : Timestamp := kNoTimestamp
  trading_state : TradingState := .Trading
  present : Bool := false
  held : present = true → ∃ q, quote = some q ∧ q.time.exchange_time = received := by simp

/-- The entry with a quote put into it. -/
def Entry.hold (e : Entry) (quote : Quote) : Entry where
  quote := some quote
  received := quote.time.exchange_time
  trading_state := e.trading_state
  present := true
  held := fun _ => ⟨quote, rfl, rfl⟩

structure QuoteBook where
  cfg : QuoteBookConfig
  budget : Duration
  entries : TreeMap InstrumentId Entry := ∅
  stats : QuoteBookStats := {}

def QuoteBook.create (cfg : QuoteBookConfig) : QuoteBook where
  cfg
  budget := if cfg.staleness_budget > 0 then cfg.staleness_budget else default_staleness_budget cfg.tier

/-- `entries_[index]`, which is there from then on. -/
def QuoteBook.entry (b : QuoteBook) (instrument : InstrumentId) : Entry := b.entries.getD instrument {}

def QuoteBook.update (b : QuoteBook) (quote : Quote) : Result Bool × QuoteBook :=
  let entry := b.entry quote.instrument
  let arriving := quote.time.exchange_time
  if entry.present ∧ arriving < entry.received then
    (.error (bad "quote precedes the one already held"
        (to_iso8601 arriving ++ " < " ++ to_iso8601 entry.received)),
      { b with
        entries := b.entries.insert quote.instrument entry
        stats := { b.stats with updates_rejected_out_of_order := b.stats.updates_rejected_out_of_order + 1 } })
  else
    let crossed := quote.ask < quote.bid
    let stats := if crossed then
        { b.stats with updates_rejected_crossed := b.stats.updates_rejected_crossed + 1 }
      else b.stats
    if crossed ∧ b.cfg.reject_crossed then
      (.error (bad "consolidated quote is crossed" (to_iso8601 arriving)),
        { b with entries := b.entries.insert quote.instrument entry, stats })
    else
      let stats := if quote.ask = quote.bid then { stats with locked_observed := stats.locked_observed + 1 } else stats
      (.ok true, { b with
        entries := b.entries.insert quote.instrument (entry.hold quote)
        stats := { stats with updates_accepted := stats.updates_accepted + 1 } })

def QuoteBook.set_trading_state (b : QuoteBook) (instrument : InstrumentId) (state : TradingState) : QuoteBook :=
  { b with entries := b.entries.insert instrument { b.entry instrument with trading_state := state } }

/-- The quote that an entry holds. -/
def Entry.deref (e : Entry) (hpresent : e.present = true) : Quote :=
  e.quote.get (by
    obtain ⟨q, hq, -⟩ := e.held hpresent
    rw [hq]
    rfl)

/-- The state as of `now`. Reads are counted. -/
def QuoteBook.state_at (b : QuoteBook) (instrument : InstrumentId) (now : Timestamp) : QuoteState × QuoteBook :=
  match b.entries[instrument]? with
  | none => ({ tier := b.cfg.tier }, b)
  | some entry =>
    if hpresent : entry.present then
      let quote := entry.deref hpresent
      let age := now - entry.received
      let stats := if entry.trading_state = .Halted then
          { b.stats with halted_reads := b.stats.halted_reads + 1 }
        else b.stats
      let out : QuoteState :=
        { quote := some quote, trading_state := entry.trading_state, tier := b.cfg.tier, age, present := true }
      -- A quote from the future is as unusable as an old one.
      if age < 0 ∨ age > b.budget then
        ({ out with condition := .Stale }, { b with stats := { stats with stale_reads := stats.stale_reads + 1 } })
      else
        ({ out with condition :=
            if quote.ask < quote.bid then .Crossed else if quote.ask = quote.bid then .Locked else .Normal },
          { b with stats })
    else ({ trading_state := entry.trading_state, tier := b.cfg.tier }, b)

/-! ### The router -/

inductive PriceSource where
  | Quote
  | SyntheticFromBar
  | None
  deriving DecidableEq, Repr

/-- Market state as it is routed, with whether an order may execute on it. -/
structure RoutedMarket where
  state : MarketState := {}
  source : PriceSource := .None
  quote_state : QuoteState := {}
  executable : Bool := false
  deriving DecidableEq, Repr

def route (b : QuoteBook) (instrument : InstrumentId) (now : Timestamp) : RoutedMarket × QuoteBook :=
  let (quote_state, b) := b.state_at instrument now
  match quote_state.executable, quote_state.quote with
  | true, some q =>
    ({ state := {
        bid := q.bid, ask := q.ask, bid_size := q.bid_size, ask_size := q.ask_size
        has_quote := true, volume_known := false }
       source := .Quote
       quote_state
       executable := true }, b)
  | _, _ => ({ quote_state }, b)

/-- A bar knows of no halt. -/
def route_from_bar (bar : Bar) (intraday_volatility : Rat) : RoutedMarket where
  state := {
    bid := bar.close, ask := bar.close, interval_volume := bar.volume, intraday_volatility, has_quote := false }
  source := .SyntheticFromBar
  executable := true

def route_preferring_quote (b : QuoteBook) (bar : Bar) (intraday_volatility : Rat) (now : Timestamp) :
    RoutedMarket × QuoteBook :=
  let (quoted, b) := route b bar.instrument now
  if quoted.executable then
    ({ quoted with
       state := { quoted.state with interval_volume := bar.volume, intraday_volatility, volume_known := true } }, b)
  else if quoted.quote_state.present ∧ quoted.quote_state.trading_state = .Halted then (quoted, b)
  else (route_from_bar bar intraday_volatility, b)

/-! ### Runs -/

/-- The calls on a book. -/
inductive BookCall where
  | update (quote : Quote)
  | set_trading_state (instrument : InstrumentId) (state : TradingState)
  | state_at (instrument : InstrumentId) (now : Timestamp)

def QuoteBook.call (b : QuoteBook) : BookCall → QuoteBook
  | .update quote => (b.update quote).2
  | .set_trading_state instrument state => b.set_trading_state instrument state
  | .state_at instrument now => (b.state_at instrument now).2

def QuoteBook.after (b : QuoteBook) (calls : List BookCall) : QuoteBook := calls.foldl QuoteBook.call b

/-- The state a call sets for an instrument. -/
def BookCall.stateFor (instrument : InstrumentId) : BookCall → Option TradingState
  | .set_trading_state instrument' state => if instrument' = instrument then some state else none
  | _ => none

/-- The last trading state set for an instrument. -/
def lastState (calls : List BookCall) (instrument : InstrumentId) : Option TradingState :=
  (calls.filterMap (BookCall.stateFor instrument)).getLast?

/-- Some quote of the instrument was given to the book. -/
def Quoted (calls : List BookCall) (instrument : InstrumentId) : Prop :=
  ∃ q, .update q ∈ calls ∧ q.instrument = instrument

/-- A market that is priced from a quote that was given for the instrument, neither from the
future nor older than the budget. -/
structure PricedFrom (calls : List BookCall) (instrument : InstrumentId) (now : Timestamp) (budget : Duration)
    (state : MarketState) (q : Quote) : Prop where
  given : .update q ∈ calls
  instrument_eq : q.instrument = instrument
  bid_eq : state.bid = q.bid
  ask_eq : state.ask = q.ask
  past : q.time.exchange_time ≤ now
  fresh : now - q.time.exchange_time ≤ budget

/-- What routing promises after some calls on a book. -/
structure Honoured (cfg : QuoteBookConfig) (calls : List BookCall) (bar : Bar) (intraday_volatility : Rat)
    (now : Timestamp) : Prop where
  route_halted : ∀ instrument, lastState calls instrument = some .Halted →
    (route ((QuoteBook.create cfg).after calls) instrument now).1.executable = false
  route_quote : ∀ instrument, (route ((QuoteBook.create cfg).after calls) instrument now).1.source = .Quote →
    ∃ q, PricedFrom calls instrument now (QuoteBook.create cfg).budget
      (route ((QuoteBook.create cfg).after calls) instrument now).1.state q
  preferring_halted : lastState calls bar.instrument = some .Halted →
    (route_preferring_quote ((QuoteBook.create cfg).after calls) bar intraday_volatility now).1.executable = false
  preferring_quote :
    (route_preferring_quote ((QuoteBook.create cfg).after calls) bar intraday_volatility now).1.source = .Quote →
    ∃ q, PricedFrom calls bar.instrument now (QuoteBook.create cfg).budget
      (route_preferring_quote ((QuoteBook.create cfg).after calls) bar intraday_volatility now).1.state q

/-! ### What a book holds -/

theorem QuoteBook.entry_of_insert {b b' : QuoteBook} {e : Entry} {k : InstrumentId}
    (hentries : b'.entries = b.entries.insert k e) (instrument : InstrumentId) :
    b'.entry instrument = if k = instrument then e else b.entry instrument := by
  simp only [QuoteBook.entry, hentries, TreeMap.getD_insert, Std.LawfulEqCmp.compare_eq_iff_eq]

/-- A quote is taken, or one is there already. A well-formed quote is not crossed. -/
theorem QuoteBook.update_cases (b : QuoteBook) (quote : Quote) :
    (b.update quote).2.budget = b.budget ∧ ∃ e : Entry, e.trading_state = (b.entry quote.instrument).trading_state ∧
      e.present = true ∧ (e.quote = some quote ∨ e = b.entry quote.instrument) ∧
      ∀ instrument, (b.update quote).2.entry instrument =
        if quote.instrument = instrument then e else b.entry instrument := by
  have huncrossed : ¬ quote.ask < quote.bid := not_lt.mpr quote.uncrossed
  unfold QuoteBook.update
  dsimp only
  split
  · rename_i hlate
    exact ⟨rfl, b.entry quote.instrument, rfl, hlate.1, .inr rfl, QuoteBook.entry_of_insert rfl⟩
  · rw [if_neg fun hcrossed => huncrossed hcrossed.1]
    exact ⟨rfl, (b.entry quote.instrument).hold quote, rfl, rfl, .inl rfl, QuoteBook.entry_of_insert rfl⟩

theorem QuoteBook.state_at_book (b : QuoteBook) (instrument : InstrumentId) (now : Timestamp) :
    (b.state_at instrument now).2.budget = b.budget ∧ (b.state_at instrument now).2.entries = b.entries := by
  unfold QuoteBook.state_at
  split
  · exact ⟨rfl, rfl⟩
  · split
    · dsimp only
      split
      · exact ⟨rfl, rfl⟩
      · exact ⟨rfl, rfl⟩
    · exact ⟨rfl, rfl⟩

/-- A book holds what the calls on it said. -/
structure Follows (budget : Duration) (calls : List BookCall) (b : QuoteBook) : Prop where
  budget_eq : b.budget = budget
  state_eq : ∀ instrument, (b.entry instrument).trading_state = (lastState calls instrument).getD .Trading
  present_iff : ∀ instrument, (b.entry instrument).present = true ↔ Quoted calls instrument
  given : ∀ instrument q, (b.entry instrument).quote = some q → .update q ∈ calls ∧ q.instrument = instrument

theorem lastState_concat (calls : List BookCall) (c : BookCall) (instrument : InstrumentId) :
    lastState (calls ++ [c]) instrument = (c.stateFor instrument).or (lastState calls instrument) := by
  rw [lastState, List.filterMap_append]
  cases hstate : c.stateFor instrument with
  | none => simp [hstate, lastState]
  | some state => simp [hstate]

theorem quoted_concat {calls : List BookCall} {c : BookCall} {instrument : InstrumentId} :
    Quoted (calls ++ [c]) instrument ↔ Quoted calls instrument ∨ ∃ q, c = .update q ∧ q.instrument = instrument := by
  simp only [Quoted, List.mem_append, List.mem_singleton, or_and_right, exists_or, eq_comm]

section Calls

variable {budget : Duration} {calls : List BookCall} {b b' : QuoteBook}

theorem Follows.given_concat (h : Follows budget calls b) (c : BookCall) {instrument : InstrumentId} {q : Quote}
    (hq : (b.entry instrument).quote = some q) : .update q ∈ calls ++ [c] ∧ q.instrument = instrument :=
  ⟨List.mem_append_left _ (h.given instrument q hq).1, (h.given instrument q hq).2⟩

theorem Follows.of_same {c : BookCall} (h : Follows budget calls b) (hbudget : b'.budget = b.budget)
    (hentries : b'.entries = b.entries) (hstate : ∀ instrument, c.stateFor instrument = none)
    (hquote : ∀ q, c ≠ .update q) : Follows budget (calls ++ [c]) b' := by
  have hentry : ∀ instrument, b'.entry instrument = b.entry instrument := fun instrument => by
    rw [QuoteBook.entry, hentries, QuoteBook.entry]
  refine ⟨hbudget.trans h.budget_eq, fun instrument => ?_, fun instrument => ?_, fun instrument q hq => ?_⟩
  · rw [hentry, h.state_eq, lastState_concat, hstate, Option.none_or]
  · rw [hentry, h.present_iff, quoted_concat]
    exact (or_iff_left fun ⟨q, hq, _⟩ => hquote q hq).symm
  · rw [hentry] at hq
    exact h.given_concat c hq

theorem Follows.update (h : Follows budget calls b) (quote : Quote) :
    Follows budget (calls ++ [.update quote]) (b.call (.update quote)) := by
  obtain ⟨hbudget, e, hstate, hpresent, hquote, hentry⟩ := b.update_cases quote
  refine ⟨hbudget.trans h.budget_eq, fun instrument => ?_, fun instrument => ?_, fun instrument q hq => ?_⟩
  · have hno : (BookCall.update quote).stateFor instrument = none := rfl
    rw [QuoteBook.call, hentry, lastState_concat, hno, Option.none_or, ← h.state_eq]
    split
    · rename_i heq
      rw [hstate, heq]
    · rfl
  · rw [QuoteBook.call, hentry, quoted_concat, ← h.present_iff]
    split
    · rename_i heq
      exact iff_of_true hpresent (.inr ⟨quote, rfl, heq⟩)
    · rename_i hne
      refine (or_iff_left ?_).symm
      rintro ⟨q, hq, heq⟩
      cases hq
      exact hne heq
  · rw [QuoteBook.call, hentry] at hq
    split at hq
    · rename_i heq
      obtain hnew | rfl := hquote
      · obtain rfl : quote = q := Option.some.inj (hnew.symm.trans hq)
        exact ⟨by simp, heq⟩
      · rw [heq] at hq
        exact h.given_concat _ hq
    · exact h.given_concat _ hq

theorem Follows.set_trading_state (h : Follows budget calls b) (key : InstrumentId) (state : TradingState) :
    Follows budget (calls ++ [.set_trading_state key state]) (b.call (.set_trading_state key state)) := by
  have hentry : ∀ instrument, (b.call (.set_trading_state key state)).entry instrument =
      if key = instrument then { b.entry key with trading_state := state } else b.entry instrument :=
    QuoteBook.entry_of_insert rfl
  refine ⟨h.budget_eq, fun instrument => ?_, fun instrument => ?_, fun instrument q hq => ?_⟩
  · rw [hentry, lastState_concat, BookCall.stateFor]
    split
    · rfl
    · rw [Option.none_or, h.state_eq]
  · rw [hentry, quoted_concat, ← h.present_iff]
    have hno : ¬ ∃ q, BookCall.set_trading_state key state = .update q ∧ q.instrument = instrument :=
      fun ⟨q, hq, _⟩ => by cases hq
    rw [or_iff_left hno]
    split
    · rename_i heq
      rw [heq]
    · rfl
  · rw [hentry] at hq
    split at hq
    · rename_i heq
      rw [heq] at hq
      exact h.given_concat _ hq
    · exact h.given_concat _ hq

theorem Follows.call (h : Follows budget calls b) (c : BookCall) : Follows budget (calls ++ [c]) (b.call c) := by
  cases c with
  | update quote => exact h.update quote
  | set_trading_state key state => exact h.set_trading_state key state
  | state_at instrument now =>
    obtain ⟨hbudget, hentries⟩ := b.state_at_book instrument now
    exact h.of_same hbudget hentries (fun _ => rfl) fun q hq => by cases hq

end Calls

theorem follows_after (cfg : QuoteBookConfig) (calls : List BookCall) :
    Follows (QuoteBook.create cfg).budget calls ((QuoteBook.create cfg).after calls) := by
  induction calls using List.reverseRecOn with
  | nil =>
    have hentry : ∀ instrument, (QuoteBook.create cfg).entry instrument = {} := fun instrument => TreeMap.getD_emptyc
    refine ⟨rfl, fun instrument => ?_, fun instrument => ?_, fun instrument q hq => ?_⟩
    · rw [QuoteBook.after, List.foldl_nil, hentry]
      rfl
    · rw [QuoteBook.after, List.foldl_nil, hentry]
      simp [Quoted]
    · rw [QuoteBook.after, List.foldl_nil, hentry] at hq
      cases hq
  | append_singleton calls c ih =>
    have hcall := ih.call c
    rwa [QuoteBook.after, List.foldl_concat]

/-! ### Routing -/

/-- What the state as of an instant says of the entry. -/
structure Reads (b : QuoteBook) (instrument : InstrumentId) (now : Timestamp) (s : QuoteState) : Prop where
  present_eq : s.present = (b.entry instrument).present
  state_eq : s.present = true → s.trading_state = (b.entry instrument).trading_state
  quote_eq : s.present = true → s.quote = (b.entry instrument).quote
  usable : s.executable = true →
    ∃ q, s.quote = some q ∧ q.time.exchange_time ≤ now ∧ now - q.time.exchange_time ≤ b.budget

theorem QuoteState.executable_iff {s : QuoteState} : s.executable = true ↔
    s.present = true ∧ s.trading_state = .Trading ∧ (s.condition = .Normal ∨ s.condition = .Locked) := by
  simp [QuoteState.executable]

theorem Reads.of_absent {b : QuoteBook} {instrument : InstrumentId} {now : Timestamp} {s : QuoteState}
    (habsent : s.present = false) (hentry : (b.entry instrument).present = false) : Reads b instrument now s where
  present_eq := habsent.trans hentry.symm
  state_eq hpresent := absurd (habsent.symm.trans hpresent) Bool.false_ne_true
  quote_eq hpresent := absurd (habsent.symm.trans hpresent) Bool.false_ne_true
  usable husable := absurd (habsent.symm.trans (QuoteState.executable_iff.mp husable).1) Bool.false_ne_true

theorem QuoteBook.state_at_reads (b : QuoteBook) (instrument : InstrumentId) (now : Timestamp) :
    Reads b instrument now (b.state_at instrument now).1 := by
  unfold QuoteBook.state_at
  split
  · rename_i hnone
    have hentry : b.entry instrument = {} := by
      rw [QuoteBook.entry, TreeMap.getD_eq_getD_getElem?, hnone]
      rfl
    exact .of_absent rfl (by rw [hentry])
  · rename_i entry hsome
    have hentry : b.entry instrument = entry := by
      rw [QuoteBook.entry, TreeMap.getD_eq_getD_getElem?, hsome]
      rfl
    split
    · rename_i hpresent
      obtain ⟨q, hq, htime⟩ := entry.held hpresent
      have hderef : some (entry.deref hpresent) = entry.quote := Option.some_get _
      dsimp only
      split
      · refine ⟨by rw [hentry, hpresent], fun _ => by rw [hentry], fun _ => by rw [hentry, hderef], fun husable => ?_⟩
        obtain ⟨-, -, hcondition⟩ := QuoteState.executable_iff.mp husable
        rcases hcondition with hcondition | hcondition <;> cases hcondition
      · rename_i hage
        obtain ⟨hpast, hfresh⟩ := not_or.mp hage
        refine ⟨by rw [hentry, hpresent], fun _ => by rw [hentry], fun _ => by rw [hentry, hderef], fun _ => ?_⟩
        rw [← htime] at hpast hfresh
        exact ⟨q, hderef.trans hq, sub_nonneg.mp (not_lt.mp hpast), not_lt.mp hfresh⟩
    · rename_i hpresent
      exact .of_absent rfl (by rw [hentry]; exact Bool.eq_false_of_not_eq_true hpresent)

/-- A routed market is the quote's, or it is none. -/
theorem route_cases (b : QuoteBook) (instrument : InstrumentId) (now : Timestamp) :
    (route b instrument now).1.quote_state = (b.state_at instrument now).1 ∧
    ((route b instrument now).1.executable = false ∧ (route b instrument now).1.source = .None ∨
      (b.state_at instrument now).1.executable = true ∧ ∃ q, (b.state_at instrument now).1.quote = some q ∧
        (route b instrument now).1.source = .Quote ∧ (route b instrument now).1.executable = true ∧
        (route b instrument now).1.state.bid = q.bid ∧ (route b instrument now).1.state.ask = q.ask) := by
  unfold route
  dsimp only
  split
  · rename_i q husable hquote
    exact ⟨rfl, .inr ⟨husable, q, hquote, rfl, rfl, rfl, rfl⟩⟩
  · exact ⟨rfl, .inl ⟨rfl, rfl⟩⟩

section Routing

variable {budget : Duration} {calls : List BookCall} {b : QuoteBook} {instrument : InstrumentId} {now : Timestamp}

theorem Follows.route_quote (h : Follows budget calls b) (hsource : (route b instrument now).1.source = .Quote) :
    ∃ q, PricedFrom calls instrument now budget (route b instrument now).1.state q := by
  have hreads := b.state_at_reads instrument now
  obtain ⟨-, ⟨-, hnone⟩ | ⟨husable, q, hquote, -, -, hbid, hask⟩⟩ := route_cases b instrument now
  · rw [hnone] at hsource
    cases hsource
  · obtain ⟨q', hquote', hpast, hfresh⟩ := hreads.usable husable
    obtain rfl : q = q' := Option.some.inj (hquote.symm.trans hquote')
    have hpresent := (QuoteState.executable_iff.mp husable).1
    obtain ⟨hgiven, hinstrument⟩ := h.given instrument q ((hreads.quote_eq hpresent).symm.trans hquote)
    exact ⟨q, hgiven, hinstrument, hbid, hask, hpast, h.budget_eq ▸ hfresh⟩

theorem Follows.route_halted (h : Follows budget calls b) (hhalted : lastState calls instrument = some .Halted) :
    (route b instrument now).1.executable = false := by
  have hreads := b.state_at_reads instrument now
  obtain ⟨-, ⟨hno, -⟩ | ⟨husable, -⟩⟩ := route_cases b instrument now
  · exact hno
  · obtain ⟨hpresent, htrading, -⟩ := QuoteState.executable_iff.mp husable
    rw [hreads.state_eq hpresent, h.state_eq, hhalted] at htrading
    cases htrading

/-- With a bar at hand, a market is the quote's with the volume of the bar, or the halt is
kept, or the bar makes one. -/
theorem route_preferring_quote_cases (b : QuoteBook) (bar : Bar) (intraday_volatility : Rat) (now : Timestamp) :
    let quoted := (route b bar.instrument now).1
    let routed := (route_preferring_quote b bar intraday_volatility now).1
    (quoted.executable = true ∧ routed.executable = true ∧ routed.source = quoted.source ∧
        routed.state.bid = quoted.state.bid ∧ routed.state.ask = quoted.state.ask) ∨
      (quoted.executable = false ∧
        ((quoted.quote_state.present = true ∧ quoted.quote_state.trading_state = .Halted ∧ routed = quoted) ∨
          (¬ (quoted.quote_state.present = true ∧ quoted.quote_state.trading_state = .Halted) ∧
            routed = route_from_bar bar intraday_volatility))) := by
  unfold route_preferring_quote
  dsimp only
  split
  · rename_i hquoted
    exact .inl ⟨hquoted, hquoted, rfl, rfl, rfl⟩
  · rename_i hno
    refine .inr ⟨Bool.eq_false_of_not_eq_true hno, ?_⟩
    split
    · rename_i hhalted
      exact .inl ⟨hhalted.1, hhalted.2, rfl⟩
    · rename_i hfree
      exact .inr ⟨hfree, rfl⟩

theorem Follows.preferring_quote (h : Follows budget calls b) {bar : Bar} {intraday_volatility : Rat}
    (hsource : (route_preferring_quote b bar intraday_volatility now).1.source = .Quote) :
    ∃ q, PricedFrom calls bar.instrument now budget
      (route_preferring_quote b bar intraday_volatility now).1.state q := by
  obtain ⟨-, -, hsame, hbid, hask⟩ | ⟨hno, ⟨-, -, hrouted⟩ | ⟨-, hrouted⟩⟩ :=
    route_preferring_quote_cases b bar intraday_volatility now
  · obtain ⟨q, hpriced⟩ := h.route_quote (hsame.symm.trans hsource)
    exact ⟨q, hpriced.given, hpriced.instrument_eq, hbid.trans hpriced.bid_eq, hask.trans hpriced.ask_eq,
      hpriced.past, hpriced.fresh⟩
  · rw [hrouted] at hsource ⊢
    exact h.route_quote hsource
  · rw [hrouted] at hsource
    cases hsource

/-- A halt is kept from a bar exactly where there is a quote to find it with. -/
theorem Follows.preferring_halted_iff (h : Follows budget calls b) {bar : Bar} {intraday_volatility : Rat}
    (hhalted : lastState calls bar.instrument = some .Halted) :
    (route_preferring_quote b bar intraday_volatility now).1.executable = false ↔ Quoted calls bar.instrument := by
  have hreads := b.state_at_reads bar.instrument now
  obtain ⟨hstate, -⟩ := route_cases b bar.instrument now
  have hno : (route b bar.instrument now).1.executable = false := h.route_halted hhalted
  rw [← h.present_iff, ← hreads.present_eq]
  obtain ⟨hquoted, -⟩ | ⟨-, ⟨hpresent, -, hrouted⟩ | ⟨hfree, hrouted⟩⟩ :=
    route_preferring_quote_cases b bar intraday_volatility now
  · rw [hno] at hquoted
    cases hquoted
  · rw [hrouted, ← hstate]
    exact iff_of_true hno hpresent
  · rw [hrouted]
    refine iff_of_false Bool.false_ne_true.symm fun hpresent => hfree ?_
    rw [hstate]
    refine ⟨hpresent, ?_⟩
    rw [hreads.state_eq hpresent, h.state_eq, hhalted]
    rfl

end Routing

/-- Routing keeps its promise exactly if the instrument is not halted, or a quote of it was
given to the book before. -/
theorem halt_honoured_iff (cfg : QuoteBookConfig) (calls : List BookCall) (bar : Bar) (intraday_volatility : Rat)
    (now : Timestamp) : Honoured cfg calls bar intraday_volatility now ↔
      (lastState calls bar.instrument = some .Halted → Quoted calls bar.instrument) := by
  have h := follows_after cfg calls
  constructor
  · intro hhonoured hhalted
    exact (h.preferring_halted_iff hhalted).mp (hhonoured.preferring_halted hhalted)
  · intro hquoted
    exact ⟨fun _ => h.route_halted, fun _ => h.route_quote,
      fun hhalted => (h.preferring_halted_iff hhalted).mpr (hquoted hhalted), h.preferring_quote⟩

/-- The minute from one on, at 500. -/
def openingBar : Bar :=
  Result.value (Bar.from_left_edge 0 1 60000000000 500 501 499 500 10000)

/-- A halt that is announced before the first quote does not keep the bar from making a
market. -/
theorem halt_routed_around :
    (route_preferring_quote ((QuoteBook.create {}).after [.set_trading_state 0 .Halted]) openingBar 0.01
        60000000001).1.executable = true ∧
      ¬ ∀ (cfg : QuoteBookConfig) (calls : List BookCall) (bar : Bar) (intraday_volatility : Rat) (now : Timestamp),
        Honoured cfg calls bar intraday_volatility now := by
  have hmarket : (route_preferring_quote ((QuoteBook.create {}).after [.set_trading_state 0 .Halted]) openingBar 0.01
      60000000001).1.executable = true := by decide +kernel
  have hhalted : lastState [.set_trading_state 0 .Halted] openingBar.instrument = some .Halted := by decide +kernel
  refine ⟨hmarket, fun hall => ?_⟩
  have hno := (hall {} [.set_trading_state 0 .Halted] openingBar 0.01 60000000001).preferring_halted hhalted
  rw [hmarket] at hno
  cases hno

end ptl.execution
