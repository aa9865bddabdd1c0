import TradingLab.Engine.QuoteOnly
import TradingLab.Live.Run

/-! The fills a venue reports and the fills a live session books. -/

open ptl.oms ptl.portfolio ptl.market ptl.risk ptl.execution ptl.accounting ptl.storage ptl.engine

namespace ptl.live

variable {R T F : Type} {fmt : DoubleFormat Rat} {fs : IFileSystem F} {transport : ILiveTransport T}
  {translator : IOrderTranslator}

/-! ### The feed -/

theorem BrokerMessage.toEvent_tick {m : BrokerMessage} {ts : Timestamp} {ev : MarketEvent}
    (hevent : m.toEvent ts = .ok ev) : isTick ev = true := by
  unfold BrokerMessage.toEvent at hevent
  split at hevent
  · cases hquote : Quote.create m.instrument ts m.bid m.bid_size m.ask m.ask_size with
    | error e =>
      rw [hquote] at hevent
      cases hevent
    | ok q =>
      rw [hquote] at hevent
      cases hevent
      rfl
  · cases htrade : Trade.create m.instrument ts m.price m.quantity none with
    | error e =>
      rw [htrade] at hevent
      cases hevent
    | ok t =>
      rw [htrade] at hevent
      cases hevent
      rfl

/-- Only quotes and trades wait for the engine. -/
def LiveMarketDataAdapter.Ticks (a : LiveMarketDataAdapter) : Prop := ∀ ev ∈ a.buffer, isTick ev = true

theorem LiveMarketDataAdapter.ticks_empty : LiveMarketDataAdapter.Ticks {} :=
  fun _ hev => absurd hev List.not_mem_nil

theorem LiveMarketDataAdapter.Ticks.take {a a' : LiveMarketDataAdapter} {now : Timestamp} {m : BrokerMessage}
    {produced : Nat} (hticks : a.Ticks) (htake : a.take now m = .ok (produced, a')) : a'.Ticks := by
  unfold LiveMarketDataAdapter.take at htake
  split at htake
  · cases htake
    exact hticks
  · dsimp only at htake
    split at htake
    · cases htake
      exact hticks
    · split at htake
      · cases htake
      · rename_i event hevent
        cases htake
        intro ev hev
        rcases List.mem_append.mp hev with hold | hnew
        · exact hticks ev hold
        · rw [List.mem_singleton.mp hnew]
          exact BrokerMessage.toEvent_tick hevent

theorem LiveMarketDataAdapter.Ticks.takeAll {a : LiveMarketDataAdapter} {now : Timestamp} (hticks : a.Ticks)
    (batch : List BrokerMessage) : (a.takeAll now batch).2.Ticks := by
  induction batch generalizing a with
  | nil => exact hticks
  | cons m rest ih =>
    simp only [LiveMarketDataAdapter.takeAll]
    split
    · exact hticks
    · rename_i produced a' htake
      exact ih (hticks.take htake)

theorem LiveMarketDataAdapter.Ticks.next {a a' : LiveMarketDataAdapter} {now now' : Timestamp}
    {ev : MarketEvent} (hticks : a.Ticks) (hnext : a.next now = .ok (some (ev, a', now'))) :
    isTick ev = true ∧ a'.Ticks := by
  unfold LiveMarketDataAdapter.next at hnext
  split at hnext
  · cases hnext
  · rename_i event rest hbuffer
    cases hnext
    rw [LiveMarketDataAdapter.Ticks, hbuffer, List.forall_mem_cons] at hticks
    exact hticks

/-! ### What is booked -/

/-- The fills applied to the order manager and the portfolio. The engine applies
    a fill to both and records it, and nothing else applies one. -/
def LiveSession.booked (p : LiveSession R T F) : List Fill := p.engine.journal.fills

/-- No fill is booked, and none will be: no volume is measured, and none can be. -/
structure LiveSession.Unfilled (p : LiveSession R T F) : Prop where
  booked : p.booked = []
  unmeasured : p.engine.Unmeasured
  ticks : p.market_data.Ticks

theorem LiveSession.Unfilled.rests {p p' : LiveSession R T F} (hunfilled : p.Unfilled) (hrests : p.Rests p') :
    p'.Unfilled where
  booked := hrests.fills_eq.trans hunfilled.booked
  unmeasured := by
    rcases hrests.state_eq with hsame | hempty
    · exact hunfilled.unmeasured.congr hsame
    · exact Engine.unmeasured_of_empty hempty
  ticks := by
    rw [LiveMarketDataAdapter.Ticks, hrests.market_data_eq]
    exact hunfilled.ticks

/-- The broker keeps the fills it takes to itself. -/
theorem LiveSession.Unfilled.collect {p : LiveSession R T F} (hunfilled : p.Unfilled) :
    (p.collect transport translator).2.Unfilled := by
  unfold LiveSession.collect
  dsimp only
  split <;> exact ⟨hunfilled.booked, hunfilled.unmeasured, hunfilled.ticks⟩

theorem LiveSession.Unfilled.pump {p : LiveSession R T F} (hunfilled : p.Unfilled) :
    (p.pump transport).2.Unfilled :=
  ⟨hunfilled.booked, hunfilled.unmeasured, hunfilled.ticks.takeAll _⟩

theorem LiveRun.unfilled_turned {r : LiveRun R T F} {handling : Option MarketEvent} {a : Action}
    {x : Session R LiveMarketDataAdapter} (hunfilled : r.session.Unfilled)
    (hmoved : Session.step liveSource
      { engine := r.session.engine, source := r.session.market_data, handling } a = some x) :
    (r.turned a x).session.Unfilled := by
  have hticks : ∀ ev q now, r.session.market_data.next r.session.engine.clock = .ok (some (ev, q, now)) →
      isTick ev = true ∧ q.Ticks := fun ev q now hnext => hunfilled.ticks.next hnext
  obtain ⟨hunmeasured, hfills⟩ := Session.step_unmeasured hmoved
    (fun ev q now hnext => (hticks ev q now hnext).1) hunfilled.unmeasured
  have hsource : x.source.Ticks := by
    obtain ⟨ev, q, now, e, -, -, hnext, -, rfl⟩ | ⟨order, -, rfl⟩ | ⟨id, -, rfl⟩ | ⟨-, rfl⟩ |
      ⟨ev, e, -, -, -, rfl⟩ := Session.step_cases hmoved
    · exact (hticks ev q now hnext).2
    · exact hunfilled.ticks
    · exact hunfilled.ticks
    · exact hunfilled.ticks
    · exact hunfilled.ticks
  cases a <;> exact ⟨hfills.trans hunfilled.booked, hunmeasured, hsource⟩

/-- Whatever the venue reports, no run ever books a fill. -/
theorem liveMachine_unfilled {r : LiveRun R T F}
    (hreach : (liveMachine fmt fs transport translator R).Reachable r) : r.session.Unfilled := by
  refine hreach.invariant (I := fun r => r.session.Unfilled) ?_ ?_
  · rintro r ⟨p, -, -, hfresh, hstate, hdata, rfl⟩
    refine ⟨congrArg Journal.fills hfresh.journal_empty, Engine.unmeasured_of_empty hstate, ?_⟩
    rw [hdata]
    exact LiveMarketDataAdapter.ticks_empty
  · intro r l t _ hunfilled _ hstep
    obtain ⟨delivers, rfl⟩ | ⟨hsame, -⟩ | ⟨hsame, -⟩ | ⟨-, rfl⟩ | ⟨-, rfl⟩ |
      ⟨handling, a, x, -, hmoved, rfl⟩ := LiveRun.step_cases hstep
    · exact ⟨rfl, Engine.unmeasured_of_empty rfl, LiveMarketDataAdapter.ticks_empty⟩
    · exact hunfilled.rests hsame.rests
    · exact hunfilled.rests hsame.rests
    · exact hunfilled.collect
    · exact hunfilled.pump
    · exact LiveRun.unfilled_turned hunfilled hmoved

/-! ### What is reported -/

def BrokerMessage.isFill (m : BrokerMessage) : Bool := m.kind = .PartialFill ∨ m.kind = .Fill

/-- A fill is the one that a message reports. -/
structure BrokerMessage.ReportsFill (translator : IOrderTranslator) (m : BrokerMessage) (f : Fill) : Prop where
  order_eq : translator.client_order_id f.order_id = m.client_order_id
  quantity_eq : f.quantity = m.quantity
  price_eq : f.price = m.price

/-- The fills booked are those reported, one for one and in order. -/
def LiveRun.BooksReports (translator : IOrderTranslator) (r : LiveRun R T F) : Prop :=
  List.Forall₂ (BrokerMessage.ReportsFill translator) (r.accepted.filter BrokerMessage.isFill) r.session.booked

/-- In every run, the fills booked are those reported exactly as long as none was
reported. -/
theorem LiveRun.books_reports_iff {r : LiveRun R T F}
    (hreach : (liveMachine fmt fs transport translator R).Reachable r) :
    r.BooksReports translator ↔ ∀ m ∈ r.accepted, m.isFill = false := by
  have hempty : r.session.booked = [] := (liveMachine_unfilled hreach).booked
  rw [LiveRun.BooksReports, hempty, List.forall₂_nil_right_iff, List.filter_eq_nil_iff]
  simp only [Bool.not_eq_true]

/-! ### Concrete runs -/

/-- A session whose broker follows the first order already. -/
def followingLive : LiveSession Unit ScriptedTransport (List (String × String)) :=
  { flatLive with broker := { listener := { by_client_id := Std.TreeMap.insert ∅ "ptl-1" 1 } } }

theorem followingLive_reaches :
    (liveMachine wholeDoubles memoryFiles scripted sampleTranslator Unit).Reachable
      { session := followingLive } :=
  .init ⟨followingLive, rfl, rfl, ⟨rfl, rfl, rfl, rfl⟩, rfl, rfl, rfl⟩

/-- The first order goes to work on a quote, and then the venue speaks. -/
def orderedMoves (messages : List BrokerMessage) : List (LiveMove ScriptedTransport) :=
  [.start (.ok ())] ++ stepMoves 1000000 [] [quoteAt 1000000] ++
    [.engine .arrive, .engine (.submit dayBuy), .engine .settle, .between, .leave] ++
    stepMoves 5000000 messages [quoteAt 5000000] ++ [.engine .arrive, .engine .settle, .between, .leave]

def wholeFill : BrokerMessage :=
  { kind := .Fill, venue_time := 5000000, client_order_id := "ptl-1", quantity := 10, price := 100 }

/-- Neither the venue nor its simulator fills the order. -/
theorem LiveRun.books_reports_iff_quoted :
    ∃ r : LiveRun Unit ScriptedTransport (List (String × String)), r.accepted.length = 2 ∧
      idsOf r.session.engine.broker.pending = [1] ∧ r.BooksReports sampleTranslator := by
  obtain ⟨r, hreach, hends⟩ := followingLive_reaches.exec_map (orderedMoves [])
    (fun r => (r.accepted.length, idsOf r.session.engine.broker.pending,
      r.accepted.all fun m => m.isFill = false)) (b := (2, [1], true)) (by decide +kernel) (by decide +kernel)
  simp only [Prod.mk.injEq] at hends
  obtain ⟨haccepted, hpending, hnone⟩ := hends
  exact ⟨r, haccepted, hpending, (LiveRun.books_reports_iff hreach).mpr (by simpa using hnone)⟩

/-- The venue reports the order filled, the broker takes it off the list and the
session counts the fill. It is never booked. -/
theorem reported_fill_not_booked :
    ∃ r : LiveRun Unit ScriptedTransport (List (String × String)),
      (liveMachine wholeDoubles memoryFiles scripted sampleTranslator Unit).Reachable r ∧
        r.session.stats.fills_received = 1 ∧ idsOf r.session.engine.broker.pending = [] ∧
        r.session.booked.length = 0 ∧ ¬ r.BooksReports sampleTranslator := by
  obtain ⟨r, hreach, hends⟩ := followingLive_reaches.exec_map (orderedMoves [wholeFill])
    (fun r => (r.session.stats.fills_received, idsOf r.session.engine.broker.pending, r.session.booked.length,
      (r.accepted.filter BrokerMessage.isFill).length)) (b := (1, [], 0, 1))
    (by decide +kernel) (by decide +kernel)
  simp only [Prod.mk.injEq] at hends
  obtain ⟨hcounted, hpending, hbooked, hreported⟩ := hends
  refine ⟨r, hreach, hcounted, hpending, hbooked, fun hbooks => ?_⟩
  have hsame := List.Forall₂.length_eq hbooks
  rw [hreported, hbooked] at hsame
  cases hsame

end ptl.live
