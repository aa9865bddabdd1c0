import TradingLab.Accounting.Journal
import TradingLab.Execution.Broker
import TradingLab.Market.Merge
import TradingLab.Risk.RiskManager

open ptl.oms ptl.portfolio ptl.market ptl.risk ptl.execution ptl.accounting
open Std (TreeMap)

set_option linter.dupNamespace false

namespace ptl.engine

/-- The read-only view a strategy is given. -/
structure StrategyContext where
  now : Timestamp
  portfolio : Portfolio
  orders : OrderManager
  limits : RiskLimits

/-- What a strategy does in one callback: any finite sequence of calls on the
    order sink and looks at the context, each free to depend on the answers so
    far, ending in the strategy's next state. -/
inductive SinkProgram (S : Type) where
  | done (s : S)
  | submit (order : Order) (k : Result OrderId → SinkProgram S)
  | cancel (id : OrderId) (k : Result Bool → SinkProgram S)
  | next_order_id (k : OrderId → SinkProgram S)
  | context (k : StrategyContext → SinkProgram S)

/-- A strategy over its own state `S`. -/
structure IStrategy (S : Type) where
  on_start : StrategyContext → S → Result S := fun _ s => .ok s
  on_bar : Bar → S → SinkProgram S := fun _ s => .done s
  on_quote : Quote → S → SinkProgram S := fun _ s => .done s
  on_trade : market.Trade → S → SinkProgram S := fun _ s => .done s
  on_fill : Fill → StrategyContext → S → S := fun _ _ s => s
  on_session_open : Timestamp → S → SinkProgram S := fun _ s => .done s
  on_session_close : Timestamp → S → SinkProgram S := fun _ s => .done s
  on_stop : StrategyContext → S → S := fun _ s => s

structure EngineConfig where
  snapshot_on_session_close : Bool := true
  snapshot_on_bar : Bool := false
  halt_on_risk_rejection : Bool := false
  default_interval_volume : Volume := 0
  deriving DecidableEq, Repr

structure RunSummary where
  events_processed : Nat := 0
  bars : Nat := 0
  quotes : Nat := 0
  orders_submitted : Nat := 0
  orders_rejected : Nat := 0
  fills : Nat := 0
  chain_violations : Nat := 0
  first_event : Timestamp := kNoTimestamp
  last_event : Timestamp := kNoTimestamp
  final_equity : Notional := 0
  reconciled : Bool := false
  deriving DecidableEq, Repr

/-- The engine with the collaborators it borrows. `chain_violation_count` is
    the process-wide counter. -/
structure Engine (R : Type) where
  clock : Timestamp
  broker : BrokerSimulator R
  pf : Portfolio
  oms : OrderManager := {}
  risk : RiskManager
  journal : Journal := {}
  cfg : EngineConfig := {}
  summary : RunSummary := {}
  started : Bool := false
  state : TreeMap InstrumentId MarketState := ∅
  last_update : TreeMap InstrumentId Timestamp := ∅
  peak_equity : Notional := 0
  turnover_today : Notional := 0
  chain_violation_count : Nat := 0

variable {R S : Type}

def Engine.context (e : Engine R) : StrategyContext where
  now := e.clock
  portfolio := e.pf
  orders := e.oms
  limits := e.risk.limits

/-! ### The order sink -/

/-- What the risk gate is told besides the order and the book. -/
def Engine.riskContext (e : Engine R) (order : Order) : RiskContext :=
  let rctx : RiskContext :=
    { now := e.clock, peak_equity := e.peak_equity, turnover_today := e.turnover_today }
  match e.state[order.instrument]? with
  | none => { rctx with data_age := maxDuration }
  | some st =>
    { rctx with
      reference_price := if st.has_quote then st.mid else st.bid
      data_age := match e.last_update[order.instrument]? with
        | none => maxDuration
        | some lu => rctx.now - lu }

/-- The order stamped with its decision-time benchmark. -/
def Engine.priced (e : Engine R) (order : Order) : Order :=
  let reference := (e.riskContext order).reference_price
  if reference > 0 then order.with_arrival_price reference else order

def Engine.submittedEntry (e : Engine R) (order : Order) : JournalEntry where
  ts := (e.riskContext order).now
  kind := .OrderSubmitted
  order_id := (e.priced order).id
  instrument := (e.priced order).instrument
  side := (e.priced order).side
  quantity := (e.priced order).quantity
  price := (e.riskContext order).reference_price

/-- `Sink::submit`: risk first, then the order manager, then the venue. -/
def Engine.submit (e : Engine R) (order : Order) : Result OrderId × Engine R :=
  let rctx := e.riskContext order
  let priced := e.priced order
  let decision := e.risk.check order e.pf e.oms rctx
  let risk := e.risk.record decision
  if ¬ decision.approved then
    (.error (make_error .ValidationFailed decision.describe), { e with
      risk
      summary := { e.summary with orders_rejected := e.summary.orders_rejected + 1 }
      journal := e.journal.record_risk_rejection rctx.now order.instrument decision.describe })
  else
    match e.oms.submit priced with
    | (.error err, oms) => (.error err, { e with risk, oms })
    | (.ok _, oms) =>
      match e.broker.submit e.clock priced with
      | (.error err, broker) =>
        (.error err,
          { e with risk, broker, oms := (oms.transition priced.id .Rejected err.message).2 })
      | (.ok _, broker) =>
        let oms := (oms.transition priced.id .PendingNew).2
        let oms := (oms.transition priced.id .Working).2
        (.ok priced.id, { e with
          risk, broker, oms
          journal := (e.journal.append (e.submittedEntry order)).2
          summary := { e.summary with orders_submitted := e.summary.orders_submitted + 1 } })

/-- `Sink::cancel`: the venue first, then the order manager. -/
def Engine.cancel (e : Engine R) (id : OrderId) : Result Bool × Engine R :=
  match e.broker.cancel id with
  | (.error err, broker) => (.error err, { e with broker })
  | (.ok _, broker) =>
    let (result, oms) := e.oms.transition id .Cancelled "strategy cancel"
    (result, { e with broker, oms })

def Engine.next_order_id (e : Engine R) : OrderId × Engine R :=
  let (id, oms) := e.oms.next_id
  (id, { e with oms })

/-- Run a strategy's callback against the engine's sink. -/
def Engine.callback (e : Engine R) : SinkProgram S → Engine R × S
  | .done s => (e, s)
  | .submit order k => Engine.callback (e.submit order).2 (k (e.submit order).1)
  | .cancel id k => Engine.callback (e.cancel id).2 (k (e.cancel id).1)
  | .next_order_id k => Engine.callback e.next_order_id.2 (k e.next_order_id.1)
  | .context k => Engine.callback e (k e.context)

/-! ### Fills -/

/-- One fill of `dispatch_fills`, up to the strategy's `on_fill`. -/
def Engine.book_fill (e : Engine R) (f : Fill) : Result (Engine R) :=
  match e.oms.apply_fill f with
  | (.error err, _) => .error err
  | (.ok _, oms) =>
    match e.pf.apply f with
    | (.error err, _) => .error err
    | (.ok _, pf) =>
      .ok { e with
        oms, pf
        journal := e.journal.record_fill f
        turnover_today := e.turnover_today + |f.price * f.quantity|
        summary := { e.summary with fills := e.summary.fills + 1 } }

def Engine.dispatch_fills (strategy : IStrategy S) (e : Engine R) (s : S) :
    List Fill → Result (Engine R × S)
  | [] => .ok (e, s)
  | f :: fs =>
    match e.book_fill f with
    | .error err => .error err
    | .ok e => Engine.dispatch_fills strategy e (strategy.on_fill f e.context s) fs

/-! ### Events -/

/-- The market state a bar leaves. Without a quote the close stands for both
    sides of the book. -/
def Engine.barState (e : Engine R) (bar : Bar) : MarketState :=
  let st := (e.state[bar.instrument]?).getD {}
  let st := if ¬ st.has_quote then { st with bid := bar.close, ask := bar.close } else st
  { st with
    interval_volume :=
      if e.cfg.default_interval_volume > 0 then e.cfg.default_interval_volume else bar.volume
    intraday_volatility := if bar.close > 0 then |bar.high - bar.low| / bar.close else 0 }

def Engine.quoteState (e : Engine R) (q : Quote) : MarketState :=
  { (e.state[q.instrument]?).getD {} with
    bid := q.bid, ask := q.ask, bid_size := q.bid_size, ask_size := q.ask_size, has_quote := true }

/-- `handle_bar` up to the fills it produces. -/
def Engine.match_bar (e : Engine R) (bar : Bar) : Result (List Fill) × Engine R :=
  let st := e.barState bar
  let (fills, broker) := e.broker.on_market bar.instrument st bar.close_time
  (fills, { e with
    broker
    state := e.state.insert bar.instrument st
    last_update := e.last_update.insert bar.instrument bar.close_time
    pf := e.pf.mark_last bar.instrument bar.close })

def Engine.match_quote (e : Engine R) (q : Quote) : Result (List Fill) × Engine R :=
  let st := e.quoteState q
  let (fills, broker) := e.broker.on_market q.instrument st q.time.exchange_time
  (fills, { e with
    broker
    state := e.state.insert q.instrument st
    last_update := e.last_update.insert q.instrument q.time.exchange_time
    pf := e.pf.mark_from_quote q })

/-- What an event does before any fill is dispatched or the strategy is
    called. Only bars and quotes are matched. -/
def Engine.match_event (e : Engine R) : MarketEvent → Result (List Fill) × Engine R
  | .bar bar => e.match_bar bar
  | .quote q => e.match_quote q
  | .trade _ => (.ok [], e)
  | .corporateAction c =>
    let (result, pf) := match c.kind with
      | .Split => e.pf.apply_split c.instrument c.split_ratio
      | .CashDividend => e.pf.apply_dividend c.instrument c.dividend_amount
    (result.map fun _ => [], { e with pf })
  | .session ev =>
    (.ok [], match ev.kind with
      | .Open => { e with turnover_today := 0 }
      | .Close => e)
  | .timer _ => (.ok [], e)

/-- The strategy's callback for an event. -/
def IStrategy.respond (strategy : IStrategy S) (s : S) : MarketEvent → SinkProgram S
  | .bar bar => strategy.on_bar bar s
  | .quote q => strategy.on_quote q s
  | .trade t => strategy.on_trade t s
  | .corporateAction _ => .done s
  | .session ev =>
    match ev.kind with
    | .Open => strategy.on_session_open ev.time.exchange_time s
    | .Close => strategy.on_session_close ev.time.exchange_time s
  | .timer _ => .done s

def Engine.snapshot (e : Engine R) (ts : Timestamp) : Result (Engine R) :=
  match e.pf.snapshot ts with
  | (.error err, _) => .error err
  | (.ok _, pf) => .ok { e with pf }

/-- Counters and snapshots after the callback. -/
def Engine.close_event (e : Engine R) : MarketEvent → Result (Engine R)
  | .bar bar =>
    let e := { e with summary := { e.summary with bars := e.summary.bars + 1 } }
    if e.cfg.snapshot_on_bar then e.snapshot bar.close_time else .ok e
  | .quote _ => .ok { e with summary := { e.summary with quotes := e.summary.quotes + 1 } }
  | .session ev =>
    match ev.kind with
    | .Open => .ok e
    | .Close => if e.cfg.snapshot_on_session_close then e.snapshot ev.time.exchange_time else .ok e
  | _ => .ok e

def Engine.track_peak (e : Engine R) : Engine R :=
  let eq := e.pf.equity
  if eq > e.peak_equity then { e with peak_equity := eq } else e

/-- The clock as the source left it, and the event counted. -/
def Engine.observe (e : Engine R) (now : Timestamp) (ev : MarketEvent) : Engine R :=
  let ts := exchange_time_of ev
  { e with
    clock := now
    summary := { e.summary with
      events_processed := e.summary.events_processed + 1
      first_event := if ¬ is_set e.summary.first_event then ts else e.summary.first_event
      last_event := ts } }

/-- How a run ends early: an error value, or an exception nobody catches. -/
inductive Failure where
  | returned (e : Error)
  | thrown (what : String)

/-- The body of the dispatch loop for one event. -/
def Engine.handle (strategy : IStrategy S) (e : Engine R) (s : S) (now : Timestamp)
    (ev : MarketEvent) : Result (Engine R × S) :=
  match (e.observe now ev).match_event ev with
  | (.error err, _) => .error err
  | (.ok fills, e) =>
    match e.dispatch_fills strategy s fills with
    | .error err => .error err
    | .ok (e, s) =>
      let (e, s) := e.callback (strategy.respond s ev)
      match e.close_event ev with
      | .error err => .error err
      | .ok e => .ok (e.track_peak, s)

/-- What `begin` does to the engine before the strategy starts. -/
def Engine.begun (e : Engine R) : Engine R :=
  { e with
    summary := {}
    peak_equity := e.pf.equity
    started := true
    chain_violation_count := 0 }

/-- A new engine over the same collaborators. -/
def freshEngine (e : Engine R) : Engine R :=
  { e with
    cfg := {}
    summary := {}
    started := false
    state := ∅
    last_update := ∅
    peak_equity := 0
    turnover_today := 0 }

/-- An event source over its own state `Q`: the next event and the clock it
    advances, nothing when exhausted, or the exception its clock throws. -/
structure IMarketDataSource (Q : Type) where
  next : Q → Timestamp → Except String (Option (MarketEvent × Q × Timestamp))

def replay : IMarketDataSource ReplaySource := { next := ReplaySource.next_event }

/-- An engine in a run, with the strategy's and the source's state. -/
structure World (R S Q : Type) where
  engine : Engine R
  strategy : S
  source : Q

variable {Q : Type} (strategy : IStrategy S) (source : IMarketDataSource Q)

def World.begin (w : World R S Q) : Result (World R S Q) :=
  match strategy.on_start w.engine.begun.context w.strategy with
  | .error err => .error err
  | .ok s => .ok { w with engine := w.engine.begun, strategy := s }

/-- The loop of `step`: at most `max_events` events, fewer when the source is
    exhausted. The number processed is returned. -/
def World.loop : Nat → World R S Q → Except Failure (Nat × World R S Q)
  | 0, w => .ok (0, w)
  | n + 1, w =>
    match source.next w.source w.engine.clock with
    | .error what => .error (.thrown what)
    | .ok none => .ok (0, w)
    | .ok (some (ev, q, now)) =>
      match w.engine.handle strategy w.strategy now ev with
      | .error err => .error (.returned err)
      | .ok (e, s) =>
        match World.loop n { engine := e, strategy := s, source := q } with
        | .error failure => .error failure
        | .ok (processed, w) => .ok (processed + 1, w)

def World.step (w : World R S Q) (max_events : Nat) : Except Failure (Nat × World R S Q) :=
  if ¬ w.engine.started then
    .error (.returned (make_error .ValidationFailed "Engine::step called before begin()"))
  else w.loop strategy source max_events

def World.finish (w : World R S Q) : RunSummary × World R S Q :=
  let e := w.engine
  let s := strategy.on_stop e.context w.strategy
  let journal := e.journal.match_trades
  let recon := journal.reconcile e.pf
  let summary := { e.summary with
    final_equity := e.pf.equity
    chain_violations := e.chain_violation_count
    reconciled := recon.balances && e.pf.identity_holds }
  (summary, { w with engine := { e with journal, summary }, strategy := s })

/-- `step(1024)` until nothing is left, with fuel for the steps. -/
def World.drain : Nat → World R S Q → Option (Except Failure (World R S Q))
  | 0, _ => none
  | fuel + 1, w =>
    match w.step strategy source 1024 with
    | .error failure => some (.error failure)
    | .ok (0, w) => some (.ok w)
    | .ok (_ + 1, w) => World.drain fuel w

def World.run (w : World R S Q) (fuel : Nat) :
    Option (Except Failure (RunSummary × World R S Q)) :=
  match w.begin strategy with
  | .error err => some (.error (.returned err))
  | .ok w =>
    match w.drain strategy source fuel with
    | none => none
    | some (.error failure) => some (.error failure)
    | some (.ok w) => some (.ok (w.finish strategy))

end ptl.engine
