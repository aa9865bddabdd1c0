import TradingLab.Engine.Drive
import TradingLab.Live.State
import TradingLab.Storage.ArtifactStore

open ptl.oms ptl.portfolio ptl.market ptl.risk ptl.execution ptl.accounting ptl.storage ptl.engine

namespace ptl.live

/-! ### Market data -/

/-- The buffer between the connection and the engine. -/
structure LiveMarketDataAdapter where
  buffer : List MarketEvent := []
  last_event_time : Timestamp := kNoTimestamp
  dropped_stale : Nat := 0

/-- An empty buffer means that nothing is there now. The clock is the wall's,
    which the source does not move. -/
def LiveMarketDataAdapter.next (a : LiveMarketDataAdapter) (now : Timestamp) :
    Except String (Option (MarketEvent × LiveMarketDataAdapter × Timestamp)) :=
  match a.buffer with
  | [] => .ok none
  | event :: rest => .ok (some (event, { a with buffer := rest }, now))

def liveSource : IMarketDataSource LiveMarketDataAdapter := { next := LiveMarketDataAdapter.next }

def BrokerMessage.isMarketData (m : BrokerMessage) : Bool := m.kind = .Quote ∨ m.kind = .Trade

/-- The time a market message counts from. -/
def BrokerMessage.eventTime (m : BrokerMessage) (now : Timestamp) : Timestamp :=
  if is_set m.venue_time then m.venue_time else now

def BrokerMessage.toEvent (m : BrokerMessage) (ts : Timestamp) : Result MarketEvent :=
  if m.kind = .Quote then
    (Quote.create m.instrument ts m.bid m.bid_size m.ask m.ask_size).map .quote
  else (Trade.create m.instrument ts m.price m.quantity none).map .trade

/-- What `pump` does with one message: order and account traffic is passed over,
    and so is an event older than the last. -/
def LiveMarketDataAdapter.take (a : LiveMarketDataAdapter) (now : Timestamp) (m : BrokerMessage) :
    Result (Nat × LiveMarketDataAdapter) :=
  if ¬ m.isMarketData then .ok (0, a)
  else
    let ts := m.eventTime now
    if is_set a.last_event_time ∧ ts < a.last_event_time then
      .ok (0, { a with dropped_stale := a.dropped_stale + 1 })
    else
      match m.toEvent ts with
      | .error e => .error e
      | .ok event => .ok (1, { a with buffer := a.buffer ++ [event], last_event_time := ts })

/-- The messages of a pump in order, up to the first that is no event. -/
def LiveMarketDataAdapter.takeAll (a : LiveMarketDataAdapter) (now : Timestamp) :
    List BrokerMessage → Result Nat × LiveMarketDataAdapter
  | [] => (.ok 0, a)
  | m :: rest =>
    match a.take now m with
    | .error e => (.error e, a)
    | .ok (produced, a) =>
      let (later, a) := a.takeAll now rest
      (later.map (produced + ·), a)

/-! ### The session -/

structure LiveSessionConfig where
  session_id : String := "live"
  config_fingerprint : UInt64 := 0
  persist_every_events : Nat := 50
  reconcile_every_events : Nat := 500
  halt_on_reconciliation_failure : Bool := true
  deriving DecidableEq, Repr

structure LiveSessionStats where
  events_processed : Nat := 0
  orders_submitted : Nat := 0
  fills_received : Nat := 0
  reconnects : Nat := 0
  reconciliations : Nat := 0
  reconciliation_failures : Nat := 0
  persists : Nat := 0
  halts : Nat := 0
  started_at : Timestamp := kNoTimestamp
  stopped_at : Timestamp := kNoTimestamp
  deriving DecidableEq, Repr

/-- A session with everything it borrows. The engine and the live broker share
    one clock, one simulator and one portfolio, which stand in `engine`. -/
structure LiveSession (R T F : Type) where
  config : LiveSessionConfig := {}
  engine : Engine R
  emplaced : Bool := false
  market_data : LiveMarketDataAdapter := {}
  connection : LiveConnection := {}
  transport : T
  broker : LiveBrokerState := {}
  artifacts : ArtifactStore F
  phase : LiveSessionPhase := .Created
  stats : LiveSessionStats := {}
  halt_reason : String := ""
  stop_requested : Bool := false
  sequence : UInt64 := 0
  content_hash : UInt64 := kFnvOffset
  last_event : Timestamp := kNoTimestamp
  last_sync : Timestamp := kNoTimestamp

variable {R S T F : Type}

/-- Both must agree: a running session on a degraded connection must not trade. -/
def LiveSession.trading_permitted (p : LiveSession R T F) : Bool :=
  p.phase = .Running ∧ p.connection.trading_permitted

/-- The broker with the session's collaborators. -/
def LiveSession.liveBroker (p : LiveSession R T F) : LiveBroker R T :=
  { p.broker with
    clock := p.engine.clock
    connection := p.connection
    transport := p.transport
    simulator := p.engine.broker
    portfolio := p.engine.pf }

/-- The session after a call on its broker. -/
def LiveSession.withBroker (p : LiveSession R T F) (b : LiveBroker R T) : LiveSession R T F :=
  { p with
    broker := b.toLiveBrokerState
    connection := b.connection
    transport := b.transport
    engine := { p.engine with broker := b.simulator } }

/-! ### State -/

def LiveSession.capture (p : LiveSession R T F) : LiveSessionState Rat where
  session_id := p.config.session_id
  sequence := p.sequence
  saved_at := p.engine.clock
  phase := p.phase
  config_fingerprint := p.config.config_fingerprint
  events_processed := .ofNat p.stats.events_processed
  last_venue_sequence := p.connection.last_sequence
  last_sync_point := p.last_sync
  account := p.broker.account
  tracked_orders := p.broker.listener.snapshot

def LiveSession.key (p : LiveSession R T F) : String := "live/" ++ p.config.session_id ++ "/state"

variable (fmt : DoubleFormat Rat) (fs : IFileSystem F)

def LiveSession.persist (p : LiveSession R T F) : Result Bool × LiveSession R T F :=
  let state := { p.capture with sequence := p.sequence + 1 }
  let (written, artifacts) := p.artifacts.put fs p.key (state.to_json fmt)
  let p := { p with artifacts, sequence := p.sequence + 1 }
  match written with
  | .error e => (.error e, p)
  | .ok _ => (.ok true, { p with stats := { p.stats with persists := p.stats.persists + 1 } })

/-- The sequence and the tracked orders come back, so that what the venue
    delivers again is still known. -/
def LiveSession.restore (p : LiveSession R T F) (state : LiveSessionState Rat) :
    Result Bool × LiveSession R T F :=
  let (restored, listener) := LiveOrderListener.restore state.tracked_orders
  (restored, { p with
    sequence := state.sequence
    stats := { p.stats with events_processed := state.events_processed.toNat }
    last_sync := state.last_sync_point
    connection := p.connection.restore_sequence state.last_venue_sequence
    broker := { p.broker with listener } })

def LiveSession.recover (p : LiveSession R T F) : Result Bool × LiveSession R T F :=
  if ¬ p.artifacts.contains fs p.key then (.ok true, p)
  else
    match p.artifacts.get fs p.key with
    | .error e => (.error e, p)
    | .ok json =>
      match LiveSessionState.from_json fmt json with
      | .error e => (.error e, p)
      | .ok state =>
        if p.config.config_fingerprint ≠ 0 ∧ state.config_fingerprint ≠ p.config.config_fingerprint then
          (.error (bad "refusing to resume a live session under a different configuration"
            p.config.session_id), p)
        else p.restore state

/-! ### Phases -/

variable (transport : ILiveTransport T)

/-- The engine, the strategy and the buffer as they stand. -/
def LiveSession.world (p : LiveSession R T F) (s : S) : World R S LiveMarketDataAdapter :=
  { engine := p.engine, strategy := s, source := p.market_data }

variable (strategy : IStrategy S)

/-- Connect, recover, synchronise, and only then begin the engine. -/
def LiveSession.start (p : LiveSession R T F) (s : S) : Result Bool × LiveSession R T F × S :=
  if p.phase ≠ .Created then
    (.error (bad "session has already been started" p.config.session_id), p, s)
  else
    let (connected, connection, t) := p.connection.connect transport p.transport p.engine.clock
    let p := { p with connection, transport := t }
    match connected with
    | .error e => (.error e, { p with phase := .Failed }, s)
    | .ok _ =>
      match p.recover fmt fs with
      | (.error e, p) => (.error e, { p with phase := .Failed }, s)
      | (.ok _, p) =>
        let (synced, connection) := p.connection.mark_synchronized
        let p := { p with connection }
        match synced with
        | .error e => (.error e, { p with phase := .Failed }, s)
        | .ok _ =>
          let p := { p with
            last_sync := p.engine.clock
            engine := freshEngine p.engine
            emplaced := true }
          match (p.world s).begin strategy with
          | .error e => (.error e, { p with engine := p.engine.begun, phase := .Failed }, s)
          | .ok w =>
            (.ok true, { p with
              engine := w.engine
              stats := { p.stats with started_at := w.engine.clock }
              phase := .Running }, w.strategy)

def LiveSession.halt (p : LiveSession R T F) (reason : String) : LiveSession R T F :=
  if is_terminal p.phase then p
  else
    { p with
      phase := .Halted
      halt_reason := reason
      stats := { p.stats with halts := p.stats.halts + 1 } }

def LiveSession.resume (p : LiveSession R T F) : Result Bool × LiveSession R T F :=
  if p.phase ≠ .Halted ∧ p.phase ≠ .Recovering then
    (.error (bad ("only a halted or recovering session can resume; this one is " ++ p.phase.to_string)), p)
  else if ¬ p.connection.trading_permitted then
    (.error (bad "connection is not ready; cannot resume trading"), p)
  else (.ok true, { p with halt_reason := "", phase := .Running })

def LiveSession.request_stop (p : LiveSession R T F) : LiveSession R T F :=
  { p with stop_requested := true }

/-- Against the account the venue last reported. A drift halts the session. -/
def LiveSession.reconcile (p : LiveSession R T F) : ReconciliationReport × LiveSession R T F :=
  let report := p.liveBroker.reconcile p.broker.account
  let p := { p with
    stats := { p.stats with reconciliations := p.stats.reconciliations + 1 }
    last_sync := p.engine.clock }
  if report.clean then (report, p)
  else
    let p := { p with
      stats := { p.stats with reconciliation_failures := p.stats.reconciliation_failures + 1 } }
    (report, if p.config.halt_on_reconciliation_failure then
        p.halt ("reconciliation drift: " ++ report.describe)
      else p)

/-! ### Stepping -/

/-- The connection is looked at against the clock. -/
def LiveSession.watch (p : LiveSession R T F) : LiveSession R T F :=
  let connection := p.connection.tick p.engine.clock
  { p with
    connection
    phase := if ¬ connection.trading_permitted ∧ p.phase = .Running then .Recovering else p.phase }

/-- Synchronised before it is running again, as the venue's book may have moved. -/
def LiveSession.reconnect (p : LiveSession R T F) : Result Bool × LiveSession R T F :=
  match p.connection.maybe_reconnect transport p.transport p.engine.clock with
  | (.error e, connection, t) => (.error e, { p with connection, transport := t, phase := .Failed })
  | (.ok false, connection, t) => (.ok true, { p with connection, transport := t })
  | (.ok true, connection, t) =>
    let p := { p with
      connection
      transport := t
      stats := { p.stats with reconnects := p.stats.reconnects + 1 } }
    match connection.mark_synchronized with
    | (.error _, connection) => (.ok true, { p with connection })
    | (.ok _, connection) =>
      (.ok true, { p with connection, phase := .Running, last_sync := p.engine.clock })

def LiveSession.supervise (p : LiveSession R T F) : Result Bool × LiveSession R T F :=
  let p := p.watch
  if p.phase = .Recovering then p.reconnect transport else (.ok true, p)

variable (translator : IOrderTranslator)

/-- The fills the venue reported are counted. -/
def LiveSession.collect (p : LiveSession R T F) : Result Bool × LiveSession R T F :=
  let (fills, b) := p.liveBroker.poll transport translator
  let p := p.withBroker b
  match fills with
  | .error e => (.error e, p)
  | .ok fills =>
    (.ok true, { p with stats := { p.stats with fills_received := p.stats.fills_received + fills.length } })

def LiveSession.pump (p : LiveSession R T F) : Result Nat × LiveSession R T F :=
  let (accepted, connection, t) := p.connection.poll transport p.transport p.engine.clock
  let (produced, market_data) := p.market_data.takeAll p.engine.clock accepted
  (produced, { p with connection, transport := t, market_data })

/-- The engine's counters, copied over the session's own. -/
def LiveSession.tally (p : LiveSession R T F) : LiveSession R T F :=
  let summary := p.engine.summary
  { p with
    stats := { p.stats with
      events_processed := summary.events_processed
      orders_submitted := summary.orders_submitted }
    last_event := summary.last_event
    content_hash := hash_bytes p.content_hash (sizeof64 (.ofInt summary.last_event)) }

/-- Every so many events the book is compared with the venue's. -/
def LiveSession.review (p : LiveSession R T F) : LiveSession R T F :=
  if p.config.reconcile_every_events > 0 ∧
      p.stats.events_processed % p.config.reconcile_every_events = 0 then p.reconcile.2
  else p

/-- What the session does between two events. -/
def LiveSession.between (p : LiveSession R T F) : Result Bool × LiveSession R T F :=
  let p := p.tally.review
  if p.config.persist_every_events > 0 ∧
      p.stats.events_processed % p.config.persist_every_events = 0 then p.persist fmt fs
  else (.ok true, p)

/-- The loop of `step`. What a failing event did before it failed is left out:
    the session is over. -/
def LiveSession.advance : Nat → LiveSession R T F → S → Except Failure Nat × LiveSession R T F × S
  | 0, p, s => (.ok 0, p, s)
  | n + 1, p, s =>
    if p.stop_requested then (.ok 0, p, s)
    else
      match (p.world s).step strategy liveSource 1 with
      | .error (.returned e) => (.error (.returned e), { p with phase := .Failed }, s)
      | .error (.thrown what) => (.error (.thrown what), p, s)
      | .ok (0, _) => (.ok 0, p, s)
      | .ok (_ + 1, w) =>
        match { p with engine := w.engine, market_data := w.source }.between fmt fs with
        | (.error e, p) => (.error (.returned e), p, w.strategy)
        | (.ok _, p) =>
          let (processed, p, s) := LiveSession.advance n p w.strategy
          (processed.map (· + 1), p, s)

def LiveSession.step (p : LiveSession R T F) (s : S) (max_events : Nat) :
    Except Failure Nat × LiveSession R T F × S :=
  if is_terminal p.phase then
    (.error (.returned (bad ("session is " ++ p.phase.to_string))), p, s)
  else if ¬ p.emplaced then (.error (.returned (bad "session has not been started")), p, s)
  else
    match p.supervise transport with
    | (.error e, p) => (.error (.returned e), p, s)
    | (.ok _, p) =>
      match p.collect transport translator with
      | (.error e, p) => (.error (.returned e), p, s)
      | (.ok _, p) =>
        match p.pump transport with
        | (.error e, p) => (.error (.returned e), p, s)
        | (.ok _, p) => p.advance fmt fs strategy max_events s

/-- The engine is closed out, then the state is persisted. -/
def LiveSession.shutdown (p : LiveSession R T F) (s : S) : Result Bool × LiveSession R T F × S :=
  if is_terminal p.phase then (.ok true, p, s)
  else
    let p := { p with phase := LiveSessionPhase.Stopping }
    let (p, s) :=
      if p.emplaced then
        let w := ((p.world s).finish strategy).2
        ({ p with engine := w.engine }, w.strategy)
      else (p, s)
    match p.persist fmt fs with
    | (.error e, p) => (.error e, { p with phase := .Failed }, s)
    | (.ok _, p) =>
      let (connection, t) := p.connection.disconnect transport p.transport
      (.ok true, { p with
        connection
        transport := t
        stats := { p.stats with stopped_at := p.engine.clock }
        phase := .Stopped }, s)

/-- The loop of `run`, with fuel for the steps. A cap of zero is none, and then
    a step without an event ends the run. -/
def LiveSession.drive (max_iterations : Nat) :
    Nat → Nat → LiveSession R T F → S → Option (Except Failure Unit × LiveSession R T F × S)
  | 0, _, _, _ => none
  | fuel + 1, iterations, p, s =>
    if p.stop_requested ∨ is_terminal p.phase then some (.ok (), p, s)
    else
      match p.step fmt fs transport strategy translator s 64 with
      | (.error failure, p, s) => some (.error failure, p, s)
      | (.ok processed, p, s) =>
        if max_iterations > 0 ∧ iterations + 1 ≥ max_iterations then some (.ok (), p, s)
        else if max_iterations = 0 ∧ processed = 0 then some (.ok (), p, s)
        else LiveSession.drive max_iterations fuel (iterations + 1) p s

def LiveSession.run (p : LiveSession R T F) (s : S) (max_iterations fuel : Nat) :
    Option (Except Failure LiveSessionStats × LiveSession R T F × S) :=
  let (started, p, s) :=
    if p.phase = .Created then p.start fmt fs transport strategy s else (.ok true, p, s)
  match started with
  | .error e => some (.error (.returned e), p, s)
  | .ok _ =>
    match p.drive fmt fs transport strategy translator max_iterations fuel 0 s with
    | none => none
    | some (.error failure, p, s) => some (.error failure, p, s)
    | some (.ok _, p, s) =>
      match p.shutdown fmt fs transport strategy s with
      | (.error e, p, s) => some (.error (.returned e), p, s)
      | (.ok _, p, s) => some (.ok p.stats, p, s)

end ptl.live
