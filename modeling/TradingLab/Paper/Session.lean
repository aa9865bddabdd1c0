import TradingLab.Core.Iso8601
import TradingLab.Engine.Engine
import TradingLab.Paper.State
import TradingLab.Portfolio.Portfolio
import TradingLab.Storage.ArtifactStore

open ptl.portfolio ptl.oms ptl.market ptl.risk ptl.execution ptl.accounting ptl.storage ptl.engine

namespace ptl.paper

/-- Broker margin policy, as far as the account reads it. -/
structure MarginConfig where
  maintenance_margin : Rat := 0.25
  buying_power_multiplier : Rat := 2
  allow_short : Bool := true
  deriving DecidableEq, Repr

/-- A view over the portfolio: the policy is all it owns. -/
structure PaperAccount where
  config : MarginConfig := {}
  suspended : Bool := false
  deriving DecidableEq, Repr

/-- Against gross exposure, so that both legs of a pair need margin. -/
def PaperAccount.maintenance_requirement (a : PaperAccount) (pf : Portfolio) : Notional :=
  let gross := pf.gross_exposure
  if ¬ is_finite gross then 0 else gross * a.config.maintenance_margin

def PaperAccount.margin_excess (a : PaperAccount) (pf : Portfolio) : Notional :=
  let equity := pf.equity
  let requirement := a.maintenance_requirement pf
  if ¬ is_finite equity ∨ ¬ is_finite requirement then 0 else equity - requirement

def PaperAccount.available_buying_power (a : PaperAccount) (pf : Portfolio) : Notional :=
  let equity := pf.equity
  if ¬ is_finite equity ∨ equity ≤ 0 then 0
  else
    let available := equity * a.config.buying_power_multiplier - pf.gross_exposure
    max 0 (if is_finite available then available else 0)

def PaperAccount.status (a : PaperAccount) (pf : Portfolio) : AccountStatus :=
  if a.suspended then .Suspended
  else if ¬ is_finite pf.equity ∨ pf.equity ≤ 0 then .Liquidation
  else if a.margin_excess pf < 0 then .MarginCall
  else .Active

/-- Every figure is read from the portfolio. -/
def PaperAccount.snapshot (a : PaperAccount) (pf : Portfolio) (ts : Timestamp) : AccountSnapshot Rat where
  ts
  cash := pf.cash
  equity := pf.equity
  position_value := pf.position_value
  realized_pnl := pf.realized_pnl
  unrealized_pnl := pf.unrealized_pnl
  total_costs := pf.total_costs
  gross_exposure := pf.gross_exposure
  net_exposure := pf.net_exposure
  maintenance_requirement := a.maintenance_requirement pf
  margin_excess := a.margin_excess pf
  available_buying_power := a.available_buying_power pf
  status := a.status pf

structure SessionConfig where
  session_id : String := "paper"
  config_fingerprint : UInt64 := 0
  persist_every_events : Nat := 100
  daily_reset : Bool := true
  require_matching_config : Bool := true
  deriving DecidableEq, Repr

structure SessionStats where
  events_processed : Nat := 0
  orders_submitted : Nat := 0
  orders_rejected : Nat := 0
  fills_received : Nat := 0
  persists : Nat := 0
  pauses : Nat := 0
  daily_resets : Nat := 0
  started_at : Timestamp := kNoTimestamp
  stopped_at : Timestamp := kNoTimestamp
  deriving DecidableEq, Repr

/-- A session with everything it borrows. `engine` holds the collaborators of
    the engine also before there is one; `emplaced` says whether there is.
    `connected` is the paper broker's own. -/
structure PaperSession (R Q F : Type) where
  config : SessionConfig := {}
  engine : Engine R
  emplaced : Bool := false
  source : Q
  account : PaperAccount := {}
  connected : Bool := false
  artifacts : ArtifactStore F
  phase : SessionPhase := .Created
  stats : SessionStats := {}
  pause_reason : String := ""
  stop_requested : Bool := false
  sequence : UInt64 := 0
  content_hash : UInt64 := kFnvOffset
  last_event : Timestamp := kNoTimestamp
  current_session_date : Timestamp := kNoTimestamp

variable {R S Q F : Type}

def PaperSession.trading_permitted (p : PaperSession R Q F) : Bool := p.phase = .Running

/-! ### State -/

/-- The positions that are not flat. -/
def persistedPositions (pf : Portfolio) : List (PersistedPosition Rat) :=
  pf.positions.toList.filterMap fun (key, position) =>
    if position.is_flat then none
    else
      some {
        instrument := key
        quantity := position.quantity
        average_cost := position.average_cost
        realized_pnl := position.realized_pnl }

def sideByte : Side → UInt8
  | .Buy => 0
  | .Sell => 1

def persistedOrders (oms : OrderManager) : List (PersistedOrder Rat) :=
  oms.working.filterMap fun id =>
    (oms.find id).map fun record =>
      { order_id := id
        instrument := record.order.instrument
        side := sideByte record.order.side
        quantity := record.order.quantity
        filled := record.filled_quantity }

def PaperSession.capture (p : PaperSession R Q F) : SessionState Rat where
  session_id := p.config.session_id
  sequence := p.sequence
  saved_at := p.engine.clock
  phase := p.phase
  config_fingerprint := p.config.config_fingerprint
  events_processed := .ofNat p.stats.events_processed
  last_event_time := p.last_event
  fills_received := .ofNat p.stats.fills_received
  orders_submitted := .ofNat p.stats.orders_submitted
  account := p.account.snapshot p.engine.pf p.engine.clock
  positions := persistedPositions p.engine.pf
  working_orders := persistedOrders p.engine.oms

def PaperSession.key (p : PaperSession R Q F) : String := "paper/" ++ p.config.session_id ++ "/state"

variable (fmt : DoubleFormat Rat) (fs : IFileSystem F)

/-- The record `persist` writes. -/
def PaperSession.record (p : PaperSession R Q F) : SessionState Rat :=
  { p.capture with sequence := p.sequence + 1 }

def PaperSession.persist (p : PaperSession R Q F) : Result Bool × PaperSession R Q F :=
  let (written, artifacts) := p.artifacts.put fs p.key (p.record.to_json fmt)
  let p := { p with artifacts, sequence := p.sequence + 1 }
  match written with
  | .error e => (.error e, p)
  | .ok _ => (.ok true, { p with stats := { p.stats with persists := p.stats.persists + 1 } })

/-- Only the counters and the last event's time are taken from the record. -/
def PaperSession.restore (p : PaperSession R Q F) (state : SessionState Rat) : PaperSession R Q F :=
  { p with
    sequence := state.sequence
    stats := { p.stats with
      events_processed := state.events_processed.toNat
      fills_received := state.fills_received.toNat
      orders_submitted := state.orders_submitted.toNat }
    last_event := state.last_event_time }

def PaperSession.recover (p : PaperSession R Q F) : Result (PaperSession R Q F) :=
  if ¬ p.artifacts.contains fs p.key then .ok p
  else
    match p.artifacts.get fs p.key with
    | .error e => .error e
    | .ok json =>
      match SessionState.from_json fmt json with
      | .error e => .error e
      | .ok state =>
        if p.config.require_matching_config ∧ p.config.config_fingerprint ≠ 0 ∧
            state.config_fingerprint ≠ p.config.config_fingerprint then
          .error (bad ("refusing to resume: state was written under config " ++
            String.ofList (Nat.toDigits 16 state.config_fingerprint.toNat) ++ " but this session is " ++
            String.ofList (Nat.toDigits 16 p.config.config_fingerprint.toNat)))
        else .ok (p.restore state)

/-! ### Phases -/

/-- The engine, the strategy and the source as they stand. -/
def PaperSession.world (p : PaperSession R Q F) (s : S) : World R S Q :=
  { engine := p.engine, strategy := s, source := p.source }

variable (strategy : IStrategy S)

/-- The engine is begun even when the strategy refuses to start. -/
def PaperSession.start (p : PaperSession R Q F) (s : S) : Result Bool × PaperSession R Q F × S :=
  if p.phase ≠ .Created then
    (.error (bad "session has already been started" p.config.session_id), p, s)
  else
    let p := { p with connected := true }
    match p.recover fmt fs with
    | .error e => (.error e, { p with phase := .Failed }, s)
    | .ok p =>
      let p := { p with engine := freshEngine p.engine, emplaced := true }
      match (p.world s).begin strategy with
      | .error e => (.error e, { p with engine := p.engine.begun, phase := .Failed }, s)
      | .ok w =>
        (.ok true, { p with
          engine := w.engine
          stats := { p.stats with started_at := w.engine.clock }
          current_session_date := utc_date_floor w.engine.clock
          phase := .Running }, w.strategy)

def PaperSession.pause (p : PaperSession R Q F) (reason : String) : PaperSession R Q F :=
  if is_terminal p.phase then p
  else
    { p with
      phase := .Paused
      pause_reason := reason
      stats := { p.stats with pauses := p.stats.pauses + 1 }
      connected := false }

def PaperSession.resume (p : PaperSession R Q F) : Result Bool × PaperSession R Q F :=
  if p.phase ≠ .Paused then
    (.error (bad ("only a paused session can resume; this one is " ++ p.phase.to_string)), p)
  else (.ok true, { p with connected := true, pause_reason := "", phase := .Running })

def PaperSession.request_stop (p : PaperSession R Q F) : PaperSession R Q F :=
  { p with stop_requested := true }

/-- The day's closing state is persisted before the risk manager's tallies are
    cleared. -/
def PaperSession.daily_reset (p : PaperSession R Q F) (now : Timestamp) :
    Result Bool × PaperSession R Q F :=
  match p.persist fmt fs with
  | (.error e, p) => (.error e, p)
  | (.ok _, p) =>
    (.ok true, { p with
      engine := { p.engine with risk := { p.engine.risk with rejections := ∅ } }
      current_session_date := utc_date_floor now
      stats := { p.stats with daily_resets := p.stats.daily_resets + 1 } })

/-! ### Stepping -/

/-- The engine's summary is copied over the session's own counters. -/
def PaperSession.tally (p : PaperSession R Q F) : PaperSession R Q F :=
  let summary := p.engine.summary
  { p with
    stats := { p.stats with
      events_processed := summary.events_processed
      fills_received := summary.fills
      orders_submitted := summary.orders_submitted
      orders_rejected := summary.orders_rejected }
    last_event := summary.last_event
    content_hash := hash_bytes p.content_hash (sizeof64 (.ofInt summary.last_event)) }

/-- The day roll between two events. -/
def PaperSession.roll (p : PaperSession R Q F) : Result Bool × PaperSession R Q F :=
  if p.config.daily_reset ∧ is_set p.last_event ∧ is_set p.current_session_date ∧
      utc_date_floor p.last_event > p.current_session_date then
    p.daily_reset fmt fs p.last_event
  else (.ok true, p)

/-- What the session does between two events. -/
def PaperSession.between (p : PaperSession R Q F) : Result Bool × PaperSession R Q F :=
  match p.tally.roll fmt fs with
  | (.error e, p) => (.error e, p)
  | (.ok _, p) =>
    if p.config.persist_every_events > 0 ∧
        p.stats.events_processed % p.config.persist_every_events = 0 then
      p.persist fmt fs
    else (.ok true, p)

variable (source : IMarketDataSource Q)

/-- The loop of `step`, one event at a time through the engine. What a failing
    event did before it failed is left out: the session is over, or, when the
    clock threw, nothing was done. -/
def PaperSession.advance : Nat → PaperSession R Q F → S → Except Failure Nat × PaperSession R Q F × S
  | 0, p, s => (.ok 0, p, s)
  | n + 1, p, s =>
    if p.stop_requested then (.ok 0, p, s)
    else
      match (p.world s).step strategy source 1 with
      | .error (.returned e) => (.error (.returned e), { p with phase := .Failed }, s)
      | .error (.thrown what) => (.error (.thrown what), p, s)
      | .ok (0, _) => (.ok 0, p, s)
      | .ok (_ + 1, w) =>
        match { p with engine := w.engine, source := w.source }.between fmt fs with
        | (.error e, p) => (.error (.returned e), p, w.strategy)
        | (.ok _, p) =>
          let (processed, p, s) := PaperSession.advance n p w.strategy
          (processed.map (· + 1), p, s)

def PaperSession.step (p : PaperSession R Q F) (s : S) (max_events : Nat) :
    Except Failure Nat × PaperSession R Q F × S :=
  if p.phase ≠ .Running ∧ p.phase ≠ .Paused then
    (.error (.returned (bad ("session is not running; it is " ++ p.phase.to_string))), p, s)
  else if ¬ p.emplaced then (.error (.returned (bad "session has not been started")), p, s)
  else p.advance fmt fs strategy source max_events s

/-- The engine is closed out, then the state is persisted. -/
def PaperSession.shutdown (p : PaperSession R Q F) (s : S) : Result Bool × PaperSession R Q F × S :=
  if is_terminal p.phase then (.ok true, p, s)
  else
    let p := { p with phase := SessionPhase.Stopping }
    let (p, s) :=
      if p.emplaced then
        let w := ((p.world s).finish strategy).2
        ({ p with engine := w.engine }, w.strategy)
      else (p, s)
    match p.persist fmt fs with
    | (.error e, p) => (.error e, { p with phase := .Failed }, s)
    | (.ok _, p) =>
      (.ok true, { p with
        connected := false
        stats := { p.stats with stopped_at := p.engine.clock }
        phase := .Stopped }, s)

/-- The loop of `run`, with fuel for the steps. -/
def PaperSession.drive : Nat → PaperSession R Q F → S → Option (Except Failure Unit × PaperSession R Q F × S)
  | 0, _, _ => none
  | fuel + 1, p, s =>
    if p.stop_requested ∨ is_terminal p.phase then some (.ok (), p, s)
    else
      match p.step fmt fs strategy source s 64 with
      | (.error failure, p, s) => some (.error failure, p, s)
      | (.ok 0, p, s) => some (.ok (), p, s)
      | (.ok (_ + 1), p, s) => PaperSession.drive fuel p s

def PaperSession.run (p : PaperSession R Q F) (s : S) (fuel : Nat) :
    Option (Except Failure SessionStats × PaperSession R Q F × S) :=
  let (started, p, s) := if p.phase = .Created then p.start fmt fs strategy s else (.ok true, p, s)
  match started with
  | .error e => some (.error (.returned e), p, s)
  | .ok _ =>
    match p.drive fmt fs strategy source fuel s with
    | none => none
    | some (.error failure, p, s) => some (.error failure, p, s)
    | some (.ok _, p, s) =>
      match p.shutdown fmt fs strategy s with
      | (.error e, p, s) => some (.error (.returned e), p, s)
      | (.ok _, p, s) => some (.ok p.stats, p, s)

end ptl.paper
