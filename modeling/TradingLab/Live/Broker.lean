import Std.Data.TreeMap.Lemmas
import TradingLab.Core.Json
import TradingLab.Execution.Broker.External
import TradingLab.Live.Connection
import TradingLab.Oms.Order
import TradingLab.Portfolio.Portfolio

open ptl.oms ptl.portfolio ptl.execution
open Std (TreeMap)

namespace ptl.live

/-- A request encoded for the venue, with the id its reply will carry. -/
structure EncodedRequest where
  payload : String := ""
  client_order_id : String := ""
  order_id : OrderId := kNoOrder
  deriving DecidableEq, Repr

structure IOrderTranslator where
  encode_new : Order → Result EncodedRequest
  encode_cancel : OrderId → String → Result EncodedRequest
  encode_replace : Order → String → Result EncodedRequest
  supports : Order → Result Bool
  client_order_id : OrderId → String

/-! ### Alpaca -/

namespace AlpacaOrderTranslator

structure Config where
  client_id_prefix : String := "ptl-"
  allow_fractional : Bool := false
  extended_hours : Bool := false
  deriving DecidableEq, Repr

def type_string : oms.OrderType → String
  | .Market => "market"
  | .Limit => "limit"
  | .Stop => "stop"
  | .StopLimit => "stop_limit"

def tif_string : TimeInForce → String
  | .Day => "day"
  | .GoodTillCancel => "gtc"
  | .ImmediateOrCancel => "ioc"
  | .FillOrKill => "fok"

/-- `std::round`: to the nearest integer, halves away from zero. -/
def round (x : Rat) : Rat := if x < 0 then -((-x + 1 / 2).floor : Rat) else ((x + 1 / 2).floor : Rat)

-- `wire_number` stands for the library's number printing.
variable (wire_number : Rat → String) (config : Config) (symbol : Option (InstrumentId → String))

def client_order_id (id : OrderId) : String := config.client_id_prefix ++ toString id

/-- A price that an order type asks for is there and positive. -/
def pricePresent (needed : Bool) (missing nonPositive : String) (price : Option Price) : Option Error :=
  match needed, price with
  | true, none => some (bad missing)
  | true, some p => if p ≤ 0 then some (bad nonPositive) else none
  | false, _ => none

def supports (order : Order) : Result Bool :=
  if order.quantity ≤ 0 then .error (bad "order quantity must be positive")
  else if ¬ config.allow_fractional ∧ |order.quantity - round order.quantity| > 1e-9 then
    .error (bad "this venue configuration does not accept fractional quantities"
      (wire_number order.quantity))
  else if (order.time_in_force = .ImmediateOrCancel ∨ order.time_in_force = .FillOrKill) ∧
      order.type = .Market then
    .error (bad ("this venue does not accept IOC or FOK on a market order; send " ++
      "a marketable limit instead"))
  else
    match pricePresent order.type.needs_limit "a limit order needs a limit price"
        "limit price must be positive" order.limit_price with
    | some e => .error e
    | none =>
      match pricePresent order.type.needs_stop "a stop order needs a stop price"
          "stop price must be positive" order.stop_price with
      | some e => .error e
      | none => .ok true

def priceField (name : String) (price : Option Price) : String :=
  match price with
  | none => ""
  | some p => ", \"" ++ name ++ "\": \"" ++ wire_number p ++ "\""

def encode_new (order : Order) : Result EncodedRequest :=
  match supports wire_number config order with
  | .error e => .error e
  | .ok _ =>
    let name := symbol.elim "" fun symbol => symbol order.instrument
    if name = "" then
      .error (bad ("no symbol is known for instrument " ++ toString order.instrument ++
        "; refusing to guess"))
    else
      let client := client_order_id config order.id
      .ok {
        order_id := order.id
        client_order_id := client
        payload := "\x7b\"symbol\": \"" ++ json_escape name ++ "\", \"qty\": \"" ++
          wire_number order.quantity ++ "\", \"side\": \"" ++
          (if order.side = .Buy then "buy" else "sell") ++ "\", \"type\": \"" ++
          type_string order.type ++ "\", \"time_in_force\": \"" ++ tif_string order.time_in_force ++
          "\", \"client_order_id\": \"" ++ json_escape client ++ "\"" ++
          priceField wire_number "limit_price" order.limit_price ++
          priceField wire_number "stop_price" order.stop_price ++
          (if config.extended_hours then ", \"extended_hours\": true" else "") ++ "\x7d" }

def encode_cancel (id : OrderId) (venue_order_id : String) : Result EncodedRequest :=
  if venue_order_id = "" then
    .error (bad "cannot cancel before the venue has assigned an order id" (toString id))
  else
    .ok {
      order_id := id
      client_order_id := client_order_id config id
      payload := "\x7b\"action\": \"cancel\", \"order_id\": \"" ++ json_escape venue_order_id ++ "\"\x7d" }

def encode_replace (amended : Order) (venue_order_id : String) : Result EncodedRequest :=
  if venue_order_id = "" then
    .error (bad "cannot replace before the venue has assigned an order id")
  else
    match supports wire_number config amended with
    | .error e => .error e
    | .ok _ =>
      .ok {
        order_id := amended.id
        client_order_id := client_order_id config amended.id
        payload := "\x7b\"action\": \"replace\", \"order_id\": \"" ++ json_escape venue_order_id ++
          "\", \"qty\": \"" ++ wire_number amended.quantity ++ "\"" ++
          priceField wire_number "limit_price" amended.limit_price ++
          priceField wire_number "stop_price" amended.stop_price ++ "\x7d" }

end AlpacaOrderTranslator

def AlpacaOrderTranslator (wire_number : Rat → String) (config : AlpacaOrderTranslator.Config)
    (symbol : Option (InstrumentId → String)) : IOrderTranslator where
  encode_new := AlpacaOrderTranslator.encode_new wire_number config symbol
  encode_cancel := AlpacaOrderTranslator.encode_cancel config
  encode_replace := AlpacaOrderTranslator.encode_replace wire_number config
  supports := AlpacaOrderTranslator.supports wire_number config
  client_order_id := AlpacaOrderTranslator.client_order_id config

/-! ### Inbound updates -/

namespace OrderUpdate

inductive Kind where
  | Accepted
  | Rejected
  | Cancelled
  | Replaced
  | PartiallyFilled
  | Filled
  | Ignored
  deriving DecidableEq, Repr

end OrderUpdate

structure OrderUpdate where
  kind : OrderUpdate.Kind := .Ignored
  order_id : OrderId := kNoOrder
  venue_order_id : String := ""
  filled_quantity : Qty := 0
  fill_price : Price := 0
  commission : Notional := 0
  exchange_fee : Notional := 0
  venue_time : Timestamp := kNoTimestamp
  venue_fill_id : String := ""
  reason : String := ""
  deriving DecidableEq, Repr

def OrderUpdate.is_fill (u : OrderUpdate) : Bool := u.kind = .PartiallyFilled ∨ u.kind = .Filled

/-- What a kind of message means for an order. -/
def updateKind : MessageKind → OrderUpdate.Kind
  | .OrderAccepted => .Accepted
  | .OrderRejected => .Rejected
  | .OrderCancelled => .Cancelled
  | .OrderReplaced => .Replaced
  | .PartialFill => .PartiallyFilled
  | .Fill => .Filled
  | _ => .Ignored

structure LiveOrderListener where
  by_client_id : TreeMap String OrderId := ∅

def LiveOrderListener.track (l : LiveOrderListener) (client_order_id : String) (id : OrderId) :
    Result Bool × LiveOrderListener :=
  if client_order_id = "" then (.error (bad "client order id cannot be empty"), l)
  else if id = kNoOrder then (.error (bad "cannot track an invalid order id"), l)
  else
    match l.by_client_id[client_order_id]? with
    | some existing =>
      if existing = id then (.ok true, l)
      else (.error (bad "client order id is already tracking a different order" client_order_id), l)
    | none => (.ok true, { by_client_id := l.by_client_id.insert client_order_id id })

def LiveOrderListener.forget (l : LiveOrderListener) (client_order_id : String) : LiveOrderListener :=
  { by_client_id := l.by_client_id.erase client_order_id }

def LiveOrderListener.resolve (l : LiveOrderListener) (client_order_id : String) : Option OrderId :=
  l.by_client_id[client_order_id]?

/-- An update for an order that is not tracked is an error, anything that is
    not about an order is ignored. -/
def LiveOrderListener.interpret (l : LiveOrderListener) (message : BrokerMessage) : Result OrderUpdate :=
  let update : OrderUpdate := {
    kind := updateKind message.kind
    venue_order_id := message.venue_order_id
    venue_fill_id := message.venue_fill_id
    venue_time := message.venue_time
    reason := message.text }
  if update.kind = .Ignored then .ok update
  else
    match l.resolve message.client_order_id with
    | none =>
      .error (bad "venue update references an untracked order"
        (if message.client_order_id = "" then message.venue_order_id else message.client_order_id))
    | some id =>
      let update := { update with order_id := id }
      if update.is_fill then
        if ¬ message.quantity > 0 then
          .error (bad "venue reported a fill with non-positive quantity")
        else if ¬ message.price > 0 then
          .error (bad "venue reported a fill with non-positive price")
        else
          .ok { update with
            filled_quantity := message.quantity
            fill_price := message.price
            commission := message.commission
            exchange_fee := message.exchange_fee }
      else .ok update

def LiveOrderListener.snapshot (l : LiveOrderListener) : List (String × UInt64) := l.by_client_id.toList

/-- The entries tracked one after another, up to the first that is refused. -/
def LiveOrderListener.trackAll (l : LiveOrderListener) :
    List (String × UInt64) → Result Bool × LiveOrderListener
  | [] => (.ok true, l)
  | (client_id, order_id) :: rest =>
    match l.track client_id order_id with
    | (.error e, l) => (.error e, l)
    | (.ok _, l) => l.trackAll rest

def LiveOrderListener.restore (entries : List (String × UInt64)) : Result Bool × LiveOrderListener :=
  LiveOrderListener.trackAll {} entries

/-- The venue's view of the account, over the numbers `D`. It is kept apart from
    the portfolio, so that the two can be compared. -/
structure BrokerAccountSnapshot (D : Type) [Zero D] where
  ts : Timestamp := kNoTimestamp
  cash : D := 0
  buying_power : D := 0
  equity : D := 0
  position_value : D := 0
  realized_pnl : D := 0
  unrealized_pnl : D := 0
  positions : TreeMap InstrumentId D := ∅
  open_order_count : Nat := 0

structure LiveBrokerConfig where
  cash_tolerance : Rat := 1e-2
  position_tolerance : Rat := 0
  require_clean_reconciliation : Bool := true
  max_order_notional : Notional := 10000000
  deriving DecidableEq, Repr

structure LiveBrokerStats where
  submitted : Nat := 0
  accepted : Nat := 0
  rejected : Nat := 0
  cancelled : Nat := 0
  replaced : Nat := 0
  fills_ingested : Nat := 0
  fills_refused : Nat := 0
  reconciliations : Nat := 0
  reconciliation_failures : Nat := 0
  deriving DecidableEq, Repr

def LiveBrokerStats.reject (s : LiveBrokerStats) : LiveBrokerStats := { s with rejected := s.rejected + 1 }

/-- What the broker owns. -/
structure LiveBrokerState where
  config : LiveBrokerConfig := {}
  listener : LiveOrderListener := {}
  stats : LiveBrokerStats := {}
  account : BrokerAccountSnapshot Rat := {}
  venue_ids : TreeMap OrderId String := ∅
  working : TreeMap OrderId Bool := ∅

/-- The broker with the collaborators it borrows. -/
structure LiveBroker (R T : Type) extends LiveBrokerState where
  clock : Timestamp
  connection : LiveConnection
  transport : T
  simulator : BrokerSimulator R
  portfolio : Portfolio

section Orders

variable {R T : Type} (transport : ILiveTransport T) (translator : IOrderTranslator)

/-- What `submit` checks before the order goes anywhere, ending in the encoded
    request. `num` stands for the library's number printing. -/
def LiveBroker.screen (num : Rat → String) (b : LiveBroker R T) (order : Order) : Result EncodedRequest :=
  if ¬ b.connection.trading_permitted then
    .error (bad ("connection is " ++ b.connection.state.to_string ++ "; orders are not permitted"))
  else
    let reference := order.limit_price.getD order.arrival_price
    let notional := order.quantity * reference
    if b.config.max_order_notional > 0 ∧ is_finite notional ∧ notional > b.config.max_order_notional then
      .error (bad "order notional exceeds the venue limit" (num notional))
    else translator.encode_new order

/-- The simulator holds the order as pending before the venue is told of it. -/
def LiveBroker.submit (num : Rat → String) (b : LiveBroker R T) (order : Order) :
    Result Bool × LiveBroker R T :=
  let b := { b with stats := { b.stats with submitted := b.stats.submitted + 1 } }
  match b.screen translator num order with
  | .error e => (.error e, { b with stats := b.stats.reject })
  | .ok encoded =>
    match b.simulator.submit b.clock order with
    | (.error e, simulator) => (.error e, { b with simulator, stats := b.stats.reject })
    | (.ok _, simulator) =>
      match b.listener.track encoded.client_order_id order.id with
      | (.error e, listener) => (.error e, { b with simulator, listener })
      | (.ok _, listener) =>
        match b.connection.send transport b.transport encoded.payload with
        | (.error e, t) =>
          (.error e, { b with
            transport := t
            listener := listener.forget encoded.client_order_id
            simulator := (simulator.cancel order.id).2
            stats := b.stats.reject })
        | (.ok _, t) =>
          (.ok true, { b with
            transport := t
            listener, simulator
            working := b.working.insert order.id true
            stats := { b.stats with accepted := b.stats.accepted + 1 } })

def LiveBroker.venue_id_of (b : LiveBroker R T) (id : OrderId) : String := (b.venue_ids[id]?).getD ""

/-- Nothing is removed: the order is cancelled when the venue says so. -/
def LiveBroker.cancel (b : LiveBroker R T) (id : OrderId) : Result Bool × LiveBroker R T :=
  match translator.encode_cancel id (b.venue_id_of id) with
  | .error e => (.error e, b)
  | .ok encoded =>
    match b.connection.send transport b.transport encoded.payload with
    | (.error e, t) => (.error e, { b with transport := t })
    | (.ok _, t) =>
      (.ok true, { b with
        transport := t
        stats := { b.stats with cancelled := b.stats.cancelled + 1 } })

def LiveBroker.replace (b : LiveBroker R T) (amended : Order) : Result Bool × LiveBroker R T :=
  match translator.encode_replace amended (b.venue_id_of amended.id) with
  | .error e => (.error e, b)
  | .ok encoded =>
    match b.connection.send transport b.transport encoded.payload with
    | (.error e, t) => (.error e, { b with transport := t })
    | (.ok _, t) =>
      (.ok true, { b with
        transport := t
        stats := { b.stats with replaced := b.stats.replaced + 1 } })

def LiveBroker.observe_account (b : LiveBroker R T) (snapshot : BrokerAccountSnapshot Rat) :
    LiveBroker R T :=
  { b with account := snapshot }

/-- The order is no longer worked and no longer listened for. -/
def LiveBroker.closed (b : LiveBroker R T) (id : OrderId) : LiveBroker R T :=
  { b with
    working := b.working.erase id
    listener := b.listener.forget (translator.client_order_id id) }

/-- The time of a fill is the venue's own where it gave one. -/
def LiveBroker.report (b : LiveBroker R T) (update : OrderUpdate) : ExternalFillReport where
  order_id := update.order_id
  quantity := update.filled_quantity
  price := update.fill_price
  fill_time := if is_set update.venue_time then update.venue_time else b.clock
  commission := update.commission
  exchange_fee := update.exchange_fee
  venue_fill_id := update.venue_fill_id

/-- A fill goes to the simulator, which checks and builds it. -/
def LiveBroker.ingest (b : LiveBroker R T) (update : OrderUpdate) : Result (Option Fill) × LiveBroker R T :=
  match b.simulator.ingest_external_fill (b.report update) with
  | (.error e, simulator) =>
    (.error e, { b with
      simulator
      stats := { b.stats with fills_refused := b.stats.fills_refused + 1 } })
  | (.ok f, simulator) =>
    let b := { b with
      simulator
      stats := { b.stats with fills_ingested := b.stats.fills_ingested + 1 } }
    (.ok (some f), if update.kind = .Filled then b.closed translator update.order_id else b)

/-- What `poll` does with one message. -/
def LiveBroker.apply (b : LiveBroker R T) (message : BrokerMessage) :
    Result (Option Fill) × LiveBroker R T :=
  if message.kind = .AccountUpdate then
    (.ok none, b.observe_account { ts := message.venue_time, cash := message.price })
  else
    match b.listener.interpret message with
    | .error e =>
      (.error e, { b with stats := { b.stats with fills_refused := b.stats.fills_refused + 1 } })
    | .ok update =>
      match update.kind with
      | .Ignored => (.ok none, b)
      | .Accepted | .Replaced =>
        (.ok none, if update.venue_order_id ≠ "" then
            { b with venue_ids := b.venue_ids.insert update.order_id update.venue_order_id }
          else b)
      | .Cancelled =>
        (.ok none, { b.closed translator update.order_id with
          simulator := (b.simulator.cancel update.order_id).2 })
      | .Rejected =>
        (.ok none, { b.closed translator update.order_id with
          simulator := (b.simulator.cancel update.order_id).2
          stats := b.stats.reject })
      | .PartiallyFilled | .Filled => b.ingest translator update

/-- The messages of a poll in order, up to the first that is refused: its error
    takes the place of the fills before it, and those after it are lost. -/
def LiveBroker.applyAll (b : LiveBroker R T) : List BrokerMessage → Result (List Fill) × LiveBroker R T
  | [] => (.ok [], b)
  | message :: rest =>
    match b.apply translator message with
    | (.error e, b) => (.error e, b)
    | (.ok fill, b) =>
      let (fills, b) := b.applyAll rest
      (fills.map (fill.toList ++ ·), b)

def LiveBroker.poll (b : LiveBroker R T) : Result (List Fill) × LiveBroker R T :=
  let (accepted, connection, t) := b.connection.poll transport b.transport b.clock
  { b with connection, transport := t }.applyAll translator accepted

def LiveBroker.working_orders (b : LiveBroker R T) : List OrderId :=
  (b.working.toList.filter fun entry => entry.2).map fun entry => entry.1

end Orders

/-! ### Reconciliation -/

structure ReconciliationReport where
  ts : Timestamp := kNoTimestamp
  cash_matches : Bool := false
  positions_match : Bool := false
  cash_drift : Notional := 0
  position_drift : TreeMap InstrumentId Rat := ∅
  notes : List String := []

def ReconciliationReport.clean (r : ReconciliationReport) : Bool :=
  r.cash_matches && r.positions_match && r.position_drift.isEmpty

def ReconciliationReport.describe (r : ReconciliationReport) : String :=
  "reconciliation at " ++ (if is_set r.ts then to_iso8601 r.ts else "unset") ++ ": " ++
    (if r.clean then "clean" else "DRIFT") ++ "\n" ++
    (if ¬ r.cash_matches then "  cash drift " ++ to_string r.cash_drift ++ "\n" else "") ++
    String.join (r.position_drift.toList.map fun (instrument, drift) =>
      "  instrument#" ++ toString instrument ++ " drift " ++ to_string drift ++ "\n") ++
    String.join (r.notes.map fun note => "  " ++ note ++ "\n")

def ReconciliationReport.drifted (r : ReconciliationReport) (instrument : InstrumentId) (drift : Rat) :
    ReconciliationReport :=
  { r with position_drift := r.position_drift.insert instrument drift, positions_match := false }

/-- One of our positions against the venue's. -/
def ReconciliationReport.held (tolerance : Rat) (venue : BrokerAccountSnapshot Rat)
    (r : ReconciliationReport) (entry : InstrumentId × Position) : ReconciliationReport :=
  let ours := entry.2.quantity
  let theirs := (venue.positions[entry.1]?).getD 0
  if |ours - theirs| > tolerance then r.drifted entry.1 (ours - theirs) else r

/-- One of the venue's positions, when we hold none. -/
def ReconciliationReport.unheld (tolerance : Rat) (ours : TreeMap InstrumentId Position)
    (r : ReconciliationReport) (entry : InstrumentId × Rat) : ReconciliationReport :=
  if r.position_drift.contains entry.1 then r
  else if ¬ ours.contains entry.1 ∧ |entry.2| > tolerance then
    { r.drifted entry.1 (-entry.2) with
      notes := r.notes ++ ["venue reports a position in instrument#" ++ toString entry.1 ++
        " that the portfolio does not hold"] }
  else r

/-- Cash within a tolerance, as fees post late; positions exactly. -/
def LiveBroker.reconcile {R T : Type} (b : LiveBroker R T) (venue : BrokerAccountSnapshot Rat) :
    ReconciliationReport :=
  let drift := b.portfolio.cash - venue.cash
  let cash_matches := decide (|drift| ≤ b.config.cash_tolerance)
  let report : ReconciliationReport := {
    ts := venue.ts
    cash_drift := drift
    cash_matches
    positions_match := true
    notes := if cash_matches then [] else
      ["cash differs by more than the tolerance; check for " ++
        "fees or dividends the portfolio has not booked"] }
  let report := b.portfolio.positions.toList.foldl
    (ReconciliationReport.held b.config.position_tolerance venue) report
  venue.positions.toList.foldl
    (ReconciliationReport.unheld b.config.position_tolerance b.portfolio.positions) report

end ptl.live
