import TradingLab.Execution.Broker
import TradingLab.Oms.Order
import TradingLab.Portfolio.Portfolio

open ptl.oms ptl.portfolio ptl.execution
open Std (TreeMap)

namespace ptl.construction

/-- One instrument's desired end state. -/
structure TargetPosition where
  instrument : InstrumentId := kInvalidInstrument
  target_quantity : Qty := 0
  reference_price : Price := 0
  target_weight : Rat := 0
  net_edge : Rat := 0
  deriving DecidableEq, Repr

/-- The desired book at one instant. -/
structure TargetPortfolio where
  as_of : Timestamp
  targets : TreeMap InstrumentId TargetPosition := ∅

def TargetPortfolio.set (p : TargetPortfolio) (target : TargetPosition) : Result Bool × TargetPortfolio :=
  if target.instrument = kInvalidInstrument then (.error (bad "target has no instrument"), p)
  else if ¬ is_finite target.target_quantity then (.error (bad "target quantity is not finite"), p)
  else if target.reference_price ≤ 0 ∨ ¬ is_finite target.reference_price then
    (.error (bad "target needs a positive reference price"), p)
  else if p.targets.contains target.instrument then
    (.error (bad "duplicate target for instrument" (toString target.instrument)), p)
  else (.ok true, { p with targets := p.targets.insert target.instrument target })

def TargetPortfolio.gross_notional (p : TargetPortfolio) : Notional :=
  p.targets.foldl (fun total _ t => total + |t.target_quantity * t.reference_price|) 0

def TargetPortfolio.net_notional (p : TargetPortfolio) : Notional :=
  p.targets.foldl (fun total _ t => total + t.target_quantity * t.reference_price) 0

inductive RebalanceMode where
  | Partial
  | Full
  deriving DecidableEq, Repr

structure RebalanceConfig where
  mode : RebalanceMode := .Partial
  drift_threshold : Rat := 0.005
  min_trade_notional : Notional := 500
  lot_size : Rat := 1
  estimated_cost_bps : Bps := 3
  max_turnover_per_rebalance : Rat := 0.50
  order_type : oms.OrderType := .Market
  limit_offset_bps : Bps := 5
  time_in_force : TimeInForce := .Day
  deriving DecidableEq, Repr

/-- One instrument's planned trade. -/
structure RebalanceTrade where
  instrument : InstrumentId := kInvalidInstrument
  current_quantity : Qty := 0
  target_quantity : Qty := 0
  delta_quantity : Qty := 0
  side : Side := .Buy
  reference_price : Price := 0
  notional : Notional := 0
  drift : Rat := 0
  skipped : Bool := false
  skip_reason : String := ""
  deriving DecidableEq, Repr

structure RebalancePlan where
  as_of : Timestamp := kNoTimestamp
  trades : List RebalanceTrade := []
  gross_turnover : Notional := 0
  estimated_cost : Notional := 0
  turnover_ratio : Rat := 0
  skipped : Nat := 0
  deriving DecidableEq, Repr

def RebalancePlan.actionable (p : RebalancePlan) : Nat := p.trades.countP fun t => ¬ t.skipped

/-- A trade that is planned but not made. -/
def RebalanceTrade.skip (t : RebalanceTrade) (skip_reason : String) : RebalanceTrade :=
  { t with skipped := true, skip_reason }

/-- Held and targeted instruments, in their order. -/
def instrument_universe (targets : TargetPortfolio) (pf : Portfolio) : TreeMap InstrumentId Bool :=
  let targeted := targets.targets.keys.foldl (fun all key => all.insert key true) ∅
  let held := (pf.positions.toList.filter fun entry => ¬ entry.2.is_flat).map Prod.fst
  held.foldl (fun all key => all.insert key true) targeted

/-- The price a trade is sized at: the target's, or else the portfolio's mark. -/
def tradePrice (targets : TargetPortfolio) (pf : Portfolio) (instrument : InstrumentId) : Option Price :=
  match targets.targets[instrument]? with
  | some target => some target.reference_price
  | none => pf.mark_price instrument

/-- A trade of what is missing, or of nothing where that is not worth it. -/
def RebalanceConfig.settle (cfg : RebalanceConfig) (trade : RebalanceTrade) : RebalanceTrade :=
  if trade.delta_quantity = 0 then trade.skip "already at target"
  else if cfg.mode = .Partial ∧ trade.drift < cfg.drift_threshold then
    trade.skip ("drift " ++ to_string trade.drift ++ " below threshold")
  else if trade.notional < cfg.min_trade_notional then trade.skip "below the minimum trade size"
  else if cfg.lot_size > 0 then
    let rounded := toLots cfg.lot_size trade.delta_quantity
    if rounded = 0 then trade.skip "rounds to zero shares"
    else { trade with delta_quantity := rounded, notional := |rounded| * trade.reference_price }
  else trade

/-- The target quantity of an instrument, zero where it has no target. -/
def TargetPortfolio.wanted (targets : TargetPortfolio) (instrument : InstrumentId) : Qty :=
  (targets.targets[instrument]?).elim 0 TargetPosition.target_quantity

/-- The trade of the whole delta, which is to the settled position. -/
def deltaTrade (targets : TargetPortfolio) (pf : Portfolio) (instrument : InstrumentId)
    (reference_price : Price) : RebalanceTrade :=
  let current_quantity := pf.settledQuantity instrument
  let target_quantity := targets.wanted instrument
  let delta := target_quantity - current_quantity
  let notional := |delta| * reference_price
  { instrument, current_quantity, target_quantity, reference_price, notional
    delta_quantity := delta
    side := if delta ≥ 0 then .Buy else .Sell
    drift := notional / pf.equity }

/-- One turn of the loop of `plan`. -/
def RebalanceConfig.planTrade (cfg : RebalanceConfig) (targets : TargetPortfolio) (pf : Portfolio)
    (instrument : InstrumentId) : RebalanceTrade :=
  match tradePrice targets pf instrument with
  | none =>
    RebalanceTrade.skip {
      instrument
      current_quantity := pf.settledQuantity instrument
      target_quantity := targets.wanted instrument } "no reference price available"
  | some reference_price => cfg.settle (deltaTrade targets pf instrument reference_price)

structure RebalanceEngine where
  cfg : RebalanceConfig := {}

/-- Compare a target book against the actual one and plan the difference. -/
def RebalanceEngine.plan (r : RebalanceEngine) (targets : TargetPortfolio) (pf : Portfolio) :
    Result RebalancePlan :=
  let equity := pf.equity
  if ¬ is_finite equity ∨ equity ≤ 0 then
    .error (bad "cannot rebalance a portfolio with non-positive equity")
  else
    let trades := (instrument_universe targets pf).keys.map fun instrument => r.cfg.planTrade targets pf instrument
    let gross_turnover := ((trades.filter fun t => ¬ t.skipped).map RebalanceTrade.notional).sum
    let turnover_ratio := gross_turnover / equity
    if r.cfg.max_turnover_per_rebalance > 0 ∧ turnover_ratio > r.cfg.max_turnover_per_rebalance then
      .error (bad ("rebalance would turn over " ++ to_string turnover_ratio ++ "x equity, limit is " ++
        to_string r.cfg.max_turnover_per_rebalance))
    else
      .ok {
        as_of := targets.as_of
        trades
        gross_turnover
        estimated_cost := gross_turnover * r.cfg.estimated_cost_bps * 1e-4
        turnover_ratio
        skipped := trades.countP fun t => t.skipped }

/-- The order of a trade under an id. A limit is offset away from the touch. -/
def RebalanceConfig.orderOf (cfg : RebalanceConfig) (trade : RebalanceTrade) (decision_time : Timestamp)
    (id : OrderId) : Result Order :=
  let times : LifecycleTimes := { decision_time }
  let quantity := |trade.delta_quantity|
  let direction : Int := if trade.side = .Buy then 1 else -1
  match cfg.order_type with
  | .Market => Order.market id trade.instrument trade.side quantity times cfg.time_in_force
  | .Limit =>
    let limit := apply_bps trade.reference_price cfg.limit_offset_bps (-direction)
    Order.limit id trade.instrument trade.side quantity limit times cfg.time_in_force
  | .Stop =>
    let stop := apply_bps trade.reference_price cfg.limit_offset_bps direction
    Order.stop id trade.instrument trade.side quantity stop times cfg.time_in_force
  | .StopLimit =>
    let stop := apply_bps trade.reference_price cfg.limit_offset_bps direction
    let limit := apply_bps stop cfg.limit_offset_bps direction
    Order.stop_limit id trade.instrument trade.side quantity stop limit times cfg.time_in_force

/-- The loop of `to_orders`. Ids taken for orders before a failure stay
    taken. -/
def RebalanceConfig.ordersOf {E : Type} (cfg : RebalanceConfig) (decision_time : Timestamp)
    (next_id : E → OrderId × E) : List RebalanceTrade → E → Result (List Order) × E
  | [], e => (.ok [], e)
  | trade :: trades, e =>
    if trade.skipped then cfg.ordersOf decision_time next_id trades e
    else
      let (id, e) := next_id e
      match cfg.orderOf trade decision_time id with
      | .error err => (.error err, e)
      | .ok order =>
        match cfg.ordersOf decision_time next_id trades e with
        | (.error err, e) => (.error err, e)
        | (.ok orders, e) => (.ok (order.with_arrival_price trade.reference_price :: orders), e)

/-- Convert a plan into orders. -/
def RebalanceEngine.to_orders {E : Type} (r : RebalanceEngine) (plan : RebalancePlan)
    (decision_time : Timestamp) (next_id : E → OrderId × E) (e : E) : Result (List Order) × E :=
  if ¬ is_set decision_time then (.error (bad "order generation needs a decision time"), e)
  else r.cfg.ordersOf decision_time next_id plan.trades e

end ptl.construction
