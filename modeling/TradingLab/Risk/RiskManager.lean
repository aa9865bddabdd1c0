import TradingLab.Oms.OrderManager
import TradingLab.Portfolio.Portfolio

open ptl.oms ptl.portfolio
open Std (TreeMap)

namespace ptl.risk

inductive RejectCode where
  | Approved
  | MaxPositionExceeded
  | MaxOrderNotional
  | MaxGrossExposure
  | MaxNetExposure
  | MaxLeverage
  | InsufficientBuyingPower
  | ShortingDisabled
  | PriceCollar
  | StaleData
  | DrawdownKillSwitch
  | ConcentrationLimit
  | TurnoverBudget
  | NoMarkAvailable
  deriving DecidableEq, Repr

def RejectCode.to_string : RejectCode → String
  | .Approved => "approved"
  | .MaxPositionExceeded => "max_position_exceeded"
  | .MaxOrderNotional => "max_order_notional"
  | .MaxGrossExposure => "max_gross_exposure"
  | .MaxNetExposure => "max_net_exposure"
  | .MaxLeverage => "max_leverage"
  | .InsufficientBuyingPower => "insufficient_buying_power"
  | .ShortingDisabled => "shorting_disabled"
  | .PriceCollar => "price_collar"
  | .StaleData => "stale_data"
  | .DrawdownKillSwitch => "drawdown_kill_switch"
  | .ConcentrationLimit => "concentration_limit"
  | .TurnoverBudget => "turnover_budget"
  | .NoMarkAvailable => "no_mark_available"

structure RiskLimits where
  max_order_notional : Notional := 250000
  max_position_notional : Notional := 500000
  max_gross_leverage : Rat := 2
  max_net_leverage : Rat := 1
  max_concentration : Rat := 0.25
  price_collar : Bps := 500
  max_data_staleness : Duration := 300000000000
  max_drawdown_pct : Rat := 0.25
  max_daily_turnover : Rat := 1
  allow_short : Bool := true
  deriving DecidableEq, Repr

structure RiskDecision where
  code : RejectCode := .Approved
  detail : String := ""
  adjusted_quantity : Qty := 0
  deriving DecidableEq, Repr

def RiskDecision.approved (d : RiskDecision) : Bool := d.code = .Approved

def RiskDecision.describe (d : RiskDecision) : String :=
  d.code.to_string ++ (if d.detail = "" then "" else ": " ++ d.detail)

structure RiskContext where
  now : Timestamp := kNoTimestamp
  data_age : Duration := 0
  reference_price : Price := 0
  peak_equity : Notional := 0
  turnover_today : Notional := 0
  deriving DecidableEq, Repr

def reject (code : RejectCode) (detail : String) : RiskDecision := { code, detail }

structure RiskManager where
  limits : RiskLimits := {}
  rejections : TreeMap Nat Nat := ∅

/-- One check of the gate: whether the order breaks it, and the rejection if
    it does. -/
structure Check where
  broken : Bool
  code : RejectCode
  detail : String

/-- The position of the order's instrument once it and every order in flight
    are filled, as the gate counts it. -/
def projected (order : Order) (pf : Portfolio) (oms : OrderManager) : Qty :=
  pf.settledQuantity order.instrument + oms.exposure_of order.instrument + order.signed_quantity

/-- The checks in the order they are made. -/
def RiskManager.checks (r : RiskManager) (order : Order) (pf : Portfolio) (oms : OrderManager)
    (ctx : RiskContext) : List Check :=
  let limits := r.limits
  let ref := ctx.reference_price
  let equity := pf.equity
  let dd := 1 - equity / ctx.peak_equity
  let projected := projected order pf oms
  let order_notional := |order.quantity * ref|
  let projected_notional := |projected * ref|
  let projected_gross := pf.gross_exposure + |order.quantity * ref|
  let projected_net := |pf.net_exposure + order.signed_quantity * ref|
  let dev := |to_bps (order.limit_price.getD 0) ctx.reference_price|
  let projected_turnover := ctx.turnover_today + order_notional
  [{ broken := limits.max_data_staleness < ctx.data_age
     code := .StaleData
     detail := "market data is " ++ toString (ctx.data_age.tdiv 1000000000) ++
       "s old, limit is " ++ toString (limits.max_data_staleness.tdiv 1000000000) ++ "s" },
    { broken := ¬ is_finite ref ∨ ref ≤ 0
      code := .NoMarkAvailable
      detail := "no usable reference price for this instrument" },
    { broken := ctx.peak_equity > 0 ∧ is_finite equity ∧ limits.max_drawdown_pct < dd
      code := .DrawdownKillSwitch
      detail := "drawdown " ++ to_string dd ++ " exceeds " ++ to_string limits.max_drawdown_pct },
    { broken := ¬ limits.allow_short ∧ projected < -1e-9
      code := .ShortingDisabled
      detail := "order would create a short position" },
    { broken := limits.max_order_notional < order_notional
      code := .MaxOrderNotional
      detail := to_string order_notional ++ " exceeds " ++ to_string limits.max_order_notional },
    { broken := limits.max_position_notional < projected_notional
      code := .MaxPositionExceeded
      detail := "projected position " ++ to_string projected_notional ++ " exceeds " ++
        to_string limits.max_position_notional },
    { broken := equity > 0 ∧ limits.max_concentration < projected_notional / equity
      code := .ConcentrationLimit
      detail := "single-instrument weight " ++ to_string (projected_notional / equity) ++
        " exceeds " ++ to_string limits.max_concentration },
    { broken := equity > 0 ∧ limits.max_gross_leverage < projected_gross / equity
      code := .MaxGrossExposure
      detail := "gross leverage " ++ to_string (projected_gross / equity) ++ " exceeds " ++
        to_string limits.max_gross_leverage },
    { broken := equity > 0 ∧ limits.max_net_leverage < projected_net / equity
      code := .MaxNetExposure
      detail := "net leverage " ++ to_string (projected_net / equity) ++ " exceeds " ++
        to_string limits.max_net_leverage },
    { broken := order.limit_price.isSome ∧ limits.price_collar < dev
      code := .PriceCollar
      detail := "limit price is " ++ to_string dev ++ " bps from the mark, collar is " ++
        to_string limits.price_collar },
    { broken := order.side = .Buy ∧ pf.buying_power < order_notional
      code := .InsufficientBuyingPower
      detail := "needs " ++ to_string order_notional ++ ", has " ++ to_string pf.buying_power },
    { broken := equity > 0 ∧ limits.max_daily_turnover > 0 ∧
        limits.max_daily_turnover < projected_turnover / equity
      code := .TurnoverBudget
      detail := "daily turnover " ++ to_string (projected_turnover / equity) ++
        "x equity exceeds " ++ to_string limits.max_daily_turnover }]

/-- Pre-trade inspection: the first check the order breaks, or approval. -/
def RiskManager.check (r : RiskManager) (order : Order) (pf : Portfolio) (oms : OrderManager)
    (ctx : RiskContext) : RiskDecision :=
  match (r.checks order pf oms ctx).find? Check.broken with
  | some c => reject c.code c.detail
  | none => { adjusted_quantity := order.quantity }

/-- Approvals are counted too. -/
def RiskManager.record (r : RiskManager) (decision : RiskDecision) : RiskManager :=
  let code := decision.code.ctorIdx
  { r with rejections := r.rejections.insert code ((r.rejections[code]?).getD 0 + 1) }

/-- What the gate found in order about an order it approves. -/
structure RiskManager.Passes (r : RiskManager) (order : Order) (pf : Portfolio) (oms : OrderManager)
    (ctx : RiskContext) : Prop where
  recent : ctx.data_age ≤ r.limits.max_data_staleness
  priced : 0 < ctx.reference_price
  shorting : r.limits.allow_short = false → -1e-9 ≤ projected order pf oms
  order_notional : |order.quantity * ctx.reference_price| ≤ r.limits.max_order_notional
  position_notional :
    |projected order pf oms * ctx.reference_price| ≤ r.limits.max_position_notional
  concentration : 0 < pf.equity →
    |projected order pf oms * ctx.reference_price| / pf.equity ≤ r.limits.max_concentration
  gross : 0 < pf.equity →
    (pf.gross_exposure + |order.quantity * ctx.reference_price|) / pf.equity ≤
      r.limits.max_gross_leverage
  net : 0 < pf.equity →
    |pf.net_exposure + order.signed_quantity * ctx.reference_price| / pf.equity ≤
      r.limits.max_net_leverage
  buying_power : order.side = .Buy → |order.quantity * ctx.reference_price| ≤ pf.buying_power

theorem RiskManager.checks_reject (r : RiskManager) (order : Order) (pf : Portfolio)
    (oms : OrderManager) (ctx : RiskContext) :
    ∀ c ∈ r.checks order pf oms ctx, c.code ≠ .Approved := by
  simp [RiskManager.checks]

/-- An approval has broken no check. -/
theorem RiskManager.unbroken_of_approved {r : RiskManager} {order : Order} {pf : Portfolio}
    {oms : OrderManager} {ctx : RiskContext} (happroved : (r.check order pf oms ctx).approved = true) :
    ∀ c ∈ r.checks order pf oms ctx, c.broken = false := by
  unfold RiskManager.check at happroved
  split at happroved
  · rename_i c hfound
    exact absurd (of_decide_eq_true happroved)
      (r.checks_reject order pf oms ctx c (List.mem_of_find?_eq_some hfound))
  · rename_i hnone
    simpa using hnone

theorem RiskManager.check_approved {r : RiskManager} {order : Order} {pf : Portfolio}
    {oms : OrderManager} {ctx : RiskContext} (happroved : (r.check order pf oms ctx).approved = true) :
    r.Passes order pf oms ctx := by
  have hunbroken := RiskManager.unbroken_of_approved happroved
  simp only [RiskManager.checks, List.forall_mem_cons, decide_eq_false_iff_not, is_finite_eq_true,
    not_true_eq_false, false_or, not_le, not_lt, not_and] at hunbroken
  obtain ⟨hrecent, hpriced, -, hshort, horder, hposition, hconcentration, hgross, hnet, -, hbuying, -⟩ :=
    hunbroken
  exact {
    recent := hrecent
    priced := hpriced
    shorting := fun hflag => hshort (by simp [hflag])
    order_notional := horder
    position_notional := hposition
    concentration := hconcentration
    gross := hgross
    net := hnet
    buying_power := hbuying }

end ptl.risk
