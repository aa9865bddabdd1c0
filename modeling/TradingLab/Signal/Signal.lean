import Mathlib.Algebra.Order.Ring.Abs
import TradingLab.Core.Types
import TradingLab.Market.Calendar
import TradingLab.TableSum

open ptl.market
open Std (TreeMap)

namespace ptl.signal

inductive Direction where
  | Short
  | Flat
  | Long
  deriving DecidableEq, Repr

def Direction.sign_of : Direction → Int
  | .Short => -1
  | .Flat => 0
  | .Long => 1

/-- The costs a signal must clear, in units of the expected return. -/
structure CostEstimate where
  half_spread : Rat := 0
  commission : Rat := 0
  slippage : Rat := 0
  borrow : Rat := 0
  turnover_penalty : Rat := 0
  deriving DecidableEq, Repr

def CostEstimate.total (c : CostEstimate) : Rat :=
  c.half_spread + c.commission + c.slippage + c.borrow + c.turnover_penalty

/-- Costs come off the size of the expected move. -/
def netEdge (direction : Direction) (expected_return : Rat) (costs : CostEstimate) : Rat :=
  if direction = .Flat then 0 else |expected_return| - costs.total

/-- A trading intention with its provenance. -/
structure Signal where
  as_of : Timestamp
  instrument : InstrumentId
  direction : Direction
  expected_return : Rat
  net_edge : Rat
  confidence : Rat
  horizon : Duration
  model_id : UInt64
  costs : CostEstimate
  horizon_pos : 0 < horizon
  net_edge_eq : net_edge = netEdge direction expected_return costs
  deriving DecidableEq, Repr

def Signal.create (as_of : Timestamp) (instrument : InstrumentId) (direction : Direction)
    (expected_return confidence : Rat) (horizon : Duration) (model_id : UInt64) (costs : CostEstimate := {}) :
    Result Signal :=
  if ¬ is_set as_of then .error (bad "signal has no decision timestamp")
  else if instrument = kInvalidInstrument then .error (bad "signal has no instrument")
  else if ¬ is_finite expected_return then .error (bad "expected return is not finite")
  else if ¬ is_finite confidence ∨ confidence < 0 ∨ confidence > 1 then
    .error (bad "confidence must lie in [0, 1]" (to_string confidence))
  else if hhorizon : horizon ≤ 0 then .error (bad "signal horizon must be positive")
  else if model_id = 0 then .error (bad "signal must carry a model id")
  else if ¬ is_finite costs.total ∨ costs.total < 0 then
    .error (bad "cost estimate must be finite and non-negative")
  else
    .ok {
      as_of, instrument, direction, expected_return, confidence, horizon, model_id, costs
      net_edge := netEdge direction expected_return costs
      horizon_pos := not_le.mp hhorizon
      net_edge_eq := rfl }

/-- The model spoke and said stay out. -/
def Signal.flat (as_of : Timestamp) (instrument : InstrumentId) (model_id : UInt64) : Signal where
  as_of
  instrument
  direction := .Flat
  expected_return := 0
  net_edge := 0
  confidence := 0
  horizon := 60000000000
  model_id
  costs := {}
  horizon_pos := by decide
  net_edge_eq := rfl

def Signal.is_flat (s : Signal) : Bool := s.direction = .Flat

/-- Acting on it is expected to make money after costs. -/
def Signal.is_actionable (s : Signal) : Bool := s.direction ≠ .Flat ∧ s.net_edge > 0

def Signal.expires_at (s : Signal) : Timestamp := s.as_of + s.horizon

/-- A signal that is acted on points one way or the other. -/
theorem Signal.abs_sign (s : Signal) (hactionable : s.is_actionable = true) :
    |(s.direction.sign_of : Rat)| = 1 := by
  have hdirection : s.direction ≠ .Flat := by
    simp only [Signal.is_actionable, decide_eq_true_eq] at hactionable
    exact hactionable.1
  cases hcase : s.direction with
  | Short => simp [Direction.sign_of]
  | Flat => exact absurd hcase hdirection
  | Long => simp [Direction.sign_of]

/-! ### Decisions -/

inductive FilterReason where
  | Passed
  | LowConfidence
  | NegativeNetEdge
  | VolatilityOutOfRange
  | InsufficientLiquidity
  | SpreadTooWide
  | OutsideTradingHours
  | CooldownActive
  | StaleFeatures
  | StalePrediction
  | NoMarketData
  deriving DecidableEq, Repr

/-- Market context a filter needs. -/
structure FilterContext where
  now : Timestamp := kNoTimestamp
  realized_volatility : Rat := 0
  interval_volume : Rat := 0
  average_volume : Rat := 0
  spread_bps : Bps := 0
  feature_age : Duration := 0
  prediction_age : Duration := 0
  has_market_data : Bool := false
  deriving DecidableEq, Repr

def minutes (n : Int) : Duration := n * 60000000000

structure FilterConfig where
  min_confidence : Rat := 0.55
  require_positive_net_edge : Bool := true
  min_volatility : Rat := 0
  max_volatility : Rat := 1
  min_relative_volume : Rat := 0.1
  min_interval_volume : Rat := 0
  max_spread_bps : Bps := 25
  open_buffer : Duration := minutes 5
  close_buffer : Duration := minutes 5
  cooldown : Duration := minutes 15
  max_feature_age : Duration := minutes 5
  max_prediction_age : Duration := minutes 15
  deriving DecidableEq, Repr

structure FilterDecision where
  reason : FilterReason := .Passed
  detail : String := ""
  deriving DecidableEq, Repr

def FilterDecision.passed (d : FilterDecision) : Bool := d.reason = .Passed

def reject (r : FilterReason) (detail : String) : FilterDecision := { reason := r, detail := detail }

def seconds_of (d : Duration) : String := toString (d.tdiv 1000000000) ++ "s"

/-! ### The filters before the cooldown -/

/-- The session filter; without a calendar it is skipped. -/
def check_session (cfg : FilterConfig) (ctx : FilterContext) : Option Calendar → FilterDecision
  | none => {}
  | some calendar =>
    match calendar.session_containing ctx.now with
    | none => reject .OutsideTradingHours ("no trading session contains " ++ to_iso8601 ctx.now)
    | some session =>
      if ctx.now < session.open_ + cfg.open_buffer then reject .OutsideTradingHours "inside the opening buffer"
      else if session.close - cfg.close_buffer ≤ ctx.now then
        reject .OutsideTradingHours "inside the closing buffer"
      else {}

/-- Every filter of `evaluate` but the last, in its order. -/
def check_conditions (cfg : FilterConfig) (signal : Signal) (ctx : FilterContext) (calendar : Option Calendar) :
    FilterDecision :=
  if ¬ ctx.has_market_data then reject .NoMarketData "no market data for this instrument"
  else if ctx.feature_age > cfg.max_feature_age then
    reject .StaleFeatures ("features are " ++ seconds_of ctx.feature_age ++ " old, limit is " ++
      seconds_of cfg.max_feature_age)
  else if ctx.prediction_age > cfg.max_prediction_age then
    reject .StalePrediction ("prediction is " ++ seconds_of ctx.prediction_age ++ " old, limit is " ++
      seconds_of cfg.max_prediction_age)
  else if signal.confidence < cfg.min_confidence then
    reject .LowConfidence (to_string signal.confidence ++ " below " ++ to_string cfg.min_confidence)
  else if cfg.require_positive_net_edge ∧ signal.net_edge ≤ 0 then
    reject .NegativeNetEdge ("expected " ++ to_string signal.expected_return ++ " does not cover costs of " ++
      to_string signal.costs.total)
  else if ctx.realized_volatility < cfg.min_volatility ∨ ctx.realized_volatility > cfg.max_volatility then
    reject .VolatilityOutOfRange (to_string ctx.realized_volatility ++ " outside [" ++
      to_string cfg.min_volatility ++ ", " ++ to_string cfg.max_volatility ++ "]")
  else if ctx.interval_volume < cfg.min_interval_volume then
    reject .InsufficientLiquidity ("interval volume " ++ to_string ctx.interval_volume ++ " below " ++
      to_string cfg.min_interval_volume)
  else if ctx.average_volume > 0 ∧ ctx.interval_volume / ctx.average_volume < cfg.min_relative_volume then
    reject .InsufficientLiquidity ("relative volume " ++ to_string (ctx.interval_volume / ctx.average_volume) ++
      " below " ++ to_string cfg.min_relative_volume)
  else if ctx.spread_bps > cfg.max_spread_bps then
    reject .SpreadTooWide (to_string ctx.spread_bps ++ " bps exceeds " ++ to_string cfg.max_spread_bps)
  else check_session cfg ctx calendar

/-! ### The chain -/

structure SignalFilterChain where
  cfg : FilterConfig := {}
  counts : FilterReason → Nat := fun _ => 0
  last_accepted : TreeMap InstrumentId Timestamp := ∅

namespace SignalFilterChain

/-- The cooldown, on the time recorded for the instrument. -/
def check_cooldown (c : SignalFilterChain) (instrument : InstrumentId) (now : Timestamp) : FilterDecision :=
  match c.last_accepted[instrument]? with
  | none => {}
  | some last =>
    if is_set last ∧ now - last < c.cfg.cooldown then
      reject .CooldownActive (seconds_of (now - last) ++ " since the last signal, cooldown is " ++
        seconds_of c.cfg.cooldown)
    else {}

/-- A flat signal is not a trade, so no filter applies to it. -/
def evaluate (c : SignalFilterChain) (signal : Signal) (ctx : FilterContext) (calendar : Option Calendar) :
    FilterDecision :=
  if signal.is_flat then {}
  else
    let conditions := check_conditions c.cfg signal ctx calendar
    if ¬ conditions.passed then conditions else c.check_cooldown signal.instrument ctx.now

/-- Record an outcome: passes are counted alongside rejections. -/
def record (c : SignalFilterChain) (instrument : InstrumentId) (decision : FilterDecision) (now : Timestamp) :
    SignalFilterChain :=
  { c with
    counts := fun r => if r = decision.reason then c.counts r + 1 else c.counts r
    last_accepted := if decision.passed then c.last_accepted.insert instrument now else c.last_accepted }

/-! ### What one call does -/

variable {c : SignalFilterChain} {signal : Signal} {ctx : FilterContext} {calendar : Option Calendar}

theorem record_of_passed (instrument : InstrumentId) {decision : FilterDecision} (now : Timestamp)
    (hpassed : decision.passed = true) :
    (c.record instrument decision now).last_accepted = c.last_accepted.insert instrument now :=
  if_pos hpassed

theorem record_of_rejected (instrument : InstrumentId) {decision : FilterDecision} (now : Timestamp)
    (hrejected : decision.passed = false) :
    (c.record instrument decision now).last_accepted = c.last_accepted := by
  rw [record, hrejected]
  rfl

theorem evaluate_flat (hflat : signal.is_flat = true) : c.evaluate signal ctx calendar = {} := if_pos hflat

theorem evaluate_conditions (hflat : signal.is_flat = false)
    (hconditions : (check_conditions c.cfg signal ctx calendar).passed = false) :
    c.evaluate signal ctx calendar = check_conditions c.cfg signal ctx calendar := by
  simp only [evaluate, hflat, hconditions, Bool.false_eq_true, not_false_eq_true, if_true, if_false]

theorem evaluate_cooldown (hflat : signal.is_flat = false)
    (hconditions : (check_conditions c.cfg signal ctx calendar).passed = true) :
    c.evaluate signal ctx calendar = c.check_cooldown signal.instrument ctx.now := by
  simp only [evaluate, hflat, hconditions, Bool.false_eq_true, not_true_eq_false, if_false]

theorem check_session_reason (cfg : FilterConfig) (ctx : FilterContext) (calendar : Option Calendar) :
    (check_session cfg ctx calendar).reason ≠ .CooldownActive := by
  unfold check_session
  split
  · exact fun h => nomatch h
  split
  · exact fun h => nomatch h
  split
  · exact fun h => nomatch h
  split
  · exact fun h => nomatch h
  · exact fun h => nomatch h

/-- Only the cooldown gives its reason. -/
theorem check_conditions_reason (cfg : FilterConfig) (signal : Signal) (ctx : FilterContext)
    (calendar : Option Calendar) : (check_conditions cfg signal ctx calendar).reason ≠ .CooldownActive := by
  unfold check_conditions
  split
  · exact fun h => nomatch h
  split
  · exact fun h => nomatch h
  split
  · exact fun h => nomatch h
  split
  · exact fun h => nomatch h
  split
  · exact fun h => nomatch h
  split
  · exact fun h => nomatch h
  split
  · exact fun h => nomatch h
  split
  · exact fun h => nomatch h
  split
  · exact fun h => nomatch h
  exact check_session_reason cfg ctx calendar

end SignalFilterChain

end ptl.signal
