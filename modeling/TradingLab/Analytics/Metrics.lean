import TradingLab.Accounting.Journal
import TradingLab.Features.Intraday
import TradingLab.Ranking

open ptl.portfolio (EquityPoint)
open ptl.features (MathFunctions)
open ptl.accounting (Trade)

namespace ptl.accounting

def Trade.net_pnl (t : Trade) : Notional := t.gross_pnl - t.costs

def Trade.holding_period (t : Trade) : Duration := t.closed - t.opened

end ptl.accounting

open ptl.accounting (Trade)

namespace ptl.analytics

structure MetricsConfig where
  periods_per_year : Rat := 252
  risk_free_rate : Rat := 0
  sortino_threshold : Rat := 0
  use_log_returns : Bool := true
  deriving DecidableEq, Repr

structure PerformanceMetrics where
  periods : Nat := 0
  initial_equity : Notional := 0
  final_equity : Notional := 0
  cumulative_return : Rat := 0
  annualized_return : Rat := 0
  cagr : Rat := 0
  annualized_volatility : Rat := 0
  downside_volatility : Rat := 0
  sharpe : Rat := 0
  sortino : Rat := 0
  calmar : Rat := 0
  max_drawdown : Rat := 0
  max_drawdown_start : Timestamp := kNoTimestamp
  max_drawdown_trough : Timestamp := kNoTimestamp
  max_drawdown_periods : Nat := 0
  trades : Nat := 0
  wins : Nat := 0
  losses : Nat := 0
  win_rate : Rat := 0
  average_win : Notional := 0
  average_loss : Notional := 0
  win_loss_ratio : Rat := 0
  profit_factor : Rat := 0
  expectancy : Notional := 0
  total_costs : Notional := 0
  total_turnover : Notional := 0
  annualized_turnover : Rat := 0
  cost_to_gross_ratio : Rat := 0
  skewness : Rat := 0
  worst_period : Rat := 0
  best_period : Rat := 0
  expected_shortfall_5pct : Rat := 0
  deriving DecidableEq, Repr

def mean_of (v : List Rat) : Rat := if v.isEmpty then 0 else v.sum / v.length

/-- Welford's mean and sum of squared deviations, with the count. -/
def welford (v : List Rat) : Nat × Rat × Rat :=
  v.foldl (fun (n, mean, m2) x =>
    let n := n + 1
    let delta := x - mean
    let mean := mean + delta / n
    (n, mean, m2 + delta * (x - mean))) (0, 0, 0)

section Engine

variable (math : MathFunctions Rat) (pow : Rat → Rat → Rat)

def stdev_of (v : List Rat) : Rat :=
  if v.length < 2 then 0 else math.sqrt ((welford v).2.2 / ((v.length : Rat) - 1))

structure MetricsEngine where
  cfg : MetricsConfig := {}

/-- Zero where a return is undefined. -/
def MetricsEngine.returns (e : MetricsEngine) (curve : List EquityPoint) : List Rat :=
  (curve.zip curve.tail).map fun p =>
    let prev := p.1.equity
    let cur := p.2.equity
    if prev ≤ 0 ∨ cur ≤ 0 then 0
    else if e.cfg.use_log_returns then math.log (cur / prev) else cur / prev - 1

/-! ### Drawdown -/

/-- The peak, if there is one yet, and the worst fall below it. -/
def max_drawdown_step (s : Option Rat × Rat) (e : Rat) : Option Rat × Rat :=
  let peak := s.1.elim e fun peak => max peak e
  (some peak, if 0 < peak then max s.2 (1 - e / peak) else s.2)

/-- Peak to trough, as a positive fraction. -/
def MetricsEngine.max_drawdown (equity : List Rat) : Rat := (equity.foldl max_drawdown_step (none, 0)).2

/-- The scan for where the drawdown was. -/
structure DrawdownScan where
  peak : Option Rat := none
  peak_idx : Nat := 0
  worst : Rat := 0
  start : Timestamp := kNoTimestamp
  trough : Timestamp := kNoTimestamp
  periods : Nat := 0
  deriving DecidableEq, Repr

/-- A peak is the first point of its height. -/
def DrawdownScan.raise (s : DrawdownScan) (i : Nat) (p : EquityPoint) : DrawdownScan :=
  if s.peak.all fun peak => peak < p.equity then { s with peak := some p.equity, peak_idx := i } else s

def DrawdownScan.step (curve : List EquityPoint) (s : DrawdownScan) (i : Nat) (p : EquityPoint) : DrawdownScan :=
  let s := s.raise i p
  let peak := s.peak.getD 0
  let dd := 1 - p.equity / peak
  if 0 < peak ∧ s.worst < dd then
    { s with
      worst := dd
      start := (curve[s.peak_idx]?).elim kNoTimestamp EquityPoint.ts
      trough := p.ts
      periods := i - s.peak_idx }
  else s

def drawdown_scan (curve : List EquityPoint) : DrawdownScan :=
  curve.zipIdx.foldl (fun s p => s.step curve p.2 p.1) {}

/-! ### Trades -/

/-- What the trades come to. A trade that is no win is a loss. -/
structure TradeTotals where
  trades : Nat := 0
  wins : Nat := 0
  losses : Nat := 0
  win_sum : Rat := 0
  loss_sum : Rat := 0
  deriving DecidableEq, Repr

def TradeTotals.add (s : TradeTotals) (t : Trade) : TradeTotals :=
  let pnl := t.net_pnl
  let s := { s with trades := s.trades + 1 }
  if 0 < pnl then { s with wins := s.wins + 1, win_sum := s.win_sum + pnl }
  else { s with losses := s.losses + 1, loss_sum := s.loss_sum + -pnl }

def trade_metrics (trades : List Trade) (m : PerformanceMetrics) : PerformanceMetrics :=
  let s := trades.foldl TradeTotals.add {}
  let m := { m with trades := s.trades, wins := s.wins, losses := s.losses }
  if s.trades = 0 then m
  else
    let average_win := if 0 < s.wins then s.win_sum / s.wins else 0
    let average_loss := if 0 < s.losses then s.loss_sum / s.losses else 0
    { m with
      win_rate := (s.wins : Rat) / s.trades
      average_win, average_loss
      win_loss_ratio := if 0 < average_loss then average_win / average_loss else m.win_loss_ratio
      profit_factor := if 0 < s.loss_sum then s.win_sum / s.loss_sum else m.profit_factor
      expectancy := (s.win_sum - s.loss_sum) / s.trades }

/-! ### Everything -/

/-- The metrics of the returns, there being some. -/
def MetricsEngine.return_metrics (e : MetricsEngine) (r : List Rat) (elapsed : Duration) (m : PerformanceMetrics) :
    PerformanceMetrics :=
  let mu := mean_of r
  let sd := stdev_of math r
  let ann := e.cfg.periods_per_year
  let sqrt_ann := math.sqrt ann
  let rf_per_period := e.cfg.risk_free_rate / ann
  let mar_per_period := e.cfg.sortino_threshold / ann
  let downside_sq := (r.map fun x => min 0 (x - mar_per_period) * min 0 (x - mar_per_period)).sum
  let dd := math.sqrt (downside_sq / r.length)
  let sorted := Ranking.sort (fun a b => a < b) r
  let years := (elapsed : Rat) / (365.25 * 24 * 3600 * 1e9)
  let e0 := m.initial_equity
  let e1 := m.final_equity
  { m with
    annualized_return := if e.cfg.use_log_returns then mu * ann else pow (1 + mu) ann - 1
    annualized_volatility := sd * sqrt_ann
    sharpe := if 0 < sd then (mu - rf_per_period) / sd * sqrt_ann else m.sharpe
    downside_volatility := dd * sqrt_ann
    sortino := if 0 < dd then (mu - mar_per_period) / dd * sqrt_ann else m.sortino
    worst_period := sorted.head?.getD 0
    best_period := sorted.getLast?.getD 0
    expected_shortfall_5pct := mean_of (sorted.take (max 1 (sorted.length / 20)))
    skewness :=
      if 0 < sd ∧ 2 < r.length then (r.map fun x => pow ((x - mu) / sd) 3).sum / r.length else m.skewness
    cagr := if 0 < years ∧ 0 < e0 ∧ 0 < e1 then pow (e1 / e0) (1 / years) - 1 else m.cagr
    annualized_turnover := if 0 < years ∧ 0 < e0 then m.total_turnover / e0 / years else m.annualized_turnover }

def MetricsEngine.drawdown_metrics (curve : List EquityPoint) (m : PerformanceMetrics) : PerformanceMetrics :=
  let max_drawdown := MetricsEngine.max_drawdown (curve.map EquityPoint.equity)
  let scan := drawdown_scan curve
  { m with
    max_drawdown
    max_drawdown_start := scan.start
    max_drawdown_trough := scan.trough
    max_drawdown_periods := scan.periods
    calmar := if 0 < max_drawdown then m.cagr / max_drawdown else m.calmar }

def MetricsEngine.compute (e : MetricsEngine) (curve : List EquityPoint) (trades : List Trade) :
    PerformanceMetrics :=
  match curve.head?, curve.getLast? with
  | some front, some back =>
    let m : PerformanceMetrics := {
      periods := curve.length
      initial_equity := front.equity
      final_equity := back.equity
      total_costs := back.cumulative_costs
      total_turnover := back.turnover
      cumulative_return := if 0 < front.equity then back.equity / front.equity - 1 else 0 }
    let r := e.returns math curve
    let m := if r.isEmpty then m else e.return_metrics math pow r (back.ts - front.ts) m
    let m := trade_metrics trades (drawdown_metrics curve m)
    let gross := (back.equity - front.equity) + m.total_costs
    { m with cost_to_gross_ratio := if 0 < |gross| then m.total_costs / |gross| else m.cost_to_gross_ratio }
  | _, _ => {}

end Engine

/-! ### The tracker -/

structure UnderwaterPoint where
  ts : Timestamp := kNoTimestamp
  drawdown : Rat := 0
  equity : Notional := 0
  peak : Notional := 0
  periods_underwater : Nat := 0
  deriving DecidableEq, Repr

/-- From a peak to its recovery, if there was one yet. -/
structure DrawdownEpisode where
  peak_time : Timestamp := kNoTimestamp
  trough_time : Timestamp := kNoTimestamp
  recovery_time : Timestamp := kNoTimestamp
  peak_equity : Notional := 0
  trough_equity : Notional := 0
  depth : Rat := 0
  deriving DecidableEq, Repr

structure DrawdownTracker where
  current : Rat := 0
  max_ : Rat := 0
  peak : Notional := 0
  peak_time : Timestamp := kNoTimestamp
  last_ts : Timestamp := kNoTimestamp
  max_peak_time : Timestamp := kNoTimestamp
  max_trough_time : Timestamp := kNoTimestamp
  underwater : Nat := 0
  longest_underwater : Nat := 0
  have_peak : Bool := false
  curve : List UnderwaterPoint := []
  episodes : List DrawdownEpisode := []
  in_episode : Bool := false
  active : DrawdownEpisode := {}
  deriving DecidableEq, Repr

/-- A new high closes any episode in progress. -/
def DrawdownTracker.rise (t : DrawdownTracker) (ts : Timestamp) (equity : Notional) : DrawdownTracker :=
  { t with
    episodes := if t.in_episode then t.episodes ++ [{ t.active with recovery_time := ts }] else t.episodes
    active := if t.in_episode then { t.active with recovery_time := ts } else t.active
    in_episode := false
    peak := equity
    peak_time := ts
    have_peak := true
    current := 0
    underwater := 0 }

/-- The episode in progress, opened or deepened by one more point below its peak. -/
def DrawdownTracker.deepen (t : DrawdownTracker) (ts : Timestamp) (equity : Notional) (current : Rat) :
    DrawdownEpisode :=
  if ¬ t.in_episode then
    { peak_time := t.peak_time, peak_equity := t.peak, trough_time := ts, trough_equity := equity, depth := current }
  else if equity < t.active.trough_equity then
    { t.active with trough_time := ts, trough_equity := equity, depth := current }
  else t.active

def DrawdownTracker.fall (t : DrawdownTracker) (ts : Timestamp) (equity : Notional) : DrawdownTracker :=
  let current := if 0 < t.peak then 1 - equity / t.peak else 0
  let deeper := t.max_ < current
  { t with
    current
    underwater := t.underwater + 1
    longest_underwater := max t.longest_underwater (t.underwater + 1)
    in_episode := true
    active := t.deepen ts equity current
    max_ := if deeper then current else t.max_
    max_peak_time := if deeper then t.peak_time else t.max_peak_time
    max_trough_time := if deeper then ts else t.max_trough_time }

def DrawdownTracker.record (t : DrawdownTracker) (ts : Timestamp) (equity : Notional) : DrawdownTracker :=
  { t with curve := t.curve ++ [{
      ts, equity, drawdown := t.current, peak := t.peak, periods_underwater := t.underwater }] }

/-- An observation that is in order. -/
def DrawdownTracker.observe (t : DrawdownTracker) (ts : Timestamp) (equity : Notional) : DrawdownTracker :=
  let t := { t with last_ts := ts }
  (if ¬ t.have_peak ∨ t.peak ≤ equity then t.rise ts equity else t.fall ts equity).record ts equity

def DrawdownTracker.update (t : DrawdownTracker) (ts : Timestamp) (equity : Notional) :
    Result Bool × DrawdownTracker :=
  if ¬ is_set ts then
    (.error (make_error .ValidationFailed "drawdown observation has no timestamp"), t)
  else if ¬ is_finite equity then
    (.error (make_error .ValidationFailed "equity is not finite"), t)
  else if is_set t.last_ts ∧ ts < t.last_ts then
    (.error (make_error .ValidationFailed "drawdown observations must be non-decreasing in time"
      (to_iso8601 ts ++ " < " ++ to_iso8601 t.last_ts)), t)
  else (.ok true, t.observe ts equity)

def DrawdownTracker.reset (t : DrawdownTracker) : DrawdownTracker :=
  { t with
    current := 0
    max_ := 0
    peak := 0
    peak_time := kNoTimestamp
    last_ts := kNoTimestamp
    max_peak_time := kNoTimestamp
    max_trough_time := kNoTimestamp
    underwater := 0
    longest_underwater := 0
    have_peak := false
    curve := []
    episodes := []
    in_episode := false
    active := {} }

/-- The episodes so far, the open one last. -/
def DrawdownTracker.all_episodes (t : DrawdownTracker) : List DrawdownEpisode :=
  t.episodes ++ if t.in_episode then [t.active] else []

/-- The tracker after a curve. -/
def track (curve : List EquityPoint) : DrawdownTracker := curve.foldl (fun t p => (t.update p.ts p.equity).2) {}

/-! ### The trailing window -/

def window_step (s : Rat × Rat) (p : EquityPoint) : Rat × Rat :=
  let peak := max s.1 p.equity
  (peak, if 0 < peak then max s.2 (1 - p.equity / peak) else s.2)

def rolling_max_drawdown (curve : List EquityPoint) (window : Nat) : Result (List Rat) :=
  if window < 2 then
    .error (make_error .ValidationFailed "rolling drawdown window must be at least two")
  else
    .ok ((List.range curve.length).map fun i =>
      let first := if window ≤ i + 1 then i + 1 - window else 0
      (((curve.drop first).take (i + 1 - first)).foldl window_step (-1, 0)).2)

end ptl.analytics
