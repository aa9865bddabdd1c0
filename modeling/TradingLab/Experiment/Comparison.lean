import TradingLab.Core.Types
import TradingLab.Ranking
import Mathlib.Data.Rat.Defs
import Std.Data.TreeMap.Lemmas

open Std (TreeMap)

namespace ptl.experiment

/-! ### Results -/

/-- A double: exact where it is finite. -/
inductive Double where
  | finite (value : ℚ)
  | infinite (negative : Bool)
  | nan
  deriving DecidableEq, Repr

/-- The value of a double that is finite. -/
def Double.finite? : Double → Option ℚ
  | .finite value => some value
  | _ => none

/-- What a comparison reads of a performance report. -/
structure PerformanceReport where
  sharpe : Double
  sortino : Double
  calmar : Double
  cumulative_return : Double
  cagr : Double
  max_drawdown : Double
  information_ratio : Double
  annualized_volatility : Double
  beta : Double
  alpha : Double
  value_at_risk_95 : Double
  expected_shortfall_95 : Double
  annualized_turnover : Double
  win_rate : Double
  profit_factor : Double
  trades : Nat
  peak_gross_leverage : Double
  final_equity : Double
  total_costs : Double

def PerformanceReport.named (p : PerformanceReport) : List (String × Double) :=
  [("sharpe", p.sharpe), ("sortino", p.sortino), ("calmar", p.calmar),
    ("cumulative_return", p.cumulative_return), ("cagr", p.cagr), ("max_drawdown", p.max_drawdown),
    ("information_ratio", p.information_ratio), ("annualized_volatility", p.annualized_volatility),
    ("beta", p.beta), ("alpha", p.alpha), ("value_at_risk_95", p.value_at_risk_95),
    ("expected_shortfall_95", p.expected_shortfall_95), ("turnover", p.annualized_turnover),
    ("win_rate", p.win_rate), ("profit_factor", p.profit_factor), ("trades", .finite p.trades),
    ("peak_gross_leverage", p.peak_gross_leverage), ("final_equity", p.final_equity),
    ("total_costs", p.total_costs)]

structure PnlDecomposition where
  net_pnl : Double
  gross_pnl : Double
  slippage : Double

def PnlDecomposition.named (p : PnlDecomposition) : List (String × Double) :=
  [("net_pnl", p.net_pnl), ("gross_pnl", p.gross_pnl), ("slippage", p.slippage)]

structure ExecutionQualitySummary where
  average_implementation_shortfall : Double
  average_fill_efficiency : Double
  average_participation_rate : Double

def ExecutionQualitySummary.named (e : ExecutionQualitySummary) : List (String × Double) :=
  [("implementation_shortfall_bps", e.average_implementation_shortfall),
    ("fill_efficiency", e.average_fill_efficiency), ("participation_rate", e.average_participation_rate)]

structure FactorContribution where
  alpha_contribution : Double
  beta_contribution : Double

def FactorContribution.named (f : FactorContribution) : List (String × Double) :=
  [("alpha_contribution", f.alpha_contribution), ("beta_contribution", f.beta_contribution)]

structure ExperimentResult where
  experiment_id : String
  performance : Option PerformanceReport := none
  pnl : Option PnlDecomposition := none
  execution : Option ExecutionQualitySummary := none
  factors : Option FactorContribution := none
  custom_metrics : TreeMap String Double := ∅

/-- A metric by name: a custom one first, and then wherever the name is known. -/
def ExperimentResult.metric (r : ExperimentResult) (name : String) : Option Double :=
  match r.custom_metrics[name]? with
  | some value => some value
  | none =>
    (r.performance.bind fun p => p.named.lookup name) <|> (r.pnl.bind fun p => p.named.lookup name) <|>
      (r.execution.bind fun e => e.named.lookup name) <|> (r.factors.bind fun f => f.named.lookup name)

/-! ### Comparisons -/

inductive Direction where
  | HigherIsBetter
  | LowerIsBetter
  deriving DecidableEq, Repr

structure ComparisonMetric where
  name : String
  direction : Direction := .HigherIsBetter
  weight : ℚ := 1
  deriving DecidableEq

structure ComparisonRow where
  experiment_id : String
  values : TreeMap String (Option Double) := ∅
  ranks : TreeMap String (Option Nat) := ∅
  composite_score : ℚ := 0
  overall_rank : Nat := 0

structure ComparisonReport where
  metrics : List ComparisonMetric
  rows : List ComparisonRow
  unavailable_metrics : List String := []

/-- The row of a result before anything is ranked. -/
def ComparisonRow.start (metrics : List ComparisonMetric) (result : ExperimentResult) : ComparisonRow :=
  metrics.foldl (fun row metric => { row with
      values := row.values.insert metric.name (result.metric metric.name)
      ranks := row.ranks.insert metric.name none })
    { experiment_id := result.experiment_id }

/-- The value a row has for a metric, if it is there and finite. -/
def ComparisonRow.answer (row : ComparisonRow) (name : String) : Option ℚ :=
  ((row.values[name]?).getD none).bind Double.finite?

/-- The better value comes first, and the smaller id where the values are equal.
Only rows with an answer are compared. -/
def ComparisonMetric.before (metric : ComparisonMetric) (a b : ComparisonRow) : Bool :=
  let va := (a.answer metric.name).getD 0
  let vb := (b.answer metric.name).getD 0
  if va ≠ vb then
    match metric.direction with
    | .HigherIsBetter => va > vb
    | .LowerIsBetter => va < vb
  else a.experiment_id < b.experiment_id

/-- The rows that answer for a metric, each with its index, best first. -/
def ComparisonMetric.participants (metric : ComparisonMetric) (rows : List ComparisonRow) :
    List (ComparisonRow × Nat) :=
  Ranking.sort (fun a b => metric.before a.1 b.1)
    (rows.zipIdx.filter fun row => (row.1.answer metric.name).isSome)

def ComparisonReport.rank (report : ComparisonReport) (metric : ComparisonMetric) : ComparisonReport :=
  let participants := metric.participants report.rows
  if participants.isEmpty then
    { report with unavailable_metrics := report.unavailable_metrics ++ [metric.name] }
  else
    { report with
      rows := report.rows.mapIdx fun i row =>
        match participants.findIdx? fun other => other.2 == i with
        | some rank => { row with ranks := row.ranks.insert metric.name (some (rank + 1)) }
        | none => row }

/-- A rank as a number that is one at the top. -/
def normalised (rows rank : Nat) : ℚ := 1 - ((rank - 1 : Nat) : ℚ) / max 1 (rows : ℚ)

/-- One metric's part of a composite: the weighted rank and the weight. -/
def ComparisonRow.weigh (rows : Nat) (row : ComparisonRow) (sums : ℚ × ℚ) (metric : ComparisonMetric) : ℚ × ℚ :=
  if metric.weight ≤ 0 then sums
  else
    match (row.ranks[metric.name]?).getD none with
    | none => sums
    | some rank => (sums.1 + metric.weight * normalised rows rank, sums.2 + metric.weight)

/-- The weighted mean rank, over the weight the row took part in. -/
def ComparisonRow.composite (metrics : List ComparisonMetric) (rows : Nat) (row : ComparisonRow) : ℚ :=
  let sums := metrics.foldl (row.weigh rows) (0, 0)
  if sums.2 > 0 then sums.1 / sums.2 else 0

/-- The higher composite comes first, and the smaller id where they are equal. -/
def ComparisonRow.above (a b : ComparisonRow) : Bool :=
  if a.composite_score ≠ b.composite_score then a.composite_score > b.composite_score
  else a.experiment_id < b.experiment_id

def compare (metrics : List ComparisonMetric) (results : List ExperimentResult) : Result ComparisonReport :=
  if results.isEmpty then .error (bad "cannot compare an empty set of experiments")
  else
    let start : ComparisonReport := { metrics, rows := results.map (ComparisonRow.start metrics) }
    let ranked := metrics.foldl ComparisonReport.rank start
    let scored := ranked.rows.map fun row =>
      { row with composite_score := row.composite metrics ranked.rows.length }
    .ok { ranked with
      rows := (Ranking.sort ComparisonRow.above scored).mapIdx fun i row => { row with overall_rank := i + 1 }
      unavailable_metrics := Ranking.sort (fun a b => a < b) ranked.unavailable_metrics }

end ptl.experiment
