import TradingLab.Moments
import TradingLab.Oms.Order

open ptl.oms
open Series (weightedMean)

namespace ptl.attribution

/-- Prices a trade is measured against; one that is absent is not measured. -/
structure ExecutionBenchmarks where
  decision_price : Option Price := none
  arrival_price : Option Price := none
  interval_vwap : Option Price := none
  interval_twap : Option Price := none
  interval_volume : Option Volume := none
  best_price : Option Price := none
  worst_price : Option Price := none
  deriving DecidableEq, Repr

/-- Costs are positive for either side. -/
structure TradeExecutionQuality where
  instrument : InstrumentId := kInvalidInstrument
  side : Side := .Buy
  quantity : Qty := 0
  average_fill_price : Price := 0
  decision_time : Timestamp := kNoTimestamp
  first_fill_time : Timestamp := kNoTimestamp
  last_fill_time : Timestamp := kNoTimestamp
  fill_count : Nat := 0
  delay_cost : Option Bps := none
  execution_cost : Option Bps := none
  implementation_shortfall : Option Bps := none
  vs_vwap : Option Bps := none
  vs_twap : Option Bps := none
  participation_rate : Option Rat := none
  fill_efficiency : Rat := 1
  max_favorable_excursion : Option Bps := none
  max_adverse_excursion : Option Bps := none
  holding_period : Duration := 0
  realized_edge : Option Bps := none
  expected_edge : Option Bps := none
  commission : Notional := 0
  fees : Notional := 0
  deriving DecidableEq, Repr

open TradeExecutionQuality

structure ExecutionQualitySummary where
  trades : Nat := 0
  fills : Nat := 0
  average_implementation_shortfall : Bps := 0
  average_delay_cost : Bps := 0
  average_execution_cost : Bps := 0
  average_vs_vwap : Bps := 0
  median_implementation_shortfall : Bps := 0
  worst_implementation_shortfall : Bps := 0
  average_participation_rate : Rat := 0
  average_fill_efficiency : Rat := 0
  average_holding_period : Duration := 0
  total_commission : Notional := 0
  total_fees : Notional := 0
  trades_below_expected_edge : Nat := 0
  deriving DecidableEq, Repr

namespace ExecutionQualityAnalyzer

def cost_bps (fill benchmark : Price) (side : Side) : Bps :=
  if benchmark ≤ 0 ∨ ¬ is_finite fill ∨ ¬ is_finite benchmark then 0
  else
    let raw := (fill / benchmark - 1) * 1e4
    let signed_cost := raw * (sign_of side : Rat)
    if is_finite signed_cost then signed_cost else 0

/-! ### One trade -/

/-- What is added up over the fills of a trade. -/
structure FillTotals where
  filled : Rat := 0
  notional : Rat := 0
  commission : Rat := 0
  fees : Rat := 0
  first : Timestamp := kMaxTimestamp
  last : Timestamp := kNoTimestamp
  deriving DecidableEq, Repr

def FillTotals.add (s : FillTotals) (fill : Fill) : FillTotals where
  filled := s.filled + fill.quantity
  notional := s.notional + fill.quantity * fill.price
  commission := s.commission + fill.commission
  fees := s.fees + fill.exchange_fee
  first := min s.first fill.fill_time
  last := max s.last fill.fill_time

/-- The fills of one trade are of one instrument and one side. -/
def total_fills (instrument : InstrumentId) (side : Side) : FillTotals → List Fill → Result FillTotals
  | s, [] => .ok s
  | s, fill :: fills =>
    if fill.instrument ≠ instrument then
      .error (make_error .InvalidArgument "fills for one trade span more than one instrument")
    else if fill.side ≠ side then
      .error (make_error .InvalidArgument "fills for one trade span both sides")
    else total_fills instrument side (s.add fill) fills

/-- A trade against its benchmarks, from the totals of its fills. -/
def measure (front : Fill) (fill_count : Nat) (s : FillTotals) (benchmarks : ExecutionBenchmarks)
    (quantity_sought : Qty) : TradeExecutionQuality :=
  let side := front.side
  let average_fill_price := s.notional / s.filled
  let decision_time := front.times.decision_time
  {
    instrument := front.instrument
    side
    quantity := s.filled
    average_fill_price
    decision_time
    first_fill_time := s.first
    last_fill_time := s.last
    fill_count
    delay_cost := benchmarks.decision_price.bind fun decision =>
      benchmarks.arrival_price.map fun arrival => cost_bps arrival decision side
    execution_cost := benchmarks.arrival_price.map fun arrival => cost_bps average_fill_price arrival side
    implementation_shortfall := benchmarks.decision_price.map fun decision =>
      cost_bps average_fill_price decision side
    vs_vwap := benchmarks.interval_vwap.map fun vwap => cost_bps average_fill_price vwap side
    vs_twap := benchmarks.interval_twap.map fun twap => cost_bps average_fill_price twap side
    participation_rate := benchmarks.interval_volume.bind fun volume =>
      if 0 < volume then some (s.filled / volume) else none
    fill_efficiency := if 0 < quantity_sought then min 1 (s.filled / quantity_sought) else 1
    -- A held position gains where filling at the price would cost.
    max_favorable_excursion := benchmarks.best_price.bind fun best =>
      if 0 < average_fill_price then some (max 0 (cost_bps best average_fill_price side)) else none
    max_adverse_excursion := benchmarks.worst_price.bind fun worst =>
      if 0 < average_fill_price then some (max 0 (-cost_bps worst average_fill_price side)) else none
    holding_period := if is_set decision_time ∧ is_set s.last then s.last - decision_time else 0
    commission := s.commission
    fees := s.fees }

def analyze_trade (fills : List Fill) (benchmarks : ExecutionBenchmarks) (quantity_sought : Qty) :
    Result TradeExecutionQuality :=
  match fills with
  | [] => .error (make_error .InvalidArgument "cannot analyse a trade with no fills")
  | front :: _ =>
    match total_fills front.instrument front.side {} fills with
    | .error err => .error err
    | .ok totals =>
      if totals.filled ≤ 0 then .error (make_error .InvalidArgument "trade has no filled quantity")
      else .ok (measure front fills.length totals benchmarks quantity_sought)

/-! ### All trades -/

/-- A weighted sum beside the weight of what is in it. -/
structure WeightedSum where
  weighted : Rat := 0
  weight : Rat := 0
  deriving DecidableEq, Repr

def WeightedSum.add (s : WeightedSum) (metric : Option Bps) (w : Rat) : WeightedSum :=
  metric.elim s fun v => { weighted := s.weighted + v * w, weight := s.weight + w }

def WeightedSum.average (s : WeightedSum) : Bps := if 0 < s.weight then s.weighted / s.weight else 0

structure SummaryRun where
  out : ExecutionQualitySummary := {}
  weight_total : Rat := 0
  is_weighted : Rat := 0
  delay : WeightedSum := {}
  execution : WeightedSum := {}
  vwap : WeightedSum := {}
  participation_sum : Rat := 0
  participation_count : Nat := 0
  efficiency_sum : Rat := 0
  holding_sum : Int := 0
  shortfalls : List Bps := []
  deriving DecidableEq, Repr

def below_expected (trade : TradeExecutionQuality) : Bool :=
  match trade.realized_edge, trade.expected_edge with
  | some realized, some expected => realized < expected
  | _, _ => false

def SummaryRun.step (s : SummaryRun) (trade : TradeExecutionQuality) : SummaryRun :=
  let w := trade.quantity
  { out := { s.out with
      trades := s.out.trades + 1
      fills := s.out.fills + trade.fill_count
      total_commission := s.out.total_commission + trade.commission
      total_fees := s.out.total_fees + trade.fees
      trades_below_expected_edge := s.out.trades_below_expected_edge + if below_expected trade then 1 else 0 }
    weight_total := s.weight_total + w
    is_weighted := s.is_weighted + trade.implementation_shortfall.elim 0 fun v => v * w
    delay := s.delay.add trade.delay_cost w
    execution := s.execution.add trade.execution_cost w
    vwap := s.vwap.add trade.vs_vwap w
    participation_sum := s.participation_sum + trade.participation_rate.getD 0
    participation_count := s.participation_count + if trade.participation_rate.isSome then 1 else 0
    efficiency_sum := s.efficiency_sum + trade.fill_efficiency
    holding_sum := s.holding_sum + trade.holding_period
    shortfalls := s.shortfalls ++ trade.implementation_shortfall.toList }

/-- The averages and the order statistics of what was added up. The shortfall is
averaged over the weight of every trade. -/
def SummaryRun.finish (s : SummaryRun) : ExecutionQualitySummary :=
  let sorted := s.shortfalls.mergeSort fun x y => x ≤ y
  { s.out with
    average_implementation_shortfall := if 0 < s.weight_total then s.is_weighted / s.weight_total else 0
    average_delay_cost := s.delay.average
    average_execution_cost := s.execution.average
    average_vs_vwap := s.vwap.average
    average_participation_rate :=
      if 0 < s.participation_count then s.participation_sum / s.participation_count else 0
    average_fill_efficiency := s.efficiency_sum / s.out.trades
    average_holding_period := s.holding_sum.tdiv s.out.trades
    median_implementation_shortfall := sorted.getD (sorted.length / 2) 0
    worst_implementation_shortfall := sorted.getLast?.getD 0 }

def summarize (trades : List TradeExecutionQuality) : Result ExecutionQualitySummary :=
  if trades.isEmpty then .ok {} else .ok (trades.foldl SummaryRun.step {}).finish

/-! ### What the averages are of -/

/-- The values of a metric over the trades that have it, with their quantities. -/
def measured (metric : TradeExecutionQuality → Option Bps) (trades : List TradeExecutionQuality) :
    List (Bps × Qty) :=
  trades.filterMap fun t => (metric t).map fun v => (v, t.quantity)

/-- An average is the mean over the trades that have the metric, and so is between
any bounds of it. -/
structure Averaged (metric : TradeExecutionQuality → Option Bps) (trades : List TradeExecutionQuality)
    (average : Bps) : Prop where
  mean_eq : measured metric trades ≠ [] → average = weightedMean (measured metric trades)
  within : ∀ lo hi, measured metric trades ≠ [] → (∀ p ∈ measured metric trades, lo ≤ p.1 ∧ p.1 ≤ hi) →
    lo ≤ average ∧ average ≤ hi

structure Averages (trades : List TradeExecutionQuality) (s : ExecutionQualitySummary) : Prop where
  shortfall : Averaged implementation_shortfall trades s.average_implementation_shortfall
  delay : Averaged delay_cost trades s.average_delay_cost
  execution : Averaged execution_cost trades s.average_execution_cost
  vwap : Averaged vs_vwap trades s.average_vs_vwap

section Averages

variable {metric : TradeExecutionQuality → Option Bps} {trades : List TradeExecutionQuality}

theorem measured_cons (t : TradeExecutionQuality) :
    measured metric (t :: trades) = (metric t).toList.map (fun v => (v, t.quantity)) ++ measured metric trades := by
  unfold measured
  cases hmetric : metric t with
  | none => rw [List.filterMap_cons_none (by rw [hmetric]; rfl)]; rfl
  | some v => rw [List.filterMap_cons_some (by rw [hmetric]; rfl)]; rfl

theorem measured_pos (hquantity : ∀ t ∈ trades, 0 < t.quantity) : ∀ p ∈ measured metric trades, 0 < p.2 := by
  intro p hp
  obtain ⟨t, ht, hvalue⟩ := List.mem_filterMap.mp hp
  obtain ⟨v, -, rfl⟩ := Option.map_eq_some_iff.mp hvalue
  exact hquantity t ht

/-- The mean is all there is to an average. -/
theorem averaged_iff (hquantity : ∀ t ∈ trades, 0 < t.quantity) {average : Bps} :
    Averaged metric trades average ↔
      (measured metric trades ≠ [] → average = weightedMean (measured metric trades)) := by
  refine ⟨Averaged.mean_eq, fun hmean => ⟨hmean, fun lo hi hsome hbounds => ?_⟩⟩
  rw [hmean hsome]
  exact Series.weightedMean_between hsome (measured_pos hquantity) hbounds

/-- A weighted sum after some more values. -/
def WeightedSum.add_all (s : WeightedSum) (l : List (Bps × Qty)) : WeightedSum where
  weighted := s.weighted + (l.map fun p => p.1 * p.2).sum
  weight := s.weight + (l.map Prod.snd).sum

theorem WeightedSum.add_add_all (s : WeightedSum) (t : TradeExecutionQuality) :
    (s.add (metric t) t.quantity).add_all (measured metric trades) = s.add_all (measured metric (t :: trades)) := by
  rw [measured_cons]
  unfold WeightedSum.add
  cases metric t with
  | none => rfl
  | some v => simp [WeightedSum.add_all, add_assoc]

theorem WeightedSum.average_averaged (hquantity : ∀ t ∈ trades, 0 < t.quantity) :
    Averaged metric trades (({} : WeightedSum).add_all (measured metric trades)).average := by
  refine (averaged_iff hquantity).mpr fun hsome => ?_
  have hpos := Series.weights_pos hsome (measured_pos hquantity)
  simp only [WeightedSum.add_all, WeightedSum.average, zero_add]
  rw [if_pos hpos, weightedMean]

/-- What the loop over the trades adds up. -/
theorem SummaryRun.run_sums (trades : List TradeExecutionQuality) (s : SummaryRun) :
    (trades.foldl SummaryRun.step s).weight_total = s.weight_total + (trades.map quantity).sum ∧
      (trades.foldl SummaryRun.step s).is_weighted = s.is_weighted +
        ((measured implementation_shortfall trades).map fun p => p.1 * p.2).sum ∧
      (trades.foldl SummaryRun.step s).delay = s.delay.add_all (measured delay_cost trades) ∧
      (trades.foldl SummaryRun.step s).execution =
        s.execution.add_all (measured execution_cost trades) ∧
      (trades.foldl SummaryRun.step s).vwap = s.vwap.add_all (measured vs_vwap trades) := by
  induction trades generalizing s with
  | nil => simp [measured, WeightedSum.add_all]
  | cons t trades ih =>
    obtain ⟨hweight, hshortfall, hdelay, hexecution, hvwap⟩ := ih (s.step t)
    refine ⟨?_, ?_, ?_, ?_, ?_⟩
    · rw [List.foldl_cons, hweight, List.map_cons, List.sum_cons, ← add_assoc]
      rfl
    · rw [List.foldl_cons, hshortfall, measured_cons, List.map_append, List.sum_append, ← add_assoc]
      simp only [SummaryRun.step]
      cases t.implementation_shortfall with
      | none => simp
      | some v => simp
    · rw [List.foldl_cons, hdelay]
      exact WeightedSum.add_add_all s.delay t
    · rw [List.foldl_cons, hexecution]
      exact WeightedSum.add_add_all s.execution t
    · rw [List.foldl_cons, hvwap]
      exact WeightedSum.add_add_all s.vwap t

/-- Trades with the metric weigh as much as all of them only if all of them have it. -/
theorem measured_weight (metric : TradeExecutionQuality → Option Bps) (hquantity : ∀ t ∈ trades, 0 < t.quantity) :
    ((measured metric trades).map Prod.snd).sum ≤ (trades.map quantity).sum ∧
      (((measured metric trades).map Prod.snd).sum = (trades.map quantity).sum ↔
        ∀ t ∈ trades, metric t ≠ none) := by
  induction trades with
  | nil => simp [measured]
  | cons t trades ih =>
    obtain ⟨ht, hrest⟩ := List.forall_mem_cons.mp hquantity
    obtain ⟨hle, hiff⟩ := ih hrest
    rw [measured_cons, List.map_append, List.sum_append, List.map_cons, List.sum_cons, List.forall_mem_cons, ← hiff]
    cases metric t with
    | none =>
      simp only [Option.toList_none, List.map_nil, List.sum_nil, zero_add, ne_eq, not_true_eq_false, false_and,
        iff_false]
      constructor
      · linarith
      · intro hequal
        linarith
    | some v =>
      simp only [Option.toList_some, List.map_cons, List.map_nil, List.sum_cons, List.sum_nil, add_zero, ne_eq,
        reduceCtorEq, not_false_eq_true, true_and, add_right_inj]
      exact ⟨by linarith, trivial⟩

/-- Over the weight of every trade, the shortfall is an average where every trade has
one, or where they balance. -/
theorem shortfall_averaged_iff (hsome : trades ≠ []) (hquantity : ∀ t ∈ trades, 0 < t.quantity) :
    Averaged metric trades
        (((measured metric trades).map fun p => p.1 * p.2).sum / (trades.map quantity).sum) ↔
      (∀ t ∈ trades, metric t ≠ none) ∨ ((measured metric trades).map fun p => p.1 * p.2).sum = 0 := by
  obtain ⟨hle, hall⟩ := measured_weight metric hquantity
  have htotal : 0 < (trades.map quantity).sum := by
    refine List.sum_pos _ (fun w hw => ?_) (fun hnil => hsome (List.map_eq_nil_iff.mp hnil))
    obtain ⟨t, ht, rfl⟩ := List.mem_map.mp hw
    exact hquantity t ht
  rw [averaged_iff hquantity, ← hall, weightedMean]
  by_cases hnone : measured metric trades = []
  · simp [hnone]
  · have hpos := Series.weights_pos hnone (measured_pos hquantity)
    rw [div_eq_div_iff (ne_of_gt htotal) (ne_of_gt hpos), mul_eq_mul_left_iff]
    exact ⟨fun h => h hnone, fun h _ => h⟩

theorem averages_iff (hsome : trades ≠ []) (hquantity : ∀ t ∈ trades, 0 < t.quantity) :
    ∃ s, summarize trades = .ok s ∧
      (Averages trades s ↔ (∀ t ∈ trades, t.implementation_shortfall ≠ none) ∨
        ((measured implementation_shortfall trades).map fun p => p.1 * p.2).sum = 0) := by
  obtain ⟨hweight, hshortfall, hdelay, hexecution, hvwap⟩ := SummaryRun.run_sums trades {}
  have hsummary : summarize trades = .ok (trades.foldl SummaryRun.step {}).finish :=
    if_neg (by simpa using hsome)
  have haverage : (trades.foldl SummaryRun.step {}).finish.average_implementation_shortfall =
      ((measured implementation_shortfall trades).map fun p => p.1 * p.2).sum /
        (trades.map quantity).sum := by
    simp only [SummaryRun.finish, hweight, hshortfall, zero_add]
    refine ite_eq_left_iff.mpr fun hnot => ?_
    rw [le_antisymm (not_lt.mp hnot) (List.sum_nonneg fun w hw => ?_), div_zero]
    obtain ⟨t, ht, rfl⟩ := List.mem_map.mp hw
    exact le_of_lt (hquantity t ht)
  refine ⟨_, hsummary, ?_⟩
  rw [← shortfall_averaged_iff hsome hquantity, ← haverage]
  refine ⟨Averages.shortfall, fun h => ⟨h, ?_, ?_, ?_⟩⟩
  · simp only [SummaryRun.finish, hdelay]
    exact WeightedSum.average_averaged hquantity
  · simp only [SummaryRun.finish, hexecution]
    exact WeightedSum.average_averaged hquantity
  · simp only [SummaryRun.finish, hvwap]
    exact WeightedSum.average_averaged hquantity

end Averages

/-! ### Delay and execution -/

/-- A cost in basis points of a benchmark, as an amount of money. -/
def in_currency (cost : Bps) (benchmark : Price) (quantity : Qty) : Notional := cost * 1e-4 * benchmark * quantity

theorem in_currency_cost (fill benchmark : Price) (side : Side) (quantity : Qty) :
    in_currency (cost_bps fill benchmark side) benchmark quantity =
      if 0 < benchmark then (fill - benchmark) * (sign_of side : Rat) * quantity else 0 := by
  unfold in_currency cost_bps
  by_cases hpos : 0 < benchmark
  · rw [if_neg (by simp [is_finite, hpos]), if_pos hpos]
    simp only [is_finite, if_true]
    field_simp
    ring
  · rw [if_pos (Or.inl (not_lt.mp hpos)), if_neg hpos]
    ring

/-- Delay and execution, each in money of its own benchmark, make up the shortfall. -/
def Decomposes (trade : TradeExecutionQuality) (decision arrival : Price) : Prop :=
  ∃ delay execution shortfall, trade.delay_cost = some delay ∧ trade.execution_cost = some execution ∧
    trade.implementation_shortfall = some shortfall ∧
    in_currency delay decision trade.quantity + in_currency execution arrival trade.quantity =
      in_currency shortfall decision trade.quantity

theorem total_fills_ok {instrument : InstrumentId} {side : Side} {s s' : FillTotals} {fills : List Fill}
    (htotal : total_fills instrument side s fills = .ok s') :
    s'.filled = s.filled + (fills.map Fill.quantity).sum ∧
      s'.notional = s.notional + (fills.map fun f => f.price * f.quantity).sum := by
  induction fills generalizing s with
  | nil =>
    cases htotal
    simp
  | cons fill fills ih =>
    rw [total_fills] at htotal
    split at htotal
    · cases htotal
    · split at htotal
      · cases htotal
      · obtain ⟨hfilled, hnotional⟩ := ih htotal
        rw [hfilled, hnotional]
        simp only [FillTotals.add, List.map_cons, List.sum_cons]
        refine ⟨?_, ?_⟩ <;> ring

theorem analyze_trade_ok {fills : List Fill} {benchmarks : ExecutionBenchmarks} {quantity_sought : Qty}
    {trade : TradeExecutionQuality} (hanalyzed : analyze_trade fills benchmarks quantity_sought = .ok trade) :
    ∃ front totals, trade = measure front fills.length totals benchmarks quantity_sought ∧ 0 < totals.filled ∧
      totals.notional / totals.filled = weightedMean (fills.map fun f => (f.price, f.quantity)) := by
  unfold analyze_trade at hanalyzed
  split at hanalyzed
  · cases hanalyzed
  · rename_i front rest
    split at hanalyzed
    · cases hanalyzed
    · rename_i totals htotal
      obtain ⟨hfilled, hnotional⟩ := total_fills_ok htotal
      split at hanalyzed
      · cases hanalyzed
      · rename_i hpos
        cases hanalyzed
        refine ⟨front, totals, rfl, not_le.mp hpos, ?_⟩
        rw [hfilled, hnotional, weightedMean, List.map_map, List.map_map, zero_add, zero_add]
        rfl

theorem decomposes_iff {fills : List Fill} {benchmarks : ExecutionBenchmarks} {quantity_sought : Qty}
    {trade : TradeExecutionQuality} {decision arrival : Price}
    (hanalyzed : analyze_trade fills benchmarks quantity_sought = .ok trade)
    (hdecision : benchmarks.decision_price = some decision) (harrival : benchmarks.arrival_price = some arrival) :
    Decomposes trade decision arrival ↔
      (0 < decision ↔ 0 < arrival) ∨ weightedMean (fills.map fun f => (f.price, f.quantity)) = arrival := by
  obtain ⟨front, totals, rfl, hfilled, hprice⟩ := analyze_trade_ok hanalyzed
  rw [← hprice]
  have hsplit : Decomposes (measure front fills.length totals benchmarks quantity_sought) decision arrival ↔
      in_currency (cost_bps arrival decision front.side) decision totals.filled +
          in_currency (cost_bps (totals.notional / totals.filled) arrival front.side) arrival totals.filled =
        in_currency (cost_bps (totals.notional / totals.filled) decision front.side) decision totals.filled := by
    simp [Decomposes, measure, hdecision, harrival]
  generalize totals.notional / totals.filled = price at *
  rw [hsplit, in_currency_cost, in_currency_cost, in_currency_cost]
  have hscale : (sign_of front.side : Rat) * totals.filled ≠ 0 := by
    refine mul_ne_zero ?_ (ne_of_gt hfilled)
    cases front.side with
    | Buy => decide
    | Sell => decide
  have hcancel : (price - arrival) * (sign_of front.side : Rat) * totals.filled = 0 ↔ price = arrival := by
    rw [mul_assoc, mul_eq_zero_iff_right hscale, sub_eq_zero]
  by_cases hd : 0 < decision
  · by_cases ha : 0 < arrival
    · simp only [hd, ha, if_true, true_or, iff_true]
      ring
    · simp only [hd, ha, if_true, if_false, add_zero, iff_false, not_true_eq_false, false_or]
      rw [← hcancel, eq_comm, ← sub_eq_zero]
      refine Eq.congr_left ?_
      ring
  · by_cases ha : 0 < arrival
    · simp only [hd, ha, if_true, if_false, zero_add, iff_true, false_or]
      exact hcancel
    · simp only [hd, ha, if_false, zero_add, true_or]

/-- The four averages are means over the trades that have the metric exactly where
every trade has a shortfall or the shortfalls there are balance; and a trade's costs
make up its shortfall exactly where both benchmarks are prices, or neither is, or it
filled at its arrival price. -/
theorem execution_quality_iff (trades : List TradeExecutionQuality) (fills : List Fill)
    (benchmarks : ExecutionBenchmarks) (quantity_sought : Qty) :
    (trades ≠ [] → (∀ t ∈ trades, 0 < t.quantity) →
      ∃ s, summarize trades = .ok s ∧
        (Averages trades s ↔ (∀ t ∈ trades, t.implementation_shortfall ≠ none) ∨
          ((measured implementation_shortfall trades).map fun p => p.1 * p.2).sum = 0)) ∧
    ∀ trade decision arrival, analyze_trade fills benchmarks quantity_sought = .ok trade →
      benchmarks.decision_price = some decision → benchmarks.arrival_price = some arrival →
      (Decomposes trade decision arrival ↔
        (0 < decision ↔ 0 < arrival) ∨ weightedMean (fills.map fun f => (f.price, f.quantity)) = arrival) :=
  ⟨fun hsome hquantity => averages_iff hsome hquantity,
    fun _ _ _ hanalyzed hdecision harrival => decomposes_iff hanalyzed hdecision harrival⟩

/-- One share with a shortfall, and one without. -/
def mixed : List TradeExecutionQuality :=
  [{ quantity := 1, implementation_shortfall := some 100 }, { quantity := 1 }]

/-- The average is half the only shortfall there is. -/
theorem execution_quality_mixed : ∃ s, summarize mixed = .ok s ∧ s.average_implementation_shortfall = 50 ∧
    ¬ Averages mixed s := by
  refine ⟨_, rfl, by decide +kernel, fun haverages => ?_⟩
  have hmean := haverages.shortfall.mean_eq (by decide +kernel)
  revert hmean
  decide +kernel

end ExecutionQualityAnalyzer

end ptl.attribution
