import TradingLab.Analytics.Metrics

open ptl.portfolio (EquityPoint)
open ptl.accounting (Trade)
open ptl.features (MathFunctions)

namespace ptl.analytics

structure TradeStatistics where
  trades : Nat := 0
  wins : Nat := 0
  losses : Nat := 0
  scratches : Nat := 0
  win_rate : Rat := 0
  average_win : Notional := 0
  average_loss : Notional := 0
  largest_win : Notional := 0
  largest_loss : Notional := 0
  expectancy : Notional := 0
  profit_factor : Rat := 0
  win_loss_ratio : Rat := 0
  average_holding_period : Duration := 0
  median_holding_period : Duration := 0
  longest_holding_period : Duration := 0
  average_winner_duration : Duration := 0
  average_loser_duration : Duration := 0
  gross_profit : Notional := 0
  gross_loss : Notional := 0
  total_costs : Notional := 0
  max_consecutive_wins : Nat := 0
  max_consecutive_losses : Nat := 0
  deriving DecidableEq, Repr

/-- The loop's statistics, sums and running streaks. -/
structure TradeRun where
  s : TradeStatistics := {}
  win_sum : Rat := 0
  loss_sum : Rat := 0
  cost_sum : Rat := 0
  hold_sum : Int := 0
  win_hold_sum : Int := 0
  loss_hold_sum : Int := 0
  run_wins : Nat := 0
  run_losses : Nat := 0
  holds : List Int := []
  deriving DecidableEq, Repr

def TradeRun.win (r : TradeRun) (pnl : Rat) (hold : Int) : TradeRun :=
  let run_wins := r.run_wins + 1
  { r with
    win_sum := r.win_sum + pnl
    win_hold_sum := r.win_hold_sum + hold
    run_wins
    run_losses := 0
    s := { r.s with
      wins := r.s.wins + 1
      largest_win := max r.s.largest_win pnl
      max_consecutive_wins := max r.s.max_consecutive_wins run_wins } }

def TradeRun.lose (r : TradeRun) (pnl : Rat) (hold : Int) : TradeRun :=
  let run_losses := r.run_losses + 1
  { r with
    loss_sum := r.loss_sum + -pnl
    loss_hold_sum := r.loss_hold_sum + hold
    run_losses
    run_wins := 0
    s := { r.s with
      losses := r.s.losses + 1
      largest_loss := min r.s.largest_loss pnl
      max_consecutive_losses := max r.s.max_consecutive_losses run_losses } }

/-- Exactly flat: neither a win nor a loss. -/
def TradeRun.scratch (r : TradeRun) : TradeRun :=
  { r with run_wins := 0, run_losses := 0, s := { r.s with scratches := r.s.scratches + 1 } }

def TradeRun.add (r : TradeRun) (trade : Trade) : TradeRun :=
  let pnl := trade.net_pnl
  let hold := trade.holding_period
  let r := { r with
    cost_sum := r.cost_sum + trade.costs
    hold_sum := r.hold_sum + hold
    holds := r.holds ++ [hold]
    s := { r.s with
      trades := r.s.trades + 1
      longest_holding_period := max r.s.longest_holding_period hold } }
  if 0 < pnl then r.win pnl hold else if pnl < 0 then r.lose pnl hold else r.scratch

def TradeRun.finish (r : TradeRun) : TradeStatistics :=
  let s := r.s
  let n : Rat := s.trades
  let average_win := if 0 < s.wins then r.win_sum / s.wins else s.average_win
  let average_loss := if 0 < s.losses then r.loss_sum / s.losses else s.average_loss
  { s with
    win_rate := if 0 < n then (s.wins : Rat) / n else 0
    gross_profit := r.win_sum
    gross_loss := r.loss_sum
    total_costs := r.cost_sum
    average_win, average_loss
    average_winner_duration := if 0 < s.wins then r.win_hold_sum.tdiv s.wins else s.average_winner_duration
    average_loser_duration := if 0 < s.losses then r.loss_hold_sum.tdiv s.losses else s.average_loser_duration
    win_loss_ratio := if 0 < average_loss then average_win / average_loss else s.win_loss_ratio
    profit_factor := if 0 < r.loss_sum then r.win_sum / r.loss_sum else s.profit_factor
    expectancy := (r.win_sum - r.loss_sum) / n
    average_holding_period := r.hold_sum.tdiv s.trades
    median_holding_period := (Ranking.sort (fun a b => a < b) r.holds).getD (r.holds.length / 2) 0 }

def TradeAnalyzer.analyze (trades : List Trade) : Result TradeStatistics :=
  if trades.isEmpty then .ok {} else .ok (trades.foldl TradeRun.add {}).finish

/-! ### The two reports -/

/-- Both reports give the same figures. -/
structure Agree (m : PerformanceMetrics) (s : TradeStatistics) : Prop where
  trades_eq : m.trades = s.trades
  wins_eq : m.wins = s.wins
  losses_eq : m.losses = s.losses
  win_rate_eq : m.win_rate = s.win_rate
  average_win_eq : m.average_win = s.average_win
  average_loss_eq : m.average_loss = s.average_loss
  win_loss_ratio_eq : m.win_loss_ratio = s.win_loss_ratio
  profit_factor_eq : m.profit_factor = s.profit_factor
  expectancy_eq : m.expectancy = s.expectancy

/-- The engine's losses are the analyzer's and the scratches. -/
structure TradeTotals.Counts (m : TradeTotals) (r : TradeRun) (trades : List Trade) : Prop where
  trades_eq : m.trades = r.s.trades
  length_eq : r.s.trades = trades.length
  wins_eq : m.wins = r.s.wins
  losses_eq : m.losses = r.s.losses + r.s.scratches
  win_sum_eq : m.win_sum = r.win_sum
  loss_sum_eq : m.loss_sum = r.loss_sum
  scratches_eq : r.s.scratches = trades.countP fun t => t.net_pnl = 0
  unset : r.s.average_win = 0 ∧ r.s.average_loss = 0 ∧ r.s.win_loss_ratio = 0 ∧ r.s.profit_factor = 0

theorem TradeTotals.Counts.add {m : TradeTotals} {r : TradeRun} {past : List Trade} (hcounts : m.Counts r past)
    (t : Trade) : (m.add t).Counts (r.add t) (t :: past) := by
  obtain ⟨htrades, hlength, hwins, hlosses, hwin, hloss, hscratches, hunset⟩ := hcounts
  unfold TradeTotals.add TradeRun.add
  dsimp only
  obtain hlost | hflat | hwon := lt_trichotomy t.net_pnl 0
  · have hnone : ¬ t.net_pnl = 0 := ne_of_lt hlost
    simp only [if_neg (lt_asymm hlost), if_pos hlost, TradeRun.lose]
    refine ⟨?_, ?_, hwins, ?_, hwin, ?_, ?_, hunset⟩
    · rw [htrades]
    · rw [List.length_cons, hlength]
    · change m.losses + 1 = r.s.losses + 1 + r.s.scratches
      omega
    · rw [hloss]
    · rw [List.countP_cons_of_neg (by simpa using hnone), hscratches]
  · simp only [hflat, lt_irrefl, if_false, TradeRun.scratch, neg_zero, add_zero]
    refine ⟨?_, ?_, hwins, ?_, hwin, hloss, ?_, hunset⟩
    · rw [htrades]
    · rw [List.length_cons, hlength]
    · change m.losses + 1 = r.s.losses + (r.s.scratches + 1)
      omega
    · rw [List.countP_cons_of_pos (by simpa using hflat), hscratches]
  · have hnone : ¬ t.net_pnl = 0 := ne_of_gt hwon
    simp only [if_pos hwon, TradeRun.win]
    refine ⟨?_, ?_, ?_, hlosses, ?_, hloss, ?_, hunset⟩
    · rw [htrades]
    · rw [List.length_cons, hlength]
    · rw [hwins]
    · rw [hwin]
    · rw [List.countP_cons_of_neg (by simpa using hnone), hscratches]

theorem TradeTotals.Counts.fold (trades : List Trade) {m : TradeTotals} {r : TradeRun} {past : List Trade}
    (hcounts : m.Counts r past) :
    (trades.foldl TradeTotals.add m).Counts (trades.foldl TradeRun.add r) (trades.reverse ++ past) := by
  induction trades generalizing m r past with
  | nil => exact hcounts
  | cons t trades ih =>
    rw [List.foldl_cons, List.foldl_cons, List.reverse_cons, List.append_assoc]
    exact ih (hcounts.add t)

theorem fold_counts (trades : List Trade) :
    (trades.foldl TradeTotals.add {}).Counts (trades.foldl TradeRun.add {}) trades.reverse := by
  have hstart : TradeTotals.Counts {} {} [] := ⟨rfl, rfl, rfl, rfl, rfl, rfl, rfl, rfl, rfl, rfl, rfl⟩
  have hfold := hstart.fold trades
  rwa [List.append_nil] at hfold

/-- No figure of the trades is set yet. -/
structure PerformanceMetrics.Untraded (m : PerformanceMetrics) : Prop where
  win_rate_eq : m.win_rate = 0
  average_win_eq : m.average_win = 0
  average_loss_eq : m.average_loss = 0
  win_loss_ratio_eq : m.win_loss_ratio = 0
  profit_factor_eq : m.profit_factor = 0
  expectancy_eq : m.expectancy = 0

/-- Without scratches the same totals give the same figures, and a scratch is a loss
to one report only. -/
theorem trade_metrics_agrees_iff {trades : List Trade} (hsome : trades ≠ []) {m : PerformanceMetrics}
    (huntraded : m.Untraded) :
    Agree (trade_metrics trades m) (trades.foldl TradeRun.add {}).finish ↔ ∀ t ∈ trades, t.net_pnl ≠ 0 := by
  obtain ⟨htrades, hlength, hwins, hlosses, hwin, hloss, hscratches, hwinless, hlossless, hratio, hfactor⟩ :=
    fold_counts trades
  rw [List.length_reverse] at hlength
  have hpos : 0 < (trades.foldl TradeRun.add {}).s.trades := by
    rw [hlength]
    exact List.length_pos_iff.mpr hsome
  have hmpos : (trades.foldl TradeTotals.add {}).trades ≠ 0 := by omega
  have hnone : (trades.foldl TradeRun.add {}).s.scratches = 0 ↔ ∀ t ∈ trades, t.net_pnl ≠ 0 := by
    rw [hscratches, List.countP_eq_zero]
    simp
  rw [← hnone]
  unfold trade_metrics
  dsimp only
  rw [if_neg hmpos]
  constructor
  · intro hagree
    have hsame := hagree.losses_eq
    change (trades.foldl TradeTotals.add {}).losses = (trades.foldl TradeRun.add {}).s.losses at hsame
    omega
  · intro hzero
    rw [hzero, Nat.add_zero] at hlosses
    have hcast : 0 < ((trades.foldl TradeRun.add {}).s.trades : Rat) := Nat.cast_pos.mpr hpos
    refine ⟨htrades, hwins, hlosses, ?_, ?_, ?_, ?_, ?_, ?_⟩
    · simp only [TradeRun.finish, htrades, hwins, if_pos hcast]
    · simp only [TradeRun.finish, hwins, hwin, hwinless]
    · simp only [TradeRun.finish, hlosses, hloss, hlossless]
    · simp only [TradeRun.finish, hwins, hwin, hwinless, hlosses, hloss, hlossless, hratio,
        huntraded.win_loss_ratio_eq]
    · simp only [TradeRun.finish, hwin, hloss, hfactor, huntraded.profit_factor_eq]
    · simp only [TradeRun.finish, htrades, hwin, hloss]

section Reports

variable (math : MathFunctions Rat) (pow : Rat → Rat → Rat)

/-- What is computed before the trades sets none of their figures. -/
theorem MetricsEngine.untraded_curve (e : MetricsEngine) (curve : List EquityPoint) (r : List Rat)
    (elapsed : Duration) {m : PerformanceMetrics} (huntraded : m.Untraded) :
    (drawdown_metrics curve (if r.isEmpty then m else e.return_metrics math pow r elapsed m)).Untraded := by
  split
  · exact { huntraded with }
  · exact { huntraded with }

theorem MetricsEngine.compute_eq (e : MetricsEngine) {curve : List EquityPoint} (hcurve : curve ≠ [])
    (trades : List Trade) : ∃ m ratio, m.Untraded ∧
      e.compute math pow curve trades = { trade_metrics trades m with cost_to_gross_ratio := ratio } := by
  obtain ⟨front, hfront⟩ : ∃ front, curve.head? = some front := ⟨_, List.head?_eq_some_head hcurve⟩
  obtain ⟨back, hback⟩ : ∃ back, curve.getLast? = some back := ⟨_, List.getLast?_eq_some_getLast hcurve⟩
  rw [compute, hfront, hback]
  exact ⟨_, _, e.untraded_curve math pow curve _ _ ⟨rfl, rfl, rfl, rfl, rfl, rfl⟩, rfl⟩

/-- The two reports agree on a list of trades exactly if none of them is a scratch. -/
theorem compute_agrees_iff (e : MetricsEngine) {curve : List EquityPoint} (hcurve : curve ≠ []) (trades : List Trade) :
    ∃ s, TradeAnalyzer.analyze trades = .ok s ∧
      (Agree (e.compute math pow curve trades) s ↔ ∀ t ∈ trades, t.net_pnl ≠ 0) := by
  obtain ⟨m, ratio, huntraded, hcompute⟩ := e.compute_eq math pow hcurve trades
  have hratio : ∀ s, Agree { trade_metrics trades m with cost_to_gross_ratio := ratio } s ↔
      Agree (trade_metrics trades m) s := fun s => ⟨fun h => { h with }, fun h => { h with }⟩
  rw [TradeAnalyzer.analyze, hcompute]
  by_cases hnone : trades = []
  · subst hnone
    refine ⟨{}, rfl, (hratio _).trans (iff_of_true ?_ (by simp))⟩
    obtain ⟨hrate, hwin, hloss, hwinloss, hfactor, hexpectancy⟩ := huntraded
    exact ⟨rfl, rfl, rfl, hrate, hwin, hloss, hwinloss, hfactor, hexpectancy⟩
  · rw [if_neg (by simpa using hnone)]
    exact ⟨_, rfl, (hratio _).trans (trade_metrics_agrees_iff hnone huntraded)⟩

end Reports

/-- Library functions that a curve of one point does not call. -/
def noMath : MathFunctions Rat := { log := id, sqrt := id, sin := id, cos := id, pi := 3 }

/-- A closed trade with these results. -/
def tradeOf (gross_pnl costs : Notional) : Trade where
  instrument := 0
  direction := .Buy
  opened := 0
  closed := 1
  quantity := 1
  entry_price := 1
  exit_price := 1
  gross_pnl
  costs

/-- A win, a loss and no scratch. -/
theorem compute_agrees_win_and_loss : ∃ s, TradeAnalyzer.analyze [tradeOf 5 1, tradeOf 0 2] = .ok s ∧
    (Agree (({} : MetricsEngine).compute noMath (fun x _ => x) [{}] [tradeOf 5 1, tradeOf 0 2]) s ↔
      ∀ t ∈ [tradeOf 5 1, tradeOf 0 2], t.net_pnl ≠ 0) :=
  compute_agrees_iff noMath (fun x _ => x) {} (List.cons_ne_nil _ _) _

/-- A trade that earned its costs is a loss of nothing in one report and a scratch in
the other, so the average loss and what follows from it differ too. -/
theorem compute_disagrees_scratch : ∃ s, TradeAnalyzer.analyze [tradeOf 5 1, tradeOf 0 2, tradeOf 1 1] = .ok s ∧
    (({} : MetricsEngine).compute noMath (fun x _ => x) [{}] [tradeOf 5 1, tradeOf 0 2, tradeOf 1 1]).losses = 2 ∧
    s.losses = 1 ∧
    (({} : MetricsEngine).compute noMath (fun x _ => x) [{}] [tradeOf 5 1, tradeOf 0 2, tradeOf 1 1]).win_loss_ratio = 4 ∧
    s.win_loss_ratio = 2 ∧
    ¬ Agree (({} : MetricsEngine).compute noMath (fun x _ => x) [{}] [tradeOf 5 1, tradeOf 0 2, tradeOf 1 1]) s := by
  refine ⟨_, rfl, by decide +kernel, by decide +kernel, by decide +kernel, by decide +kernel, fun hagree => ?_⟩
  exact absurd hagree.losses_eq (by decide +kernel)

end ptl.analytics
