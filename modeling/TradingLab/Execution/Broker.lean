import Mathlib.Algebra.Order.Field.Basic
import Mathlib.Tactic.Linarith
import TradingLab.Core.Types
import TradingLab.Oms.Order

open ptl.oms

namespace ptl.execution

structure MarketState where
  bid : Price := 0
  ask : Price := 0
  bid_size : Qty := 0
  ask_size : Qty := 0
  interval_volume : Volume := 0
  average_daily_volume : Volume := 0
  intraday_volatility : Rat := 0
  has_quote : Bool := false
  volume_known : Bool := true
  deriving DecidableEq, Repr

def MarketState.mid (s : MarketState) : Price := (s.bid + s.ask) * 0.5

/-- The price a marketable order of this side crosses to. -/
def MarketState.touch (s : MarketState) : Side → Price
  | .Buy => s.ask
  | .Sell => s.bid

/-- The cost interface. A random cost reads and advances the generator `R`. -/
structure ICostModel (R : Type) where
  commission : Qty → Price → Notional
  half_spread : MarketState → Bps
  market_impact : Qty → MarketState → Bps
  stochastic_slippage : R → Bps × R

structure ILatencyModel (R : Type) where
  decision_to_arrival : R → Duration × R
  arrival_to_ack : R → Duration × R
  market_data_latency : Duration

structure CostConfig where
  commission_per_share : Rat := 0.0035
  minimum_commission : Rat := 0.35
  taker_fee_bps : Bps := 0
  maker_rebate_bps : Bps := 0
  stochastic_slippage_bps : Bps := 0.25
  impact_coefficient : Rat := 0.10
  impact_exponent : Rat := 0.5
  cost_multiplier : Rat := 1
  fallback_half_spread_bps : Bps := 1
  deriving DecidableEq, Repr

section StandardCostModel

variable {R : Type} (pow : Rat → Rat → Rat) (normal : R → Rat → Rat → Rat × R) (cfg : CostConfig)

def StandardCostModel.commission (filled : Qty) (price : Price) : Notional :=
  if filled ≤ 0 then 0
  else
    let per_share := cfg.commission_per_share * filled
    let c := max per_share cfg.minimum_commission
    let fee := cfg.taker_fee_bps * 1e-4 * price * filled
    (c + fee) * cfg.cost_multiplier

def StandardCostModel.half_spread (state : MarketState) : Bps :=
  if ¬ state.has_quote then cfg.fallback_half_spread_bps * cfg.cost_multiplier
  else
    let mid := state.mid
    if ¬ is_finite mid ∨ mid ≤ 0 then 0
    else
      let half := (state.ask - state.bid) * 0.5
      half / mid * 1e4 * cfg.cost_multiplier

/-- The square-root law; `pow` stands for the library's power function. -/
def StandardCostModel.market_impact (quantity : Qty) (state : MarketState) : Bps :=
  let q := |quantity|
  let v := state.interval_volume
  if q ≤ 0 ∨ v ≤ 0 then 0
  else
    let participation := q / v
    let sigma := if state.intraday_volatility > 0 then state.intraday_volatility else 0.01
    let impact := cfg.impact_coefficient * sigma * pow participation cfg.impact_exponent * 1e4
    if ¬ is_finite impact then 0 else impact * cfg.cost_multiplier

/-- A half-normal draw, so the random part is always a cost. -/
def StandardCostModel.stochastic_slippage (rng : R) : Bps × R :=
  if cfg.stochastic_slippage_bps ≤ 0 then (0, rng)
  else
    let (draw, rng) := normal rng 0 cfg.stochastic_slippage_bps
    (|draw| * cfg.cost_multiplier, rng)

def StandardCostModel : ICostModel R where
  commission := StandardCostModel.commission cfg
  half_spread := StandardCostModel.half_spread cfg
  market_impact := StandardCostModel.market_impact pow cfg
  stochastic_slippage := StandardCostModel.stochastic_slippage normal cfg

end StandardCostModel

/-- No cost of the configuration is a rebate. -/
def CostConfig.NonNegative (cfg : CostConfig) : Prop :=
  0 ≤ cfg.commission_per_share ∧ 0 ≤ cfg.minimum_commission ∧ 0 ≤ cfg.taker_fee_bps ∧
    0 ≤ cfg.maker_rebate_bps ∧ 0 ≤ cfg.stochastic_slippage_bps ∧ 0 ≤ cfg.impact_coefficient ∧
    0 ≤ cfg.cost_multiplier ∧ 0 ≤ cfg.fallback_half_spread_bps

instance (cfg : CostConfig) : Decidable cfg.NonNegative :=
  inferInstanceAs (Decidable (0 ≤ cfg.commission_per_share ∧ 0 ≤ cfg.minimum_commission ∧
    0 ≤ cfg.taker_fee_bps ∧ 0 ≤ cfg.maker_rebate_bps ∧ 0 ≤ cfg.stochastic_slippage_bps ∧
    0 ≤ cfg.impact_coefficient ∧ 0 ≤ cfg.cost_multiplier ∧ 0 ≤ cfg.fallback_half_spread_bps))

def flatConfig (half commission : Rat) : CostConfig where
  commission_per_share := 0
  minimum_commission := commission
  stochastic_slippage_bps := 0
  impact_coefficient := 0
  fallback_half_spread_bps := half

/-- The standard model with a flat half-spread and a flat commission for each
    fill. It draws nothing and has no impact, so its library functions do not
    matter. -/
def flatCosts (half commission : Rat := 0) : ICostModel Unit :=
  StandardCostModel (fun x _ => x) (fun rng _ _ => (0, rng)) (flatConfig half commission)

structure LatencyConfig where
  market_data : Duration := 500000
  strategy_compute : Duration := 250000
  order_transmission : Duration := 900000
  exchange_processing : Duration := 100000
  acknowledgement : Duration := 700000
  jitter_sigma : Rat := 0
  deriving DecidableEq, Repr

section StandardLatencyModel

variable {R : Type} (exp : Rat → Rat) (normal : R → Rat → Rat → Rat × R) (cfg : LatencyConfig)

/-- The conversion to an integer drops the fraction. -/
def truncate (x : Rat) : Int := if x < 0 then x.ceil else x.floor

def jittered (base : Duration) (sigma : Rat) (rng : R) : Duration × R :=
  if sigma ≤ 0 then (base, rng)
  else
    let (draw, rng) := normal rng 0 sigma
    let scaled := truncate ((base : Rat) * exp draw)
    (max 0 scaled, rng)

def StandardLatencyModel : ILatencyModel R where
  decision_to_arrival rng :=
    let (compute, rng) := jittered exp normal cfg.strategy_compute cfg.jitter_sigma rng
    let (transmission, rng) := jittered exp normal cfg.order_transmission cfg.jitter_sigma rng
    let (processing, rng) := jittered exp normal cfg.exchange_processing cfg.jitter_sigma rng
    (compute + transmission + processing, rng)
  arrival_to_ack rng := jittered exp normal cfg.acknowledgement cfg.jitter_sigma rng
  market_data_latency := cfg.market_data

end StandardLatencyModel

/-- The default latencies, without jitter. -/
def flatLatency : ILatencyModel Unit := StandardLatencyModel (fun _ => 1) (fun rng _ _ => (0, rng)) {}

structure FillConfig where
  max_participation_rate : Rat := 0.05
  respect_displayed_size : Bool := true
  passive_fill_ratio : Rat := 0.5
  require_trade_through : Bool := true
  deriving DecidableEq, Repr

/-- Round toward zero to whole lots. A lot size of zero rounds nothing. -/
def toLots (lot_size want : Rat) : Rat :=
  if lot_size > 0 then (truncate (want / lot_size) : Rat) * lot_size else want

theorem truncate_of_nonneg {x : Rat} (hx : 0 ≤ x) : truncate x = x.floor := if_neg (not_lt.mpr hx)

theorem truncate_of_neg {x : Rat} (hx : x < 0) : truncate x = x.ceil := if_pos hx

theorem truncate_nonneg {x : Rat} (hx : 0 ≤ x) : (0 : Rat) ≤ truncate x := by
  rw [truncate_of_nonneg hx]
  exact_mod_cast Rat.le_floor_iff.mpr (by simpa using hx)

theorem truncate_nonpos {x : Rat} (hx : x ≤ 0) : (truncate x : Rat) ≤ 0 := by
  rcases hx.lt_or_eq with hneg | rfl
  · rw [truncate_of_neg hneg]
    exact_mod_cast Rat.ceil_le_iff.mpr (by simpa using hneg.le)
  · exact le_of_eq rfl

theorem truncate_le (x : Rat) : (truncate x : Rat) ≤ max 0 x := by
  rcases le_or_gt 0 x with hx | hx
  · rw [truncate_of_nonneg hx]
    exact (Rat.floor_le x).trans (le_max_right _ _)
  · exact (truncate_nonpos hx.le).trans (le_max_left _ _)

theorem le_truncate (x : Rat) : min 0 x ≤ (truncate x : Rat) := by
  rcases le_or_gt 0 x with hx | hx
  · exact (min_le_left _ _).trans (truncate_nonneg hx)
  · rw [truncate_of_neg hx]
    exact (min_le_right _ _).trans Rat.le_ceil

/-- What truncation drops is less than one. -/
theorem abs_sub_truncate_lt (x : Rat) : |x - truncate x| < 1 := by
  rw [abs_lt]
  rcases le_or_gt 0 x with hx | hx
  · rw [truncate_of_nonneg hx]
    have hbelow := Rat.floor_le x
    have habove : x < (x.floor : Rat) + 1 := by exact_mod_cast Rat.lt_floor_add_one x
    constructor <;> linarith
  · rw [truncate_of_neg hx]
    have hbelow : (x.ceil : Rat) < x + 1 := Rat.ceil_lt
    have habove : x ≤ (x.ceil : Rat) := Rat.le_ceil
    constructor <;> linarith

theorem toLots_le (lot_size want : Rat) : toLots lot_size want ≤ max 0 want := by
  unfold toLots
  split
  · rename_i hlot
    calc (truncate (want / lot_size) : Rat) * lot_size
        ≤ max 0 (want / lot_size) * lot_size := mul_le_mul_of_nonneg_right (truncate_le _) hlot.le
      _ = max 0 want := by
        rw [max_mul_of_nonneg _ _ hlot.le, zero_mul, div_mul_cancel₀ want hlot.ne']
  · exact le_max_right _ _

theorem le_toLots (lot_size want : Rat) : min 0 want ≤ toLots lot_size want := by
  unfold toLots
  split
  · rename_i hlot
    calc min 0 want
        = min 0 (want / lot_size) * lot_size := by
          rw [min_mul_of_nonneg _ _ hlot.le, zero_mul, div_mul_cancel₀ want hlot.ne']
      _ ≤ (truncate (want / lot_size) : Rat) * lot_size := mul_le_mul_of_nonneg_right (le_truncate _) hlot.le
  · exact min_le_right _ _

/-- Rounding never enlarges. -/
theorem abs_toLots_le (lot_size want : Rat) : |toLots lot_size want| ≤ |want| := by
  have habove := toLots_le lot_size want
  have hbelow := le_toLots lot_size want
  rw [abs_le]
  constructor
  · exact (le_min (neg_nonpos.mpr (abs_nonneg want)) (neg_abs_le want)).trans hbelow
  · exact habove.trans (max_le (abs_nonneg want) (le_abs_self want))

/-- What rounding drops is less than a lot. -/
theorem abs_sub_toLots_lt {lot_size : Rat} (hlot : 0 < lot_size) (want : Rat) :
    |want - toLots lot_size want| < lot_size := by
  have hscaled : want - toLots lot_size want = (want / lot_size - truncate (want / lot_size)) * lot_size := by
    rw [toLots, if_pos hlot, sub_mul, div_mul_cancel₀ want hlot.ne']
  rw [hscaled, abs_mul, abs_of_pos hlot]
  calc |want / lot_size - truncate (want / lot_size)| * lot_size
      < 1 * lot_size := mul_lt_mul_of_pos_right (abs_sub_truncate_lt _) hlot
    _ = lot_size := one_mul _

theorem truncate_eq_zero_iff (x : Rat) : truncate x = 0 ↔ |x| < 1 := by
  constructor
  · intro hzero
    have hdropped := abs_sub_truncate_lt x
    rwa [hzero, Int.cast_zero, sub_zero] at hdropped
  · intro hsmall
    rw [abs_lt] at hsmall
    rcases le_or_gt 0 x with hx | hx
    · rw [truncate_of_nonneg hx]
      have hbelow : 0 ≤ x.floor := Rat.le_floor_iff.mpr (by simpa using hx)
      have habove : x.floor < 1 := Rat.floor_lt_iff.mpr (by simpa using hsmall.2)
      omega
    · rw [truncate_of_neg hx]
      have hbelow : (-1 : Int) < x.ceil := Rat.lt_ceil_iff.mpr (by simpa using hsmall.1)
      have habove : x.ceil ≤ 0 := Rat.ceil_le_iff.mpr (by simpa using hx.le)
      omega

/-- Less than a lot is rounded to nothing, and nothing else is. -/
theorem toLots_eq_zero_iff {lot_size : Rat} (hlot : 0 < lot_size) (want : Rat) :
    toLots lot_size want = 0 ↔ |want| < lot_size := by
  rw [toLots, if_pos hlot, mul_eq_zero, or_iff_left hlot.ne', Int.cast_eq_zero, truncate_eq_zero_iff, abs_div,
    abs_of_pos hlot, div_lt_one hlot]

theorem toLots_of_nonpos {lot_size : Rat} (hlot : lot_size ≤ 0) (want : Rat) : toLots lot_size want = want :=
  if_neg (not_lt.mpr hlot)

structure PendingOrder where
  order : Order
  arrival_time : Timestamp
  filled : Qty := 0
  stop_triggered : Bool := false

structure ExecutionStats where
  orders_accepted : Nat := 0
  orders_rejected : Nat := 0
  fills : Nat := 0
  partial_fills : Nat := 0
  participation_capped : Nat := 0
  displayed_size_capped : Nat := 0
  passive_no_fill : Nat := 0
  stops_triggered : Nat := 0
  fok_killed : Nat := 0
  rejected_stale_quote : Nat := 0
  rejected_halted : Nat := 0
  rejected_crossed : Nat := 0
  filled_from_quote : Nat := 0
  filled_from_bar : Nat := 0
  total_commission : Notional := 0
  total_impact_cost : Notional := 0
  deriving DecidableEq, Repr

structure BrokerSimulator (R : Type) where
  costs : ICostModel R
  latency : ILatencyModel R
  latency_rng : R
  slippage_rng : R
  fill_cfg : FillConfig
  pending : List PendingOrder := []
  stats : ExecutionStats := {}

variable {R : Type}

/-- The clock is read by the caller and passed as `now`. -/
def BrokerSimulator.submit (b : BrokerSimulator R) (now : Timestamp) (order : Order) :
    Result Timestamp × BrokerSimulator R :=
  if ¬ is_set now then (.error (bad "broker clock is unset"), b)
  else if now < order.decision_time then
    (.error (bad "order decision_time is in the future relative to the venue clock"),
      { b with stats := { b.stats with orders_rejected := b.stats.orders_rejected + 1 } })
  else
    let (flight, latency_rng) := b.latency.decision_to_arrival b.latency_rng
    -- Even at zero latency an order arrives after its decision.
    let effective := if flight > 0 then flight else 1
    let arrival := now + effective
    match order.with_arrival arrival with
    | .error e =>
      (.error e, { b with
        latency_rng
        stats := { b.stats with orders_rejected := b.stats.orders_rejected + 1 } })
    | .ok stamped =>
      (.ok arrival, { b with
        latency_rng
        pending := b.pending ++ [{ order := stamped, arrival_time := arrival }]
        stats := { b.stats with orders_accepted := b.stats.orders_accepted + 1 } })

def BrokerSimulator.cancel (b : BrokerSimulator R) (id : OrderId) :
    Result Bool × BrokerSimulator R :=
  if b.pending.any fun p => p.order.id = id then
    (.ok true, { b with pending := b.pending.eraseP fun p => p.order.id = id })
  else (.error (bad "cancel for an unknown or completed order"), b)

/-- The arrival price of a fill falls back to its own price. -/
def benchmark (order : Order) (price : Price) : Price :=
  if order.arrival_price > 0 then order.arrival_price else price

/-- A fill of `order`, or the reason it may not be built. -/
def make_fill (costs : ICostModel R) (order : Order) (price : Price) (qty : Qty) (now : Timestamp)
    (liquidity : Liquidity) : Result Fill :=
  if hprice : ¬ is_finite price ∨ price ≤ 0 then
    .error (bad "computed fill price is not a positive finite number")
  else if hqty : ¬ is_finite qty ∨ qty ≤ 0 then
    .error (bad "computed fill quantity is not positive")
  else
    match hchain : validate_chain { order.times with fill_time := now } with
    | some v => .error (bad ("fill would violate the timestamp chain: " ++ v.describe))
    | none =>
      .ok {
        order_id := order.id
        parent_id := order.parent_id
        instrument := order.instrument
        side := order.side
        price, quantity := qty
        commission := costs.commission qty price
        exchange_fee := 0
        liquidity
        times := { order.times with fill_time := now }
        arrival_price := benchmark order price
        price_pos := pos_of_checked hprice
        quantity_pos := pos_of_checked hqty
        chain_valid := hchain }

/-- The price an order of this side is matched at: the touch of a quote, or
    the last price when only bars exist. -/
def touchOf (state : MarketState) (side : Side) : Price :=
  if state.has_quote then state.touch side else state.bid

/-- Whether a pending order is live once this touch is seen: a stop is dormant
    until the market trades through its stop price. -/
def PendingOrder.triggered (p : PendingOrder) (touch : Price) : Bool :=
  if p.order.type.needs_stop ∧ ¬ p.stop_triggered then
    let stop := p.order.stop_price.getD 0
    match p.order.side with
    | .Buy => stop ≤ touch
    | .Sell => touch ≤ stop
  else true

/-- The size an order may take now, or nothing when no liquidity is offered:
    the displayed size caps it first, then what is left of the participation
    budget. -/
def available (cfg : FillConfig) (state : MarketState) (side : Side) (remaining_participation : Rat)
    (want : Qty) (stats : ExecutionStats) : Option Qty × ExecutionStats :=
  let displayed := match side with
    | .Buy => state.ask_size
    | .Sell => state.bid_size
  if state.has_quote ∧ cfg.respect_displayed_size ∧ ¬ displayed > 0 then (none, stats)
  else
    let capped := state.has_quote ∧ cfg.respect_displayed_size ∧ displayed < want
    let allowed := if capped then displayed else want
    let stats := if capped then
        { stats with displayed_size_capped := stats.displayed_size_capped + 1 }
      else stats
    if remaining_participation > 0 ∧ remaining_participation < allowed then
      (some remaining_participation,
        { stats with participation_capped := stats.participation_capped + 1 })
    else if state.volume_known ∧ state.interval_volume ≤ 0 then (none, stats)
    else (some allowed, stats)

/-- What the matching loop decides about one pending order, before any price. -/
inductive Decision where
  | keep (p : PendingOrder)
  | erase
  | execute (p : PendingOrder) (allowed : Qty)

/-- The gates after the stop: marketability, the size wanted, the liquidity
    offered and fill-or-kill. -/
def PendingOrder.decideLive (p : PendingOrder) (cfg : FillConfig) (state : MarketState)
    (remaining_participation : Rat) (stats : ExecutionStats) : Decision × ExecutionStats :=
  if ¬ p.order.is_marketable_against (touchOf state p.order.side) then
    (.keep p, { stats with passive_no_fill := stats.passive_no_fill + 1 })
  else
    let want := p.order.quantity - p.filled
    if want ≤ 0 then (.erase, stats)
    else
      match available cfg state p.order.side remaining_participation want stats with
      | (none, stats) => (.keep p, stats)
      | (some allowed, stats) =>
        if allowed ≤ 0 then (.keep p, stats)
        else if p.order.time_in_force = .FillOrKill ∧ allowed + 1e-9 < want then
          (.erase, { stats with fok_killed := stats.fok_killed + 1 })
        else (.execute p allowed, stats)

def PendingOrder.decide (p : PendingOrder) (cfg : FillConfig) (instrument : InstrumentId)
    (state : MarketState) (now : Timestamp) (remaining_participation : Rat)
    (stats : ExecutionStats) : Decision × ExecutionStats :=
  if p.order.instrument ≠ instrument then (.keep p, stats)
  else if now < p.arrival_time then (.keep p, stats)
  else if ¬ p.triggered (touchOf state p.order.side) then (.keep p, stats)
  else if p.order.type.needs_stop ∧ ¬ p.stop_triggered then
    { p with stop_triggered := true }.decideLive cfg state remaining_participation
      { stats with stops_triggered := stats.stops_triggered + 1 }
  else p.decideLive cfg state remaining_participation stats

/-- The variables of the matching loop. -/
structure MatchState (R : Type) where
  remaining_participation : Rat
  slippage_rng : R
  stats : ExecutionStats

/-- A pending order after `allowed` of it was filled, or nothing when it leaves
    the book: it is complete, or its remainder is cancelled at once. -/
def PendingOrder.after_fill (p : PendingOrder) (allowed : Qty) : Option PendingOrder :=
  let filled := p.filled + allowed
  if p.order.quantity ≤ filled + 1e-9 then none
  else if p.order.time_in_force = .ImmediateOrCancel then none
  else some { p with filled }

/-- Price, fill and bookkeeping of one execution. -/
def execute (costs : ICostModel R) (state : MarketState) (now : Timestamp) (m : MatchState R)
    (p : PendingOrder) (allowed : Qty) : Result Fill × MatchState R :=
  let side := p.order.side
  let reference := touchOf state side
  let half := if state.has_quote then 0 else costs.half_spread state
  let impact := costs.market_impact allowed state
  let (slip, slippage_rng) := costs.stochastic_slippage m.slippage_rng
  let total_bps := half + impact + slip
  let fill_price := apply_bps reference total_bps (sign_of side)
  match make_fill costs p.order fill_price allowed now .Taker with
  | .error e => (.error e, { m with slippage_rng })
  | .ok f =>
    let s := m.stats
    let rests := ¬ p.order.quantity ≤ p.filled + allowed + 1e-9
    (.ok f, {
      remaining_participation := max 0 (m.remaining_participation - allowed)
      slippage_rng
      stats := { s with
        total_commission := s.total_commission + f.commission
        filled_from_quote := if state.has_quote then s.filled_from_quote + 1 else s.filled_from_quote
        filled_from_bar := if state.has_quote then s.filled_from_bar else s.filled_from_bar + 1
        total_impact_cost := s.total_impact_cost + impact * 1e-4 * reference * allowed
        fills := s.fills + 1
        partial_fills := if rests then s.partial_fills + 1 else s.partial_fills } })

/-- The matching loop. An error leaves the orders before it as they were
    matched and the rest untouched, and its fills are lost. -/
def matchLoop (costs : ICostModel R) (cfg : FillConfig) (instrument : InstrumentId)
    (state : MarketState) (now : Timestamp) :
    MatchState R → List PendingOrder → Result (List Fill) × List PendingOrder × MatchState R
  | m, [] => (.ok [], [], m)
  | m, p :: ps =>
    let (decision, stats) := p.decide cfg instrument state now m.remaining_participation m.stats
    let m := { m with stats }
    match decision with
    | .keep p =>
      let (result, rest, m) := matchLoop costs cfg instrument state now m ps
      (result, p :: rest, m)
    | .erase => matchLoop costs cfg instrument state now m ps
    | .execute p allowed =>
      match execute costs state now m p allowed with
      | (.error e, m) => (.error e, p :: ps, m)
      | (.ok f, m) =>
        let (result, rest, m) := matchLoop costs cfg instrument state now m ps
        (result.map (f :: ·), (p.after_fill allowed).toList ++ rest, m)

/-- Advance the venue to `state` at `now`: the fills of this call. -/
def BrokerSimulator.on_market (b : BrokerSimulator R) (instrument : InstrumentId)
    (state : MarketState) (now : Timestamp) : Result (List Fill) × BrokerSimulator R :=
  let (result, pending, m) := matchLoop b.costs b.fill_cfg instrument state now
    { remaining_participation := state.interval_volume * b.fill_cfg.max_participation_rate
      slippage_rng := b.slippage_rng
      stats := b.stats } b.pending
  (result, { b with pending, slippage_rng := m.slippage_rng, stats := m.stats })

theorem BrokerSimulator.submit_costs (b : BrokerSimulator R) (now : Timestamp) (order : Order) :
    (b.submit now order).2.costs = b.costs := by
  simp only [BrokerSimulator.submit]
  split
  · rfl
  · split
    · rfl
    · split <;> rfl

theorem BrokerSimulator.cancel_costs (b : BrokerSimulator R) (id : OrderId) :
    (b.cancel id).2.costs = b.costs := by
  unfold BrokerSimulator.cancel
  split <;> rfl

end ptl.execution
