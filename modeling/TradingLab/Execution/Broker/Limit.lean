import TradingLab.Execution.Broker.Matching
import TradingLab.Machine

open ptl.oms

namespace ptl.execution

variable {R : Type} {costs : ICostModel R} {cfg : FillConfig} {instrument : InstrumentId}
  {state : MarketState} {now : Timestamp}

/-- What an execution of `order` is charged on top of the touch is no more
than the distance from the touch to the limit. -/
def CostsFit (costs : ICostModel R) (state : MarketState) (order : Order) (allowed : Qty)
    (slip : Bps) : Prop :=
  ∀ limit ∈ order.limit_price,
    touchOf state order.side * chargedBps costs state allowed slip * 1e-4 ≤
      (limit - touchOf state order.side) * (sign_of order.side : Rat)

/-- The costs of an execution fit, with the draw the generator has for it. -/
def Visit.CostsFit (costs : ICostModel R) (state : MarketState) (v : Visit R) : Prop :=
  ∀ allowed ∈ v.size,
    execution.CostsFit costs state v.found.order allowed (costs.stochastic_slippage v.rng).1

instance (costs : ICostModel R) (state : MarketState) (v : Visit R) :
    Decidable (v.CostsFit costs state) :=
  inferInstanceAs (Decidable (∀ allowed ∈ v.size, ∀ limit ∈ v.found.order.limit_price,
    touchOf state v.found.order.side *
        chargedBps costs state allowed (costs.stochastic_slippage v.rng).1 * 1e-4 ≤
      (limit - touchOf state v.found.order.side) * (sign_of v.found.order.side : Rat)))

/-- The fills of a call, each with the order it is a fill of. -/
def attributed (vs : List (Visit R)) (fs : List Fill) : List (Order × Fill) :=
  ((vs.filter Visit.executes).map fun v => v.found.order).zip fs

theorem fillPrice_within_iff {order : Order} {allowed : Qty} {slip : Bps} :
    order.AtLimitOrBetter (fillPrice costs state order.side allowed slip) ↔
      CostsFit costs state order allowed slip := by
  refine forall_congr' fun limit => imp_congr_right fun _ => ?_
  simp only [fillPrice, apply_bps]
  cases order.side with
  | Buy =>
    simp only [sign_of_buy, Int.cast_one]
    constructor <;> intro h <;> linarith
  | Sell =>
    simp only [sign_of_sell, Int.cast_neg, Int.cast_one]
    constructor <;> intro h <;> linarith

/-- The orders that execute and the fills of a call come in the same order and
number. -/
theorem Matched.attributed {budget : Rat} {rng : R} {ps rest : List PendingOrder} {fs : List Fill}
    (hmatched : Matched costs cfg instrument state now budget rng ps fs rest) :
    (attributed (visits costs cfg instrument state now budget rng ps) fs).map Prod.snd = fs ∧
      ∀ of ∈ execution.attributed (visits costs cfg instrument state now budget rng ps) fs,
        of.2.order_id = of.1.id ∧ of.2.instrument = of.1.instrument ∧ of.2.side = of.1.side := by
  induction hmatched with
  | nil => exact ⟨rfl, fun of hof => absurd hof List.not_mem_nil⟩
  | keep hdecision _ ih =>
    rw [visits_keep hdecision]
    exact ih
  | erase hdecision _ ih =>
    rw [visits_erase hdecision]
    exact ih
  | execute hdecision hfill _ ih =>
    have hcarries := (PendingOrder.executes_of_decision hdecision).carries
    obtain ⟨hid, hinstrument, hside, -⟩ := make_fill_ok hfill
    rw [hcarries.order_eq] at hid hinstrument hside
    obtain ⟨hall, heach⟩ := ih
    rw [visits_execute hdecision]
    refine ⟨congrArg _ hall, fun of hof => ?_⟩
    rcases List.mem_cons.mp hof with rfl | hof
    · exact ⟨hid, hinstrument, hside⟩
    · exact heach of hof

/-- The fills of a call respect the limits of their orders exactly when the
costs of every execution fit. -/
theorem Matched.limits_iff {budget : Rat} {rng : R} {ps rest : List PendingOrder} {fs : List Fill}
    (hmatched : Matched costs cfg instrument state now budget rng ps fs rest) :
    (∀ of ∈ execution.attributed (visits costs cfg instrument state now budget rng ps) fs,
        of.1.AtLimitOrBetter of.2.price) ↔
      ∀ v ∈ visits costs cfg instrument state now budget rng ps, v.CostsFit costs state := by
  induction hmatched with
  | nil =>
    exact iff_of_true (fun of hof => absurd hof List.not_mem_nil) fun v hv => absurd hv List.not_mem_nil
  | keep hdecision _ ih =>
    rw [visits_keep hdecision, List.forall_mem_cons]
    refine ih.trans ⟨fun hfit => ⟨fun allowed hsize => ?_, hfit⟩, fun hfit => hfit.2⟩
    cases hsize
  | erase hdecision _ ih =>
    rw [visits_erase hdecision, List.forall_mem_cons]
    refine ih.trans ⟨fun hfit => ⟨fun allowed hsize => ?_, hfit⟩, fun hfit => hfit.2⟩
    cases hsize
  | @execute budget rng p p' allowed ps rest f fs hdecision hfill _ ih =>
    have hcarries := (PendingOrder.executes_of_decision hdecision).carries
    have hprice := (make_fill_ok hfill).2.2.2.1
    rw [hcarries.order_eq] at hprice
    rw [visits_execute hdecision, List.forall_mem_cons, ← ih]
    have hhead : p.order.AtLimitOrBetter f.price ↔
        execution.CostsFit costs state p.order allowed (costs.stochastic_slippage rng).1 := by
      rw [hprice]
      exact fillPrice_within_iff
    constructor
    · intro hwithin
      refine ⟨fun size hsize => ?_, fun of hof => hwithin of (List.mem_cons_of_mem _ hof)⟩
      cases hsize
      exact hhead.mp (hwithin (p.order, f) List.mem_cons_self)
    · rintro ⟨hfit, hrest⟩ of hof
      rcases List.mem_cons.mp hof with rfl | hof
      · exact hhead.mpr (hfit allowed rfl)
      · exact hrest of hof

/-! ### Runs of the venue -/

/-- A venue and the fills it returned so far, each with its order. -/
structure VenueRun (R : Type) where
  broker : BrokerSimulator R
  log : List (Order × Fill) := []

inductive VenueCall where
  | submit (now : Timestamp) (order : Order)
  | cancel (id : OrderId)
  | on_market (instrument : InstrumentId) (state : MarketState) (now : Timestamp)

/-- One call. A call that fails returns no fills and the venue goes on. -/
def VenueRun.call (s : VenueRun R) : VenueCall → VenueRun R
  | .submit now order => { s with broker := (s.broker.submit now order).2 }
  | .cancel id => { s with broker := (s.broker.cancel id).2 }
  | .on_market instrument state now =>
    let broker := (s.broker.on_market instrument state now).2
    match (s.broker.on_market instrument state now).1 with
    | .error _ => { s with broker }
    | .ok fs => { broker, log := s.log ++ attributed (s.broker.visits instrument state now) fs }

def venueMachine (R : Type) : Machine (VenueRun R) VenueCall where
  Init s := s.log = []
  step s c := some (s.call c)

/-- The costs of every execution a call is about to make fit. -/
def VenueRun.Affordable (s : VenueRun R) : VenueCall → Prop
  | .on_market instrument state now =>
    ∀ v ∈ s.broker.visits instrument state now, v.CostsFit s.broker.costs state
  | _ => True

theorem VenueRun.call_costs (s : VenueRun R) (c : VenueCall) :
    (s.call c).broker.costs = s.broker.costs := by
  cases c with
  | submit now order => exact BrokerSimulator.submit_costs _ _ _
  | cancel id => exact BrokerSimulator.cancel_costs _ _
  | on_market instrument state now =>
    simp only [VenueRun.call]
    split <;> rfl

/-- In a run whose executions are never charged more than the distance to
their limits, every fill is at its order's limit or better. -/
theorem venueMachine_limits {s : VenueRun R} (hreach : (venueMachine R).Reaches VenueRun.Affordable s) :
    ∀ of ∈ s.log, of.1.AtLimitOrBetter of.2.price := by
  refine hreach.invariant (I := fun s => ∀ of ∈ s.log, of.1.AtLimitOrBetter of.2.price)
    (fun s hinit => ?_) fun s c t _ hlimits hfit hstep => ?_
  · rw [hinit]
    exact fun of hof => absurd hof List.not_mem_nil
  · cases hstep
    cases c with
    | submit now order => exact hlimits
    | cancel id => exact hlimits
    | on_market instrument state now =>
      simp only [VenueRun.call]
      cases hresult : (s.broker.on_market instrument state now).1 with
      | error e => exact hlimits
      | ok fs =>
        have hcall := (BrokerSimulator.on_market_matched hresult).limits_iff.mpr hfit
        intro of hof
        rcases List.mem_append.mp hof with hold | hnew
        · exact hlimits of hold
        · exact hcall of hnew

/-- A venue that charges a half-spread of one basis point where no quote is
known. -/
def flatVenue : VenueRun Unit where
  broker := {
    costs := flatCosts 1, latency := flatLatency, latency_rng := (), slippage_rng := (), fill_cfg := {} }

/-- A buy of ten with a limit of 100. -/
def limitBuy : Order := Result.value (Order.limit 1 0 .Buy 10 100 { decision_time := 0 })

def limitRun : VenueRun Unit := flatVenue.call (.submit 0 limitBuy)

theorem limitRun_reaches : (venueMachine Unit).Reaches VenueRun.Affordable limitRun := by
  have hinit : (venueMachine Unit).Init flatVenue := rfl
  exact .step (.init hinit) (l := .submit 0 limitBuy) trivial rfl

/-- A bar of a thousand shares at this price. -/
def barAt (price : Price) : MarketState := { bid := price, ask := price, interval_volume := 1000 }

/-- The order is filled a whole point inside its limit. -/
theorem venueMachine_limits_limitRun :
    ∃ s, (venueMachine Unit).Reachable s ∧ s.log.length = 1 ∧
      ∀ of ∈ s.log, of.1.AtLimitOrBetter of.2.price := by
  have hreach : (venueMachine Unit).Reaches VenueRun.Affordable
      (limitRun.call (.on_market 0 (barAt 99) 2000000)) :=
    .step limitRun_reaches (l := .on_market 0 (barAt 99) 2000000)
      (by unfold VenueRun.Affordable; decide +kernel) rfl
  exact ⟨_, hreach.reachable, by decide +kernel, venueMachine_limits hreach⟩

/-- A fill beyond its limit: the touch is at the limit, so the order is
executed, and the half-spread is added to the price afterwards. -/
theorem venueMachine_beyond_limit :
    ∃ (cfg : CostConfig) (s : VenueRun Unit), cfg.NonNegative ∧ (venueMachine Unit).Reachable s ∧
      s.broker.costs = StandardCostModel (fun x _ => x) (fun rng _ _ => (0, rng)) cfg ∧
      ∃ of ∈ s.log, ¬ of.1.AtLimitOrBetter of.2.price := by
  have hbeyond : ∃ of ∈ (limitRun.call (.on_market 0 (barAt 100) 2000000)).log,
      of.1.limit_price = some 100 ∧ of.1.side = .Buy ∧ 100 < of.2.price := by decide +kernel
  obtain ⟨of, hof, hlimit, hside, hprice⟩ := hbeyond
  refine ⟨flatConfig 1 0, limitRun.call (.on_market 0 (barAt 100) 2000000), by decide +kernel,
    .step limitRun_reaches.reachable trivial rfl, ?_, of, hof, fun hwithin => ?_⟩
  · rw [VenueRun.call_costs, limitRun, VenueRun.call_costs]
    rfl
  · have hle := hwithin 100 hlimit
    simp only [hside] at hle
    exact absurd hprice (not_lt.mpr hle)

end ptl.execution
