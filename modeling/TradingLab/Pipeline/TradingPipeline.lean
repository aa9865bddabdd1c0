import TradingLab.Construction.Rebalance
import TradingLab.Engine.Engine
import TradingLab.Sizing.Sizer

open ptl.oms ptl.portfolio ptl.engine ptl.signal ptl.sizing ptl.construction
open Std (TreeMap)

namespace ptl.pipeline

/-- The counters a rebalance moves. -/
structure PipelineStats where
  rebalances : Nat := 0
  orders_submitted : Nat := 0
  orders_rejected : Nat := 0
  gross_turnover : Notional := 0
  peak_gross_leverage : Rat := 0
  peak_net_leverage : Rat := 0
  deriving DecidableEq, Repr

/-- What the pipeline keeps of an instrument between bars. -/
structure InstrumentState where
  last_close : Price := 0
  volatility : Rat := 0
  deriving DecidableEq, Repr

structure TradingPipeline where
  flatten_at_session_close : Bool := true
  sectors : TreeMap InstrumentId Int := ∅
  sizer : PositionSizer
  rebalancer : RebalanceEngine := {}
  state : TreeMap InstrumentId InstrumentState := ∅
  latest_signals : TreeMap InstrumentId Signal := ∅
  stats : PipelineStats := {}
  bars_since_rebalance : Nat := 0

/-- Targets on their way, with the exposure they claim so far. -/
structure Building where
  targets : TargetPortfolio
  running_gross : Notional := 0
  running_net : Notional := 0
  sector_exposure : TreeMap Int Notional := ∅

/-- An instrument without a sector has sector -1. -/
def TradingPipeline.sector_of (p : TradingPipeline) (key : InstrumentId) : Int := (p.sectors[key]?).getD (-1)

/-- What the sizer is told of an instrument. -/
def TradingPipeline.sizing_context (p : TradingPipeline) (pf : Portfolio) (now : Timestamp)
    (key : InstrumentId) (st : InstrumentState) (b : Building) : SizingContext where
  now
  equity := pf.equity
  reference_price := st.last_close
  volatility := st.volatility
  current_position := (pf.position key).elim 0 Position.quantity
  sector := p.sector_of key
  existing_gross := b.running_gross
  existing_net := b.running_net
  sector_exposure := if p.sector_of key ≥ 0 then (b.sector_exposure[p.sector_of key]?).getD 0 else 0

/-- A decision as a target. -/
def targetOf (key : InstrumentId) (st : InstrumentState) (sig : Signal) (sized : SizingDecision) :
    TargetPosition where
  instrument := key
  target_quantity := sized.target_position
  reference_price := st.last_close
  target_weight := sized.final_weight
  net_edge := sig.net_edge

/-- The target of a decision, and its exposure as claimed. -/
def TradingPipeline.claim (p : TradingPipeline) (key : InstrumentId) (st : InstrumentState) (sig : Signal)
    (sized : SizingDecision) (b : Building) : Building :=
  match b.targets.set (targetOf key st sig sized) with
  | (.error _, _) => b
  | (.ok _, targets) =>
    let notional := |sized.target_notional|
    { targets
      running_gross := b.running_gross + notional
      running_net := b.running_net + sized.target_notional
      sector_exposure :=
        if p.sector_of key ≥ 0 then
          b.sector_exposure.insert (p.sector_of key)
            ((b.sector_exposure[p.sector_of key]?).getD 0 + notional)
        else b.sector_exposure }

/-- One turn of the loop over the latest signals. -/
def TradingPipeline.build_target (p : TradingPipeline) (pf : Portfolio) (now : Timestamp) (flatten : Bool)
    (b : Building) (key : InstrumentId) (sig : Signal) : Building :=
  match p.state[key]? with
  | none => b
  | some st =>
    if st.last_close ≤ 0 then b
    else if is_set sig.expires_at ∧ now > sig.expires_at then b
    else
      let sized : SizingDecision :=
        if flatten then {}
        else ((p.sizer.size sig (p.sizing_context pf now key st b)).toOption).getD {}
      p.claim key st sig sized b

/-- The targets of one pass, each instrument's limits checked against what the
    earlier ones have claimed. -/
def TradingPipeline.build_targets (p : TradingPipeline) (pf : Portfolio) (now : Timestamp) (flatten : Bool) :
    Building :=
  p.latest_signals.foldl (p.build_target pf now flatten) { targets := { as_of := now } }

variable {R : Type}

/-- One order through the sink, counted by its answer. -/
def TradingPipeline.submit_order (s : TradingPipeline × Engine R) (order : Order) :
    TradingPipeline × Engine R :=
  let (p, e) := s
  match e.submit order with
  | (.ok _, e) => ({ p with stats := { p.stats with orders_submitted := p.stats.orders_submitted + 1 } }, e)
  | (.error _, e) => ({ p with stats := { p.stats with orders_rejected := p.stats.orders_rejected + 1 } }, e)

/-- Peak leverage, read off the portfolio after the orders went out. -/
def TradingPipeline.note_leverage (p : TradingPipeline) (pf : Portfolio) (equity : Notional) : TradingPipeline :=
  { p with stats := { p.stats with
    peak_gross_leverage := max p.stats.peak_gross_leverage (pf.gross_exposure / equity)
    peak_net_leverage := max p.stats.peak_net_leverage (|pf.net_exposure| / equity) } }

def TradingPipeline.rebalance (p : TradingPipeline) (e : Engine R) (now : Timestamp) (flatten : Bool) :
    TradingPipeline × Engine R :=
  let equity := e.pf.equity
  if ¬ is_finite equity ∨ equity ≤ 0 then (p, e)
  else
    match p.rebalancer.plan (p.build_targets e.pf now flatten).targets e.pf with
    | .error _ => (p, e)
    | .ok plan =>
      if plan.actionable = 0 then (p, e)
      else
        let p := { p with stats := { p.stats with
          rebalances := p.stats.rebalances + 1
          gross_turnover := p.stats.gross_turnover + plan.gross_turnover } }
        match p.rebalancer.to_orders plan now Engine.next_order_id e with
        | (.error _, e) => (p, e)
        | (.ok orders, e) =>
          let (p, e) := orders.foldl TradingPipeline.submit_order (p, e)
          (p.note_leverage e.pf equity, e)

/-- Signals do not survive an overnight gap. -/
def TradingPipeline.on_session_open (p : TradingPipeline) : TradingPipeline :=
  { p with latest_signals := ∅, bars_since_rebalance := 0 }

/-- Flatten everything before the close. -/
def TradingPipeline.on_session_close (p : TradingPipeline) (e : Engine R) (now : Timestamp) :
    TradingPipeline × Engine R :=
  if ¬ p.flatten_at_session_close then (p, e)
  else
    let (p, e) := p.rebalance e now true
    ({ p with latest_signals := ∅ }, e)

/-! ### A concrete pipeline -/

/-- One instrument expected to rise. -/
def longSignal : Signal := Result.value (Signal.create 1 0 .Long 0.01 0.5 1000000000 1)

/-- A pipeline that wants this many shares of it at 100. -/
def sharesPipeline (fixed_shares : Rat) : TradingPipeline where
  sizer := { cfg := { method := .FixedShares, fixed_shares }, sqrt := id }
  state := (∅ : TreeMap InstrumentId InstrumentState).insert 0 { last_close := 100 }
  latest_signals := (∅ : TreeMap InstrumentId Signal).insert 0 longSignal

end ptl.pipeline
