import TradingLab.Market.Merge
import TradingLab.Oms.Order
import TradingLab.TableSum

open ptl.oms
open Std (TreeMap)

namespace ptl.portfolio

/-- One instrument's position at weighted-average cost. -/
structure Position where
  instrument : InstrumentId
  quantity : Qty := 0
  average_cost : Price := 0
  realized_pnl : Notional := 0
  total_commission : Notional := 0
  total_bought : Qty := 0
  total_sold : Qty := 0
  deriving DecidableEq, Repr

def Position.is_flat (p : Position) : Bool := p.quantity = 0

def Position.is_short (p : Position) : Bool := p.quantity < 0

/-- The average cost after a fill of `delta` shares at `px`. -/
def Position.nextCost (p : Position) (delta px : Rat) : Price :=
  let before := p.quantity
  let after := before + delta
  let cost :=
    if before = 0 ∨ (before > 0 ↔ delta > 0) then
      if after ≠ 0 then (p.average_cost * before + px * delta) / after else p.average_cost
    else if |delta| > |before| then px
    else if after = 0 then 0
    else p.average_cost
  if after = 0 then 0 else cost

/-- The profit booked by a fill of `delta` shares at `px`: the closing part
    against the average cost, nothing when it opens or adds. -/
def Position.realizedBy (p : Position) (delta px : Rat) : Notional :=
  let before := p.quantity
  if before = 0 ∨ (before > 0 ↔ delta > 0) then 0
  else
    let closing := min |delta| |before|
    let direction : Rat := if before > 0 then 1 else -1
    (px - p.average_cost) * closing * direction

/-- The position after a fill, and the profit the fill realised. -/
def Position.apply (p : Position) (fill : Fill) : Notional × Position :=
  let delta := fill.signed_quantity
  let px := fill.price
  let realized_now := p.realizedBy delta px
  (realized_now, { p with
    quantity := p.quantity + delta
    average_cost := p.nextCost delta px
    realized_pnl := p.realized_pnl + realized_now
    total_commission := p.total_commission + fill.total_cost
    total_bought := if delta > 0 then p.total_bought + delta else p.total_bought
    total_sold := if delta > 0 then p.total_sold else p.total_sold + -delta })

def Position.apply_split (p : Position) (ratio : Rat) : Position :=
  if ¬ is_finite ratio ∨ ratio ≤ 0 then p
  else { p with
    quantity := p.quantity * ratio
    average_cost := p.average_cost / ratio
    total_bought := p.total_bought * ratio
    total_sold := p.total_sold * ratio }

def Position.dividend_cash (p : Position) (per_share : Notional) : Notional := per_share * p.quantity

def Position.market_value (p : Position) (mark : Price) : Notional := p.quantity * mark

def Position.unrealized_pnl (p : Position) (mark : Price) : Notional :=
  if p.is_flat then 0 else (mark - p.average_cost) * p.quantity

def Position.gross_exposure (p : Position) (mark : Price) : Notional := |p.quantity| * mark

/-- The money a position was bought for, signed. -/
def Position.basis (p : Position) : Notional := p.average_cost * p.quantity

inductive MarkMode where
  | Liquidation
  | Mid
  | Last
  deriving DecidableEq, Repr

structure PortfolioConfig where
  initial_cash : Notional := 1000000
  mark_mode : MarkMode := .Liquidation
  annual_borrow_rate : Rat := 0
  allow_short : Bool := true
  deriving DecidableEq, Repr

structure EquityPoint where
  ts : Timestamp := kNoTimestamp
  equity : Notional := 0
  cash : Notional := 0
  gross_exposure : Notional := 0
  net_exposure : Notional := 0
  realized_pnl : Notional := 0
  unrealized_pnl : Notional := 0
  cumulative_costs : Notional := 0
  turnover : Notional := 0
  deriving DecidableEq, Repr

structure MarkPair where
  bid : Price
  ask : Price
  deriving DecidableEq, Repr

structure Portfolio where
  cfg : PortfolioConfig
  cash : Notional
  realized_pnl : Notional := 0
  total_costs : Notional := 0
  turnover : Notional := 0
  positions : TreeMap InstrumentId Position := ∅
  marks : TreeMap InstrumentId MarkPair := ∅
  curve : List EquityPoint := []

def Portfolio.new (cfg : PortfolioConfig) : Portfolio := { cfg, cash := cfg.initial_cash }

/-- `positions_.try_emplace`: the position held, or a new flat one. -/
def Portfolio.held (pf : Portfolio) (instrument : InstrumentId) : Position :=
  (pf.positions[instrument]?).getD { instrument }

/-- A refused fill leaves the flat position that was emplaced for it. -/
def Portfolio.apply (pf : Portfolio) (fill : Fill) : Result Bool × Portfolio :=
  if ¬ is_finite fill.price ∨ ¬ is_finite fill.quantity then
    (.error (bad "fill carries a non-finite price or quantity"), pf)
  else
    let pos := pf.held fill.instrument
    if ¬ pf.cfg.allow_short ∧ pos.quantity + fill.signed_quantity < -1e-9 then
      (.error (bad "short selling is disabled for this portfolio"),
        { pf with positions := pf.positions.insert fill.instrument pos })
    else
      let (realized_now, pos) := pos.apply fill
      let pf := { pf with
        positions := pf.positions.insert fill.instrument pos
        realized_pnl := pf.realized_pnl + realized_now
        cash := pf.cash + fill.cash_delta
        total_costs := pf.total_costs + fill.total_cost
        turnover := pf.turnover + |fill.price * fill.quantity| }
      if ¬ is_finite pf.cash then (.error (bad "cash became non-finite"), pf) else (.ok true, pf)

def Portfolio.apply_split (pf : Portfolio) (instrument : InstrumentId) (ratio : Rat) :
    Result Bool × Portfolio :=
  if ¬ is_finite ratio ∨ ratio ≤ 0 then (.error (bad "split ratio must be positive"), pf)
  else
    let positions := match pf.positions[instrument]? with
      | none => pf.positions
      | some pos => pf.positions.insert instrument (pos.apply_split ratio)
    let marks := match pf.marks[instrument]? with
      | none => pf.marks
      | some m => pf.marks.insert instrument { bid := m.bid / ratio, ask := m.ask / ratio }
    (.ok true, { pf with positions, marks })

/-- The dividend cash of the position held, if any. -/
def Portfolio.dividendLeg (pf : Portfolio) (instrument : InstrumentId) (per_share : Notional) :
    Notional :=
  match pf.positions[instrument]? with
  | none => 0
  | some pos => pos.dividend_cash per_share

def Portfolio.apply_dividend (pf : Portfolio) (instrument : InstrumentId) (per_share : Notional) :
    Result Bool × Portfolio :=
  match pf.positions[instrument]? with
  | none => (.ok true, pf)
  | some pos => (.ok true, { pf with cash := pf.cash + pos.dividend_cash per_share })

def Portfolio.mark (pf : Portfolio) (instrument : InstrumentId) (bid ask : Price) : Portfolio :=
  { pf with marks := pf.marks.insert instrument { bid, ask } }

def Portfolio.mark_last (pf : Portfolio) (instrument : InstrumentId) (last : Price) : Portfolio :=
  pf.mark instrument last last

def Portfolio.mark_from_quote (pf : Portfolio) (q : market.Quote) : Portfolio :=
  pf.mark q.instrument q.bid q.ask

/-- Longs are marked to the bid and shorts to the ask; a position without a
    mark is valued at its cost. -/
def Portfolio.mark_for (pf : Portfolio) (instrument : InstrumentId) (pos : Position) : Price :=
  match pf.marks[instrument]? with
  | none => pos.average_cost
  | some m =>
    match pf.cfg.mark_mode with
    | .Mid => (m.bid + m.ask) * 0.5
    | .Last => m.bid
    | .Liquidation => if pos.is_short then m.ask else m.bid

def Portfolio.position_value (pf : Portfolio) : Notional :=
  pf.positions.foldl (fun total _ pos =>
    if pos.is_flat then total
    else total + pos.market_value (pf.mark_for pos.instrument pos)) 0

def Portfolio.equity (pf : Portfolio) : Notional := pf.cash + pf.position_value

def Portfolio.gross_exposure (pf : Portfolio) : Notional :=
  pf.positions.foldl (fun total _ pos =>
    if pos.is_flat then total
    else total + pos.gross_exposure (pf.mark_for pos.instrument pos)) 0

def Portfolio.net_exposure (pf : Portfolio) : Notional := pf.position_value

def Portfolio.unrealized_pnl (pf : Portfolio) : Notional :=
  pf.positions.foldl (fun total _ pos =>
    if pos.is_flat then total
    else total + pos.unrealized_pnl (pf.mark_for pos.instrument pos)) 0

def Portfolio.buying_power (pf : Portfolio) : Notional := max 0 pf.cash

def Portfolio.position (pf : Portfolio) (instrument : InstrumentId) : Option Position :=
  pf.positions[instrument]?

def Portfolio.mark_price (pf : Portfolio) (instrument : InstrumentId) : Option Price :=
  match pf.marks[instrument]? with
  | none => none
  | some m =>
    match pf.positions[instrument]? with
    | none => some m.bid
    | some pos => some (pf.mark_for instrument pos)

def Portfolio.identity_holds (pf : Portfolio) (tolerance : Rat := 1e-6) : Bool :=
  let lhs := pf.equity
  let rhs := pf.cash + pf.position_value
  is_finite lhs && is_finite rhs && decide (|lhs - rhs| ≤ tolerance)

def Portfolio.snapshot (pf : Portfolio) (ts : Timestamp) : Result EquityPoint × Portfolio :=
  if (pf.curve.getLast?).any fun last => ts < last.ts then
    (.error (bad "equity curve snapshot moves backwards in time"), pf)
  else
    let p : EquityPoint := {
      ts, cash := pf.cash, equity := pf.equity, gross_exposure := pf.gross_exposure
      net_exposure := pf.net_exposure, realized_pnl := pf.realized_pnl
      unrealized_pnl := pf.unrealized_pnl, cumulative_costs := pf.total_costs
      turnover := pf.turnover }
    if ¬ is_finite p.equity then (.error (bad ("equity is not finite at " ++ to_iso8601 ts)), pf)
    else if ¬ pf.identity_holds then
      (.error (bad "accounting identity violated: equity != cash + position value"), pf)
    else (.ok p, { pf with curve := pf.curve ++ [p] })

theorem Portfolio.position_value_eq_sum (pf : Portfolio) :
    pf.position_value = Table.sum (fun _ pos =>
      if pos.is_flat then 0 else pos.market_value (pf.mark_for pos.instrument pos)) pf.positions :=
  Table.foldl_skip_eq_sum _ _ _

theorem Portfolio.gross_exposure_eq_sum (pf : Portfolio) :
    pf.gross_exposure = Table.sum (fun _ pos =>
      if pos.is_flat then 0 else pos.gross_exposure (pf.mark_for pos.instrument pos)) pf.positions :=
  Table.foldl_skip_eq_sum _ _ _

theorem Portfolio.unrealized_pnl_eq_sum (pf : Portfolio) :
    pf.unrealized_pnl = Table.sum (fun _ pos =>
      if pos.is_flat then 0 else pos.unrealized_pnl (pf.mark_for pos.instrument pos)) pf.positions :=
  Table.foldl_skip_eq_sum _ _ _

theorem Portfolio.held_of_some {pf : Portfolio} {instrument : InstrumentId} {pos : Position}
    (hpos : pf.positions[instrument]? = some pos) : pf.held instrument = pos := by
  rw [Portfolio.held, hpos, Option.getD_some]

theorem Portfolio.held_of_none {pf : Portfolio} {instrument : InstrumentId}
    (hpos : pf.positions[instrument]? = none) : pf.held instrument = { instrument } := by
  rw [Portfolio.held, hpos, Option.getD_none]

/-- Writing one position changes a sum over the positions by the difference to
the position that was held, flat if there was none. -/
theorem Portfolio.sum_insert (pf : Portfolio) (f : Position → Rat) (instrument : InstrumentId)
    (pos : Position) (hflat : f { instrument } = 0) :
    Table.sum (fun _ p => f p) (pf.positions.insert instrument pos) =
      Table.sum (fun _ p => f p) pf.positions - f (pf.held instrument) + f pos := by
  cases hheld : pf.positions[instrument]? with
  | none => rw [Table.sum_insert_new _ _ hheld, Portfolio.held_of_none hheld, hflat, sub_zero]
  | some old => rw [Table.sum_insert_existing _ _ hheld, Portfolio.held_of_some hheld]

/-- The quantity held of an instrument, zero without a position. -/
def Portfolio.settledQuantity (pf : Portfolio) (instrument : InstrumentId) : Qty :=
  (pf.position instrument).elim 0 Position.quantity

theorem Portfolio.held_quantity (pf : Portfolio) (instrument : InstrumentId) :
    (pf.held instrument).quantity = pf.settledQuantity instrument := by
  unfold Portfolio.settledQuantity Portfolio.position
  cases hheld : pf.positions[instrument]? with
  | none => rw [Portfolio.held_of_none hheld, Option.elim_none]
  | some pos => rw [Portfolio.held_of_some hheld, Option.elim_some]

/-- What a fill that is not refused does to the portfolio. -/
theorem Portfolio.apply_ok {pf pf' : Portfolio} {fill : Fill} {done : Bool}
    (happly : pf.apply fill = (.ok done, pf')) :
    pf' = { pf with
      positions := pf.positions.insert fill.instrument ((pf.held fill.instrument).apply fill).2
      realized_pnl := pf.realized_pnl + ((pf.held fill.instrument).apply fill).1
      cash := pf.cash + fill.cash_delta
      total_costs := pf.total_costs + fill.total_cost
      turnover := pf.turnover + |fill.price * fill.quantity| } := by
  simp only [Portfolio.apply, is_finite_eq_true, not_true_eq_false, or_self, if_false] at happly
  split at happly
  · cases happly
  · cases happly
    rfl

/-- A fill moves the settled quantity of its own instrument only. -/
theorem Portfolio.settledQuantity_apply {pf pf' : Portfolio} {fill : Fill} {done : Bool}
    (happly : pf.apply fill = (.ok done, pf')) (instrument : InstrumentId) :
    pf'.settledQuantity instrument =
      pf.settledQuantity instrument +
        if fill.instrument = instrument then fill.signed_quantity else 0 := by
  rw [Portfolio.apply_ok happly]
  by_cases hsame : fill.instrument = instrument
  · subst hsame
    rw [if_pos rfl, ← Portfolio.held_quantity pf]
    simp only [Portfolio.settledQuantity, Portfolio.position, Table.getElem?_insert_self,
      Option.elim_some, Position.apply]
  · simp only [Portfolio.settledQuantity, Portfolio.position, Table.getElem?_insert_of_ne _ _ hsame,
      if_neg hsame, add_zero]

theorem Portfolio.held_insert {pf pf' : Portfolio} {instrument : InstrumentId} {pos : Position}
    (hinsert : pf'.positions = pf.positions.insert instrument pos) (other : InstrumentId) :
    pf'.held other = if instrument = other then pos else pf.held other := by
  rw [Portfolio.held, hinsert, Table.getElem?_insert_eq_ite]
  split <;> rfl

theorem Portfolio.apply_split_held (pf : Portfolio) (instrument : InstrumentId) (ratio : Rat)
    (other : InstrumentId) :
    (pf.apply_split instrument ratio).2.held other =
      if instrument = other then (pf.held instrument).apply_split ratio else pf.held other := by
  unfold Portfolio.apply_split
  by_cases hratio : ¬ is_finite ratio ∨ ratio ≤ 0
  · rw [if_pos hratio]
    have hsame : (pf.held instrument).apply_split ratio = pf.held instrument := if_pos hratio
    split
    · rename_i heq
      rw [hsame, heq]
    · rfl
  · rw [if_neg hratio]
    cases hheld : pf.positions[instrument]? with
    | none =>
      have hflat : Position.apply_split { instrument } ratio = { instrument } := by
        simp [Position.apply_split]
      change pf.held other = _
      by_cases heq : instrument = other
      · rw [if_pos heq, Portfolio.held_of_none hheld, hflat, ← heq, Portfolio.held_of_none hheld]
      · rw [if_neg heq]
    | some pos =>
      rw [Portfolio.held_of_some hheld]
      exact Portfolio.held_insert rfl other

/-- Every position is filed under its own instrument. -/
def Portfolio.Keyed (pf : Portfolio) : Prop :=
  ∀ (instrument : InstrumentId) (pos : Position),
    pf.positions[instrument]? = some pos → pos.instrument = instrument

theorem Portfolio.Keyed.held {pf : Portfolio} (hkeyed : pf.Keyed) (instrument : InstrumentId) :
    (pf.held instrument).instrument = instrument := by
  cases hheld : pf.positions[instrument]? with
  | none => rw [Portfolio.held_of_none hheld]
  | some pos =>
    rw [Portfolio.held_of_some hheld]
    exact hkeyed instrument pos hheld

theorem Portfolio.Keyed.insert {pf pf' : Portfolio} (hkeyed : pf.Keyed) {instrument : InstrumentId}
    {pos : Position} (hpos : pos.instrument = instrument)
    (hinsert : pf'.positions = pf.positions.insert instrument pos) : pf'.Keyed := by
  intro other found hfound
  rw [hinsert, Table.getElem?_insert_eq_ite] at hfound
  split at hfound
  · rename_i hsame
    cases hfound
    rw [hpos, hsame]
  · exact hkeyed other found hfound

/-- A position marked at one price on both sides is valued at that price. -/
theorem Portfolio.mark_for_of_marks {pf : Portfolio} {instrument : InstrumentId} {price : Price}
    (hmark : pf.marks[instrument]? = some { bid := price, ask := price }) (pos : Position) :
    pf.mark_for instrument pos = price := by
  simp only [Portfolio.mark_for, hmark]
  split
  · linarith
  · rfl
  · split <;> rfl

end ptl.portfolio
