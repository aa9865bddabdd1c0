import TradingLab.Engine.Agreement
import TradingLab.Execution.Broker.Matching
import TradingLab.Risk.RiskManager

open ptl.oms ptl.portfolio ptl.market ptl.risk ptl.execution ptl.accounting

set_option linter.dupNamespace false

namespace ptl.engine

variable {R Q : Type} {source : IMarketDataSource Q}

/-- Every instrument's position covers what the venue's working sells may
still take from it. -/
def Engine.CanDeliver (e : Engine R) : Prop :=
  ∀ i, -1e-9 ≤ e.pf.settledQuantity i - workingSells e.broker.pending i

def MarketEvent.isCorporateAction : MarketEvent → Bool
  | .corporateAction _ => true
  | _ => false

/-- The position covers an order, besides the working sells and without the
working buys. -/
def Engine.Covers (e : Engine R) (order : Order) : Prop :=
  -1e-9 ≤ e.pf.settledQuantity order.instrument - workingSells e.broker.pending order.instrument -
    order.quantity

/-- No corporate action arrives, and the position covers every sell the gate
lets through. -/
def Session.SellsCovered (source : IMarketDataSource Q) (s : Session R Q) : Action → Prop
  | .arrive => ∀ ev ∈ s.upcoming source, MarketEvent.isCorporateAction ev = false
  | .submit order =>
    order.side = .Sell → (s.engine.decision order).approved = true → s.engine.Covers order
  | _ => True

theorem Engine.Agreed.unfinished {e : Engine R} (hagreed : e.Agreed) :
    ∀ p ∈ e.broker.pending, p.filled ≤ p.order.quantity := by
  intro p hp
  obtain ⟨rec, -, hbacks⟩ := hagreed.backed p hp
  exact le_of_lt hbacks.unfinished

/-- Booking fills takes no more from a position than they sell. -/
theorem Engine.book_fills_settled {e e' : Engine R} {fs : List Fill} (hbook : e.book_fills fs = .ok e')
    (i : InstrumentId) : e.pf.settledQuantity i - sold fs i ≤ e'.pf.settledQuantity i := by
  have hinvariant := Engine.book_fills_invariant
    (I := fun e₁ rest => e.pf.settledQuantity i - sold fs i ≤ e₁.pf.settledQuantity i - sold rest i)
    ?_ (le_refl _) hbook
  · simpa [sold] using hinvariant
  · intro e₁ f rest e₂ hbound hfirst
    obtain ⟨-, ⟨done, happly⟩, -⟩ := Engine.book_fill_ok hfirst
    have hmoved := Portfolio.settledQuantity_apply happly i
    have hpos := f.quantity_pos
    have hfill : -soldBy f i ≤ if f.instrument = i then f.signed_quantity else 0 := by
      unfold soldBy
      by_cases hsame : f.instrument = i
      · cases hside : f.side with
        | Buy =>
          rw [if_pos hsame, Fill.signed_quantity_buy hside, if_neg (by simp)]
          linarith
        | Sell => rw [if_pos hsame, Fill.signed_quantity_sell hside, if_pos ⟨hsame, rfl⟩]
      · rw [if_neg hsame, if_neg fun hsells => hsame hsells.1, neg_zero]
    rw [sold_cons] at hbound
    linarith

theorem Engine.marked_settled (e : Engine R) {ev : MarketEvent}
    (hplain : MarketEvent.isCorporateAction ev = false) (i : InstrumentId) :
    (e.marked ev).settledQuantity i = e.pf.settledQuantity i := by
  cases ev with
  | corporateAction c => cases hplain
  | bar bar => rfl
  | quote q => rfl
  | trade t => rfl
  | session ev => rfl
  | timer t => rfl

theorem Engine.canDeliver_absorb {e e' : Engine R} {now : Timestamp} {ev : MarketEvent}
    (hagreed : e.Agreed) (hdeliver : e.CanDeliver) (hplain : MarketEvent.isCorporateAction ev = false)
    (habsorb : e.absorb now ev = .ok e') : e'.CanDeliver := by
  intro i
  have hbefore := hdeliver i
  obtain ⟨call, fs, e₁, -, hfills, hbroker, -, hmatches, hbook⟩ | ⟨-, hbroker, -, hmatches⟩ :=
    Engine.absorb_cases habsorb
  · have hsold := (BrokerSimulator.on_market_matched hfills).sold_le hagreed.unfinished i
    have hbooked := Engine.book_fills_settled hbook i
    rw [hmatches.pf_eq, e.marked_settled hplain] at hbooked
    rw [Engine.book_fills_broker hbook, hbroker]
    linarith
  · rw [hbroker, hmatches.pf_eq, e.marked_settled hplain]
    exact hbefore

theorem Engine.canDeliver_submit {e : Engine R} (hdeliver : e.CanDeliver) {order : Order}
    (hcovers : order.side = .Sell → (e.decision order).approved = true → e.Covers order) :
    (e.submit order).2.CanDeliver := by
  obtain ⟨-, heq⟩ | ⟨-, -, heq⟩ | ⟨-, -, err, herror, heq⟩ | ⟨happroved, -, arrival, hok, heq⟩ :=
    e.submit_cases order
  · rw [heq]
    exact hdeliver
  · rw [heq]
    exact hdeliver
  · rw [heq]
    simp only [Engine.CanDeliver, BrokerSimulator.submit_error herror]
    exact hdeliver
  · rw [heq]
    obtain ⟨stamped, hstamped, -, hpending⟩ := BrokerSimulator.submit_ok hok
    obtain ⟨-, hinstrument, hside, hquantity, -⟩ := Order.with_arrival_ok hstamped
    obtain ⟨p, hpriced⟩ := e.priced_eq order
    simp only [Engine.CanDeliver, Engine.accepted, hpending, workingSells_append]
    intro i
    have hbefore := hdeliver i
    have hnew : workingSells [{ order := stamped, arrival_time := arrival }] i =
        if order.instrument = i ∧ order.side = .Sell then order.quantity else 0 := by
      simp only [workingSells, List.map_cons, List.map_nil, List.sum_cons, List.sum_nil, PendingOrder.toSell,
        hinstrument, hside, hquantity, hpriced, sub_zero, add_zero]
    rw [hnew]
    split
    · rename_i hsells
      have hcovered := hcovers hsells.2 happroved
      rw [Engine.Covers, hsells.1] at hcovered
      linarith
    · linarith

theorem Engine.canDeliver_cancel {e : Engine R} (hagreed : e.Agreed) (hdeliver : e.CanDeliver)
    (id : OrderId) : (e.cancel id).2.CanDeliver := by
  obtain ⟨-, heq⟩ | ⟨-, heq⟩ := e.cancel_cases id
  · rw [heq]
    exact hdeliver
  · rw [heq]
    intro i
    have hbefore := hdeliver i
    have hless := workingSells_sublist (List.eraseP_sublist (p := fun p : PendingOrder => p.order.id = id))
      hagreed.unfinished i
    dsimp only
    linarith

theorem engineMachine_canDeliver {s : Session R Q}
    (hreach : (engineMachine R source).Reaches (Session.SellsCovered source) s) :
    s.engine.CanDeliver := by
  refine hreach.invariant (I := fun s => s.engine.CanDeliver) ?_ ?_
  · intro s hinitial i
    have hflat : s.engine.pf.settledQuantity i = 0 := by
      rw [hinitial.fresh.portfolio_new]
      rfl
    rw [hinitial.fresh.pending_empty, hflat]
    norm_num [workingSells]
  · intro s a t hreached hdeliver hguard hstep
    have hagreed := engineMachine_agreed hreached.reachable
    obtain ⟨ev, q, now, e, rfl, -, hnext, habsorb, rfl⟩ | ⟨order, rfl, rfl⟩ | ⟨id, -, rfl⟩ | ⟨-, rfl⟩ |
      ⟨ev, e, -, -, hsettle, rfl⟩ := Session.step_cases hstep
    · exact Engine.canDeliver_absorb hagreed hdeliver (hguard ev (Session.upcoming_of_next hnext)) habsorb
    · exact Engine.canDeliver_submit hdeliver hguard
    · exact Engine.canDeliver_cancel hagreed hdeliver id
    · exact hdeliver
    · have hsettles := Engine.settle_settles hsettle
      obtain ⟨curve, hpf⟩ := hsettles.pf_eq
      intro i
      rw [hpf, hsettles.broker_eq]
      exact hdeliver i

/-- A position that can deliver to every working sell is not short. -/
theorem Engine.CanDeliver.not_short {e : Engine R} (hdeliver : e.CanDeliver) (hagreed : e.Agreed)
    {i : InstrumentId} {pos : Position} (hpos : e.pf.positions[i]? = some pos) : -1e-9 ≤ pos.quantity := by
  have hbound := hdeliver i
  have hsells := workingSells_nonneg hagreed.unfinished i
  have hsettled : e.pf.settledQuantity i = pos.quantity := by
    rw [Portfolio.settledQuantity, Portfolio.position, hpos, Option.elim_some]
  linarith

/-- In a run without corporate actions whose approved sells are each covered
by the position without the working buys, no position is ever short. -/
theorem engineMachine_never_short {s : Session R Q}
    (hreach : (engineMachine R source).Reaches (Session.SellsCovered source) s) {i : InstrumentId}
    {pos : Position} (hpos : s.engine.pf.positions[i]? = some pos) : -1e-9 ≤ pos.quantity :=
  (engineMachine_canDeliver hreach).not_short (engineMachine_agreed hreach.reachable) hpos

/-! ### A covered run and a short one -/

instance (e : Engine R) (order : Order) : Decidable (e.Covers order) :=
  inferInstanceAs (Decidable (_ ≤ _))

instance (s : Session R Q) : (a : Action) → Decidable (s.SellsCovered source a)
  | .arrive => inferInstanceAs (Decidable (∀ ev ∈ s.upcoming source,
      MarketEvent.isCorporateAction ev = false))
  | .submit order => inferInstanceAs (Decidable (order.side = .Sell →
      (s.engine.decision order).approved = true → s.engine.Covers order))
  | .cancel _ | .next_order_id | .settle => isTrue trivial

def held (s : Session Unit Q) : Option Qty :=
  (s.engine.pf.positions[(0 : InstrumentId)]?).map Position.quantity

/-- Ten shares are bought and sold again. -/
theorem engineMachine_never_short_roundTrip :
    ∃ s, (engineMachine Unit replay).Reachable s ∧
      ∃ pos, s.engine.pf.positions[(0 : InstrumentId)]? = some pos ∧ pos.quantity = 0 ∧
        -1e-9 ≤ pos.quantity := by
  obtain ⟨s, hreach, hheld⟩ := (flatSession_reached (G := Session.SellsCovered replay)
    [barOf 0 1000, barOf 2000000 1000, barOf 4000000 1000] { allow_short := false } {}
    (by decide +kernel)).exec_map
    [.arrive, .submit dayBuy, .settle, .arrive, .submit daySell, .settle, .arrive] held (b := some 0)
    (by decide +kernel) (by decide +kernel)
  obtain ⟨pos, hpos, hquantity⟩ := Option.map_eq_some_iff.mp hheld
  exact ⟨s, hreach.reachable, pos, hpos, hquantity, engineMachine_never_short hreach hpos⟩

/-- A buy of ten with a limit below the market. -/
def restingBuy : Order := Result.value (Order.limit 1 0 .Buy 10 96 { decision_time := 0 })

/-- A short position the gate let happen: it nets a resting buy against a sell
of as many shares, and the sell fills first. -/
theorem engineMachine_short :
    ∃ s, (engineMachine Unit replay).Reachable s ∧ s.engine.risk.limits.allow_short = false ∧
      ∃ pos, s.engine.pf.positions[(0 : InstrumentId)]? = some pos ∧ pos.quantity < -1e-9 := by
  obtain ⟨s, hreach, hshown⟩ := (flatSession_reached
    [barOf 0 1000, barOf 2000000 1000] { allow_short := false } {} (by decide +kernel)).exec_map
    [.arrive, .submit restingBuy, .submit daySell, .settle, .arrive]
    (fun s => (s.engine.risk.limits.allow_short, held s)) (b := (false, some (-10)))
    (Machine.along_of_forall (fun _ _ => trivial) _ _) (by decide +kernel)
  obtain ⟨pos, hpos, hquantity⟩ := Option.map_eq_some_iff.mp (congrArg Prod.snd hshown)
  refine ⟨s, hreach, congrArg Prod.fst hshown, pos, hpos, ?_⟩
  rw [hquantity]
  norm_num

end ptl.engine
