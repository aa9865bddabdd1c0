import TradingLab.Accounting.Closing
import TradingLab.Accounting.Matching
import TradingLab.Engine.Moves
import TradingLab.Engine.NoShort
import TradingLab.Engine.Sink

open ptl.oms ptl.portfolio ptl.market ptl.risk ptl.execution ptl.accounting
open Std (TreeMap)

set_option linter.dupNamespace false

namespace ptl.engine

variable {R Q : Type} {source : IMarketDataSource Q}

/-- The matcher over the fills so far stands where the book stands, on every
instrument. -/
structure Lockstep (fills : List Fill) (pf : Portfolio) : Prop where
  mirrors : ∀ instrument, Mirrors ((matchFills fills).held instrument) (pf.held instrument)
  pnl_eq : ∀ instrument,
    pnlOf (matchFills fills).trades instrument = (pf.held instrument).realized_pnl

/-- No split changes the quantity of an open position. -/
def Engine.SplitsFlat (e : Engine R) : MarketEvent → Prop
  | .corporateAction c =>
    c.kind = .Split → c.split_ratio = 1 ∨ e.pf.settledQuantity c.instrument = 0
  | _ => True

def Session.SplitsFlat (source : IMarketDataSource Q) (s : Session R Q) : Action → Prop
  | .arrive => ∀ ev ∈ s.upcoming source, s.engine.SplitsFlat ev
  | _ => True

/-- Positions decide the lockstep, not marks or cash. -/
theorem Lockstep.congr {fills : List Fill} {pf pf' : Portfolio} (hlockstep : Lockstep fills pf)
    (hsame : pf'.positions = pf.positions) : Lockstep fills pf' := by
  have hheld : ∀ instrument, pf'.held instrument = pf.held instrument := fun instrument => by
    rw [Portfolio.held, Portfolio.held, hsame]
  exact ⟨fun i => by rw [hheld]; exact hlockstep.mirrors i,
    fun i => by rw [hheld]; exact hlockstep.pnl_eq i⟩

theorem Lockstep.apply {fills : List Fill} {pf pf' : Portfolio} {f : Fill} {done : Bool}
    (hlockstep : Lockstep fills pf) (happly : pf.apply f = (.ok done, pf')) :
    Lockstep (fills ++ [f]) pf' := by
  obtain ⟨hmirrors, hpnl⟩ := (hlockstep.mirrors f.instrument).matchFill f
  have hinsert : pf'.positions = pf.positions.insert f.instrument ((pf.held f.instrument).apply f).2 := by
    rw [Portfolio.apply_ok happly]
  refine ⟨fun i => ?_, fun i => ?_⟩
  · rw [matchFills_append, Matching.step_held, Portfolio.held_insert hinsert]
    split
    · exact hmirrors
    · exact hlockstep.mirrors i
  · rw [matchFills_append, Matching.step_pnlOf, Portfolio.held_insert hinsert, hlockstep.pnl_eq]
    split
    · rename_i hsame
      rw [hpnl, ← hsame]
      rfl
    · rw [add_zero]

theorem Lockstep.apply_split {fills : List Fill} {pf : Portfolio} {instrument : InstrumentId} {ratio : Rat}
    (hlockstep : Lockstep fills pf) (hflat : ratio = 1 ∨ pf.settledQuantity instrument = 0) :
    Lockstep fills (pf.apply_split instrument ratio).2 := by
  rw [← Portfolio.held_quantity] at hflat
  refine ⟨fun i => ?_, fun i => ?_⟩
  · rw [Portfolio.apply_split_held]
    split
    · rename_i hsame
      rw [← hsame]
      exact Mirrors.apply_split (hlockstep.mirrors instrument) hflat
    · exact hlockstep.mirrors i
  · rw [Portfolio.apply_split_held, hlockstep.pnl_eq]
    split
    · rename_i hsame
      rw [← hsame]
      unfold Position.apply_split
      split <;> rfl
    · rfl

def Engine.InLockstep (e : Engine R) : Prop := Lockstep e.journal.fills e.pf

theorem Engine.inLockstep_marked {e : Engine R} {ev : MarketEvent} (hlockstep : e.InLockstep)
    (hsplits : e.SplitsFlat ev) : Lockstep e.journal.fills (e.marked ev) := by
  cases ev with
  | corporateAction c =>
    simp only [Engine.marked]
    cases hkind : c.kind with
    | Split => exact Lockstep.apply_split hlockstep (hsplits hkind)
    | CashDividend =>
      unfold Portfolio.apply_dividend
      dsimp only
      split
      · exact hlockstep
      · exact Lockstep.congr hlockstep rfl
  | bar bar => exact Lockstep.congr hlockstep rfl
  | quote q => exact Lockstep.congr hlockstep rfl
  | trade t => exact hlockstep
  | session ev => exact hlockstep
  | timer t => exact hlockstep

theorem Engine.inLockstep_book_fills {e e' : Engine R} {fs : List Fill} (hlockstep : e.InLockstep)
    (hbook : e.book_fills fs = .ok e') : e'.InLockstep := by
  refine Engine.book_fills_invariant (I := fun e₁ _ => e₁.InLockstep) ?_ hlockstep hbook
  intro e₁ f rest e₂ hbefore hfirst
  obtain ⟨-, ⟨done, happly⟩, heq⟩ := Engine.book_fill_ok hfirst
  have hjournal : e₂.journal = e₁.journal.record_fill f := by rw [heq]
  rw [Engine.InLockstep, hjournal, Journal.record_fill_fills]
  exact Lockstep.apply hbefore happly

theorem Engine.inLockstep_absorb {e e' : Engine R} {now : Timestamp} {ev : MarketEvent}
    (hlockstep : e.InLockstep) (hsplits : e.SplitsFlat ev) (habsorb : e.absorb now ev = .ok e') :
    e'.InLockstep := by
  have hmarked := Engine.inLockstep_marked hlockstep hsplits
  obtain ⟨call, fs, e₁, -, -, -, -, hmatches, hbook⟩ | ⟨-, -, -, hmatches⟩ := Engine.absorb_cases habsorb
  · refine Engine.inLockstep_book_fills ?_ hbook
    rw [Engine.InLockstep, hmatches.journal_eq, hmatches.pf_eq]
    exact hmarked
  · rw [Engine.InLockstep, hmatches.journal_eq, hmatches.pf_eq]
    exact hmarked

/-- Submissions write entries and never fills. -/
theorem Engine.submit_fills (e : Engine R) (order : Order) :
    (e.submit order).2.journal.fills = e.journal.fills ∧ (e.submit order).2.pf = e.pf := by
  obtain ⟨-, heq⟩ | ⟨-, -, heq⟩ | ⟨-, -, err, -, heq⟩ | ⟨-, -, arrival, -, heq⟩ := e.submit_cases order
  · rw [heq]
    exact ⟨Journal.record_risk_rejection_fills _ _ _ _, rfl⟩
  · rw [heq]
    exact ⟨rfl, rfl⟩
  · rw [heq]
    exact ⟨rfl, rfl⟩
  · rw [heq]
    exact ⟨Journal.append_fills _ _, rfl⟩

theorem engineMachine_inLockstep {s : Session R Q}
    (hreach : (engineMachine R source).Reaches (Session.SplitsFlat source) s) : s.engine.InLockstep := by
  refine hreach.invariant (I := fun s => s.engine.InLockstep) ?_ ?_
  · intro s hinitial
    have hpositions : s.engine.pf.positions = ∅ := congrArg Portfolio.positions hinitial.fresh.portfolio_new
    have hnew : Lockstep [] (Portfolio.new s.engine.pf.cfg) :=
      ⟨fun i => ⟨rfl, fun _ => rfl⟩, fun i => rfl⟩
    rw [Engine.InLockstep, hinitial.fresh.journal_empty]
    exact hnew.congr hpositions
  · intro s a t _ hlockstep hguard hstep
    obtain ⟨ev, q, now, e, rfl, -, hnext, habsorb, rfl⟩ | ⟨order, -, rfl⟩ | ⟨id, -, rfl⟩ | ⟨-, rfl⟩ |
      ⟨ev, e, -, -, hsettle, rfl⟩ := Session.step_cases hstep
    · exact Engine.inLockstep_absorb hlockstep (hguard ev (Session.upcoming_of_next hnext)) habsorb
    · obtain ⟨hfills, hpf⟩ := s.engine.submit_fills order
      rw [Engine.InLockstep, hfills, hpf]
      exact hlockstep
    · obtain ⟨-, heq⟩ | ⟨-, heq⟩ := s.engine.cancel_cases id <;> rw [heq] <;> exact hlockstep
    · exact hlockstep
    · have hsettles := Engine.settle_settles hsettle
      obtain ⟨curve, hpf⟩ := hsettles.pf_eq
      rw [Engine.InLockstep, hsettles.journal_eq, hpf]
      exact Lockstep.congr hlockstep rfl

/-- In a run whose splits never change the quantity of an open position, the
trades matched from the fills earn on every instrument what its position
realised, and carry the costs of the fills except those of what is still
open. -/
theorem engineMachine_trades_agree {s : Session R Q}
    (hreach : (engineMachine R source).Reaches (Session.SplitsFlat source) s) :
    (∀ instrument, pnlOf s.engine.journal.match_trades.trades instrument =
        (s.engine.pf.held instrument).realized_pnl) ∧
      costsOf s.engine.journal.match_trades.trades + (matchFills s.engine.journal.fills).openCosts =
        (s.engine.journal.fills.map Fill.total_cost).sum :=
  ⟨(engineMachine_inLockstep hreach).pnl_eq, matchFills_costs _⟩

/-! ### A round trip, and one across a split -/

instance (e : Engine R) : (ev : MarketEvent) → Decidable (e.SplitsFlat ev)
  | .corporateAction c => inferInstanceAs (Decidable (c.kind = .Split →
      c.split_ratio = 1 ∨ e.pf.settledQuantity c.instrument = 0))
  | .bar _ | .quote _ | .trade _ | .session _ | .timer _ => isTrue trivial

instance (s : Session R Q) : (a : Action) → Decidable (s.SplitsFlat source a)
  | .arrive => inferInstanceAs (Decidable (∀ ev ∈ s.upcoming source, s.engine.SplitsFlat ev))
  | .submit _ | .cancel _ | .next_order_id | .settle => isTrue trivial

/-- What the trades of the first instrument earned and what its position
realised. -/
def earned (s : Session Unit Q) : Notional × Notional :=
  (pnlOf s.engine.journal.match_trades.trades 0, (s.engine.pf.held 0).realized_pnl)

/-- Buy, see a split, sell. -/
def acrossSplit : List Action :=
  [.arrive, .submit dayBuy, .settle, .arrive, .settle, .arrive, .settle, .arrive, .submit daySell,
    .settle, .arrive]

/-- Ten shares are bought at a hundred and sold at a hundred and ten, and an
unrelated split passes. -/
theorem engineMachine_trades_agree_roundTrip :
    ∃ s, (engineMachine Unit replay).Reachable s ∧ earned s = (100, 100) ∧
      (∀ instrument, pnlOf s.engine.journal.match_trades.trades instrument =
          (s.engine.pf.held instrument).realized_pnl) ∧
        costsOf s.engine.journal.match_trades.trades + (matchFills s.engine.journal.fills).openCosts =
          (s.engine.journal.fills.map Fill.total_cost).sum := by
  obtain ⟨s, hreach, hearned⟩ := (flatSession_reached (G := Session.SplitsFlat replay)
    [barOf 0 1000, barOf 2000000 1000, splitOf 1 3000000 2, barOf 4000000 1000 110,
      barOf 6000000 1000 110] {} {} (by decide +kernel)).exec_map acrossSplit earned (b := (100, 100))
    (by decide +kernel) (by decide +kernel)
  exact ⟨s, hreach.reachable, hearned, engineMachine_trades_agree hreach⟩

/-- Ten shares bought at a hundred are split in two, and ten of the twenty are
sold at sixty. The position realises a gain of a hundred, the trade a loss of
four hundred. -/
theorem engineMachine_trades_disagree :
    ∃ s, (engineMachine Unit replay).Reachable s ∧
      pnlOf s.engine.journal.match_trades.trades 0 ≠ (s.engine.pf.held 0).realized_pnl := by
  obtain ⟨s, hreach, hearned⟩ := (flatSession_reached
    [barOf 0 1000, barOf 2000000 1000, splitOf 0 3000000 2, barOf 4000000 1000 60,
      barOf 6000000 1000 60] {} {} (by decide +kernel)).exec_map acrossSplit earned (b := (-400, 100))
    (Machine.along_of_forall (fun _ _ => trivial) _ _) (by decide +kernel)
  refine ⟨s, hreach, ?_⟩
  have htrades : pnlOf s.engine.journal.match_trades.trades 0 = -400 := congrArg Prod.fst hearned
  have hrealized : (s.engine.pf.held 0).realized_pnl = 100 := congrArg Prod.snd hearned
  rw [htrades, hrealized]
  norm_num

end ptl.engine

/-! Orders on their way to the venue and back: what a submission sends, what an
event's fills are fills of, and what booking them does to the positions. -/

set_option linter.dupNamespace false

namespace ptl.engine

variable {R S : Type}

/-- An order that is accepted enters, under its own id. -/
theorem Engine.submit_accepted {e : Engine R} {order : Order} {id : OrderId}
    (haccepted : (e.submit order).1 = .ok id) : id = order.id ∧ e.Enters (e.submit order).2 order := by
  obtain ⟨⟨err, hrefused⟩, -⟩ | ⟨hok, henters⟩ := e.submit_enters order
  · cases haccepted.symm.trans hrefused
  · cases haccepted.symm.trans hok
    exact ⟨rfl, henters⟩

/-- An order that is refused adds nothing. -/
theorem Engine.submit_refused {e : Engine R} {order : Order} {err : Error}
    (hrefused : (e.submit order).1 = .error err) : e.Shrinks (e.submit order).2 [] := by
  obtain ⟨-, hshrinks, -⟩ | ⟨hok, -⟩ := e.submit_enters order
  · exact hshrinks
  · cases hrefused.symm.trans hok

/-- An order that is accepted is sent with its side and its instrument. -/
theorem Engine.submit_sends {e : Engine R} {order : Order} {id : OrderId}
    (haccepted : (e.submit order).1 = .ok id) :
    ∃ p, (e.submit order).2.broker.pending = e.broker.pending ++ [p] ∧ p.order.id = order.id ∧
      p.order.instrument = order.instrument ∧ p.order.side = order.side := by
  obtain ⟨p, hpending, -⟩ := (Engine.submit_accepted haccepted).2.pending_eq
  have hgrows : (e.submit order).2.broker.pending ≠ e.broker.pending := by
    rw [hpending]
    simp
  obtain ⟨-, heq⟩ | ⟨-, -, heq⟩ | ⟨-, -, err, herror, heq⟩ | ⟨-, -, arrival, hok, heq⟩ := e.submit_cases order
  · exact absurd (by rw [heq]; rfl) hgrows
  · exact absurd (by rw [heq]) hgrows
  · exact absurd (by rw [heq]; exact BrokerSimulator.submit_error herror) hgrows
  · obtain ⟨stamped, hstamped, -, hsent⟩ := BrokerSimulator.submit_ok hok
    obtain ⟨hid, hinstrument, hside, -, -⟩ := Order.with_arrival_ok hstamped
    obtain ⟨price, hpriced⟩ := e.priced_eq order
    rw [hpriced] at hid hinstrument hside
    rw [heq]
    exact ⟨_, hsent, hid, hinstrument, hside⟩

theorem Engine.cancel_pf (e : Engine R) (id : OrderId) : (e.cancel id).2.pf = e.pf := by
  obtain ⟨-, heq⟩ | ⟨-, heq⟩ := e.cancel_cases id <;> rw [heq]

/-- The fills of an event are fills of orders that were resting. -/
theorem Engine.fillsOf_made {e e' : Engine R} {now : Timestamp} {ev : MarketEvent}
    (habsorb : e.absorb now ev = .ok e') :
    ∀ f ∈ e.fillsOf now ev, ∃ p ∈ e.broker.pending, f.order_id = p.order.id ∧
      f.instrument = p.order.instrument ∧ f.side = p.order.side := by
  obtain ⟨call, fs, -, hcall, hfills, -⟩ | ⟨hnone, -⟩ := Engine.absorb_cases habsorb
  · rw [Engine.fillsOf_call hcall, hfills]
    intro f hf
    obtain ⟨p, hp, price, qty, hmade⟩ := (BrokerSimulator.on_market_matched hfills).fill_made f hf
    obtain ⟨hid, hinstrument, hside, -⟩ := make_fill_ok hmade
    exact ⟨p, hp, hid, hinstrument, hside⟩
  · rw [Engine.fillsOf_none hnone]
    exact fun f hf => absurd hf List.not_mem_nil

/-- A booked fill moves the position of its instrument by what it is for. -/
theorem Engine.book_fill_settled {e e' : Engine R} {f : Fill} (hbook : e.book_fill f = .ok e')
    (i : InstrumentId) :
    e'.pf.settledQuantity i =
      e.pf.settledQuantity i + if f.instrument = i then f.signed_quantity else 0 := by
  obtain ⟨-, ⟨done, happly⟩, -⟩ := Engine.book_fill_ok hbook
  exact Portfolio.settledQuantity_apply happly i

theorem Engine.settle_settled {e e' : Engine R} {ev : MarketEvent} (hsettle : e.settle ev = .ok e')
    (i : InstrumentId) : e'.pf.settledQuantity i = e.pf.settledQuantity i := by
  obtain ⟨curve, hpf⟩ := (Engine.settle_settles hsettle).pf_eq
  rw [hpf]
  rfl

/-- Matching moves no position unless the event is a corporate action. -/
theorem Engine.matched_settled {e matched : Engine R} {now : Timestamp} {ev : MarketEvent} {fills : List Fill}
    (hmatch : (e.observe now ev).match_event ev = (.ok fills, matched))
    (hplain : MarketEvent.isCorporateAction ev = false) (i : InstrumentId) :
    matched.pf.settledQuantity i = e.pf.settledQuantity i := by
  have hmatched : ((e.observe now ev).match_event ev).2 = matched := congrArg Prod.snd hmatch
  rw [← hmatched]
  cases ev with
  | corporateAction c => cases hplain
  | bar bar => rfl
  | quote q => rfl
  | trade t => rfl
  | session ev =>
    simp only [Engine.match_event]
    cases ev.kind <;> rfl
  | timer t => rfl

end ptl.engine
