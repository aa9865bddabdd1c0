import Mathlib.Data.List.Chain
import TradingLab.Attribution.Windows
import TradingLab.Engine.Booking
import TradingLab.Portfolio.Identity

open ptl.oms ptl.portfolio ptl.market ptl.accounting ptl.attribution

namespace ptl.portfolio

/-- The point a snapshot appends. -/
def Portfolio.point (pf : Portfolio) (ts : Timestamp) : EquityPoint where
  ts
  equity := pf.equity
  cash := pf.cash
  gross_exposure := pf.gross_exposure
  net_exposure := pf.net_exposure
  realized_pnl := pf.realized_pnl
  unrealized_pnl := pf.unrealized_pnl
  cumulative_costs := pf.total_costs
  turnover := pf.turnover

theorem Portfolio.snapshot_ok {pf pf' : Portfolio} {ts : Timestamp} {p : EquityPoint}
    (hsnapshot : pf.snapshot ts = (.ok p, pf')) :
    (∀ last ∈ pf.curve.getLast?, last.ts ≤ ts) ∧ pf' = { pf with curve := pf.curve ++ [pf.point ts] } := by
  unfold Portfolio.snapshot at hsnapshot
  split at hsnapshot
  · cases hsnapshot
  · rename_i hforward
    dsimp only at hsnapshot
    split at hsnapshot
    · cases hsnapshot
    · split at hsnapshot
      · cases hsnapshot
      · cases hsnapshot
        refine ⟨fun last hlast => not_lt.mp fun hback => hforward ?_, rfl⟩
        rw [Option.mem_def.mp hlast]
        exact decide_eq_true hback

/-- Without dividends cash and basis hold the initial cash and the profit
realised, less the costs. -/
def Portfolio.Balanced (pf : Portfolio) : Prop := ({ pf } : Ledger).Balanced

theorem Portfolio.Balanced.equity_eq {pf : Portfolio} (hbalanced : pf.Balanced) :
    pf.equity = pf.cfg.initial_cash + pf.realized_pnl + pf.unrealized_pnl - pf.total_costs := by
  have hvalue := pf.position_value_eq
  simp only [Portfolio.Balanced, Ledger.Balanced] at hbalanced
  rw [Portfolio.equity, hvalue]
  linarith

end ptl.portfolio

namespace ptl.attribution

/-! ### A curve and the fills between its points -/

/-- The points of a curve know the costs of the fills up to their time, and
their equity follows from the profits and these costs. -/
structure Booked (initial_cash : Notional) (curve : List EquityPoint) (fills : List Fill) : Prop where
  set : ∀ p ∈ curve, is_set p.ts = true
  ordered : curve.IsChain fun p q => p.ts ≤ q.ts
  equity_eq : ∀ p ∈ curve,
    p.equity = initial_cash + p.realized_pnl + p.unrealized_pnl - p.cumulative_costs
  costs_eq : ∀ p ∈ curve,
    p.cumulative_costs = ((fills.filter fun f => f.fill_time ≤ p.ts).map Fill.total_cost).sum
  first_apart : ∀ p ∈ curve.head?, ∀ f ∈ fills, f.fill_time ≠ p.ts

/-- Every period of the curve is decomposed, nothing of its equity change is
left over, and it is charged for the fills after its beginning up to its end. -/
def Explained (curve : List EquityPoint) (fills : List Fill) : Prop :=
  2 ≤ curve.length → ∃ ds, ({} : PnlAttributor).decompose_series curve fills = .ok ds ∧
    ds.length + 1 = curve.length ∧
    ∀ k b e d, curve[k]? = some b → curve[k + 1]? = some e → ds[k]? = some d →
      d.residual (e.equity - b.equity) = 0 ∧ d.Charges (between b.ts e.ts fills)

section Booked

variable {initial_cash : Notional} {curve : List EquityPoint} {fills : List Fill}

/-- The costs between two points are those of the fills between them. -/
theorem sum_between {first last : Timestamp} (horder : first ≤ last) (fills : List Fill) :
    ((between first last fills).map Fill.total_cost).sum =
      ((fills.filter fun f => f.fill_time ≤ last).map Fill.total_cost).sum -
        ((fills.filter fun f => f.fill_time ≤ first).map Fill.total_cost).sum := by
  induction fills with
  | nil => simp [between]
  | cons f fills ih =>
    simp only [between] at ih ⊢
    rcases le_or_gt f.fill_time first with hbefore | hafter
    · have hlast : f.fill_time ≤ last := hbefore.trans horder
      simp only [List.filter_cons, hbefore, hlast, not_lt.mpr hbefore, false_and, decide_true, decide_false,
        Bool.false_eq_true, if_true, if_false, List.map_cons, List.sum_cons, ih]
      ring
    · rcases le_or_gt f.fill_time last with hwithin | hbeyond
      · simp only [List.filter_cons, hafter, hwithin, not_le.mpr hafter, and_self, decide_true, decide_false,
          Bool.false_eq_true, if_true, if_false, List.map_cons, List.sum_cons, ih]
        ring
      · simp only [List.filter_cons, not_le.mpr hafter, not_le.mpr hbeyond, and_false, decide_false,
          Bool.false_eq_true, if_false, ih]

/-- What a period of a booked curve leaves unexplained is the slippage of its
fills. -/
theorem Booked.residual_eq (hbooked : Booked initial_cash curve fills) {k : Nat} {b e : EquityPoint}
    {d : PnlDecomposition} (hb : curve[k]? = some b) (he : curve[k + 1]? = some e)
    (hspans : d.Spans b e (between b.ts e.ts fills)) :
    d.residual (e.equity - b.equity) = ((between b.ts e.ts fills).map slippage_cost).sum := by
  have hbmem := List.mem_of_getElem? hb
  have hemem := List.mem_of_getElem? he
  have horder : b.ts ≤ e.ts := by
    obtain ⟨hk, rfl⟩ := List.getElem?_eq_some_iff.mp hb
    obtain ⟨hk', rfl⟩ := List.getElem?_eq_some_iff.mp he
    exact List.isChain_iff_getElem.mp hbooked.ordered k hk'
  have hcosts := sum_between horder fills
  rw [← hbooked.costs_eq b hbmem, ← hbooked.costs_eq e hemem] at hcosts
  have hequity : e.equity - b.equity = (e.realized_pnl - b.realized_pnl) +
      (e.unrealized_pnl - b.unrealized_pnl) - (e.cumulative_costs - b.cumulative_costs) := by
    rw [hbooked.equity_eq b hbmem, hbooked.equity_eq e hemem]
    ring
  rw [hspans.residual_eq hequity, hcosts]
  ring

theorem Booked.explained (hbooked : Booked initial_cash curve fills)
    (harrival : ∀ f ∈ fills, slippage_cost f = 0) : Explained curve fills := by
  intro htwo
  obtain ⟨ds, hds, hall⟩ := decompose_series_ok htwo hbooked.set hbooked.ordered hbooked.first_apart
  refine ⟨ds, hds, hall.length_eq, fun k b e d hb he hd => ⟨?_, (hall.at hb he hd).toCharges⟩⟩
  rw [hbooked.residual_eq hb he (hall.at hb he hd)]
  refine List.sum_eq_zero fun cost hcost => ?_
  obtain ⟨f, hf, rfl⟩ := List.mem_map.mp hcost
  exact harrival f (List.mem_filter.mp hf).1

theorem Booked.empty (initial_cash : Notional) : Booked initial_cash [] [] where
  set _ hp := absurd hp List.not_mem_nil
  ordered := .nil
  equity_eq _ hp := absurd hp List.not_mem_nil
  costs_eq _ hp := absurd hp List.not_mem_nil
  first_apart _ _ _ hf := absurd hf List.not_mem_nil

/-- A fill after all points is booked after them. -/
theorem Booked.append_fill (hbooked : Booked initial_cash curve fills) {f : Fill}
    (hafter : ∀ p ∈ curve, p.ts < f.fill_time) : Booked initial_cash curve (fills ++ [f]) := by
  refine { hbooked with costs_eq := fun p hp => ?_, first_apart := fun p hp g hg => ?_ }
  · have hlater : [f].filter (fun g => g.fill_time ≤ p.ts) = [] := by
      simp [not_le.mpr (hafter p hp)]
    rw [List.filter_append, hlater, List.append_nil]
    exact hbooked.costs_eq p hp
  · rcases List.mem_append.mp hg with hold | hnew
    · exact hbooked.first_apart p hp g hold
    · rw [List.mem_singleton.mp hnew]
      exact ne_of_gt (hafter p (List.mem_of_mem_head? hp))

/-- A point no earlier than the fills, and later than those before a first
one, counts them all. -/
theorem Booked.append_point (hbooked : Booked initial_cash curve fills) {p : EquityPoint}
    (hset : is_set p.ts = true) (hlast : ∀ last ∈ curve.getLast?, last.ts ≤ p.ts)
    (hequity : p.equity = initial_cash + p.realized_pnl + p.unrealized_pnl - p.cumulative_costs)
    (hcosts : p.cumulative_costs = (fills.map Fill.total_cost).sum)
    (hfills : ∀ f ∈ fills, f.fill_time ≤ p.ts ∧ (curve = [] → f.fill_time ≠ p.ts)) :
    Booked initial_cash (curve ++ [p]) fills where
  set q hq := by
    rcases List.mem_append.mp hq with hold | hnew
    · exact hbooked.set q hold
    · rw [List.mem_singleton.mp hnew]
      exact hset
  ordered := by
    refine List.isChain_append.mpr ⟨hbooked.ordered, .singleton p, fun last hmem q hq => ?_⟩
    cases hq
    exact hlast last hmem
  equity_eq q hq := by
    rcases List.mem_append.mp hq with hold | hnew
    · exact hbooked.equity_eq q hold
    · rw [List.mem_singleton.mp hnew]
      exact hequity
  costs_eq q hq := by
    rcases List.mem_append.mp hq with hold | hnew
    · exact hbooked.costs_eq q hold
    · rw [List.mem_singleton.mp hnew, hcosts]
      congr 2
      exact (List.filter_eq_self.mpr fun f hf => decide_eq_true (hfills f hf).1).symm
  first_apart q hq f hf := by
    cases hcurve : curve with
    | nil =>
      rw [hcurve] at hq
      cases hq
      exact (hfills f hf).2 hcurve
    | cons first rest =>
      rw [hcurve] at hq
      exact hbooked.first_apart q (hcurve ▸ hq) f hf

end Booked

end ptl.attribution

set_option linter.dupNamespace false

namespace ptl.engine

variable {R Q : Type} {source : IMarketDataSource Q}

/-! ### Runs -/

def MarketEvent.isDividend : MarketEvent → Bool
  | .corporateAction c => c.kind = .CashDividend
  | _ => false

/-- The fills the venue returns for an event. -/
def Engine.comingFills (e : Engine R) (ev : MarketEvent) : List Fill :=
  (e.marketCall ev).elim [] fun call =>
    ((e.broker.on_market call.instrument call.state call.now).1.toOption).getD []

/-- The time of the point an event ends with, if it does. -/
def Engine.pointTime (e : Engine R) : MarketEvent → Option Timestamp
  | .bar bar => if e.cfg.snapshot_on_bar then some bar.close_time else none
  | .session ev =>
    match ev.kind with
    | .Open => none
    | .Close => if e.cfg.snapshot_on_session_close then some ev.time.exchange_time else none
  | _ => none

/-- No fill of the event comes at the time of a point there is, or before it. -/
def Engine.FillsApart (e : Engine R) (ev : MarketEvent) : Prop :=
  ∀ f ∈ e.comingFills ev, ∀ p ∈ e.pf.curve, p.ts < f.fill_time

/-- No fill so far is later than the point the event ends with, nor at its time
where it is the first. -/
def Engine.PointsApart (e : Engine R) (ev : MarketEvent) : Prop :=
  ∀ ts ∈ e.pointTime ev, is_set ts = true ∧
    ∀ f ∈ e.journal.fills, f.fill_time ≤ ts ∧ (e.pf.curve = [] → f.fill_time ≠ ts)

/-- No dividend arrives. -/
def Session.WithoutDividends (source : IMarketDataSource Q) (s : Session R Q) : Action → Prop
  | .arrive => ∀ ev ∈ s.upcoming source, MarketEvent.isDividend ev = false
  | _ => True

/-- No dividend arrives, and fills and points keep apart. -/
def Session.KeepsApart (source : IMarketDataSource Q) (s : Session R Q) : Action → Prop
  | .arrive => ∀ ev ∈ s.upcoming source, MarketEvent.isDividend ev = false ∧ s.engine.FillsApart ev
  | .settle => ∀ ev ∈ s.handling, s.engine.PointsApart ev
  | _ => True

/-- What is more, every fill is at its arrival price, or has none. -/
def Session.FillsAtArrival (source : IMarketDataSource Q) (s : Session R Q) : Action → Prop
  | .arrive => ∀ ev ∈ s.upcoming source, MarketEvent.isDividend ev = false ∧ s.engine.FillsApart ev ∧
      ∀ f ∈ s.engine.comingFills ev, f.price = f.arrival_price ∨ f.arrival_price ≤ 0
  | .settle => ∀ ev ∈ s.handling, s.engine.PointsApart ev
  | _ => True

/-- The portfolio balances without dividends, and its curve is booked with the
fills of the journal. -/
structure Engine.Accounted (e : Engine R) : Prop where
  balanced : e.pf.Balanced
  costs_eq : e.pf.total_costs = (e.journal.fills.map Fill.total_cost).sum
  booked : Booked e.pf.cfg.initial_cash e.pf.curve e.journal.fills

theorem Engine.accounted_book_fills {e e' : Engine R} {fs : List Fill} (haccounted : e.Accounted)
    (hapart : ∀ f ∈ fs, ∀ p ∈ e.pf.curve, p.ts < f.fill_time) (hbook : e.book_fills fs = .ok e') :
    e'.Accounted := by
  refine (Engine.book_fills_invariant (I := fun e₁ rest => e₁.Accounted ∧
    ∀ f ∈ rest, ∀ p ∈ e₁.pf.curve, p.ts < f.fill_time) ?_ ⟨haccounted, hapart⟩ hbook).1
  rintro e₁ f rest e₂ ⟨hbefore, hafter⟩ hfirst
  obtain ⟨-, ⟨done, happly⟩, heq⟩ := Engine.book_fill_ok hfirst
  have hjournal : e₂.journal.fills = e₁.journal.fills ++ [f] := by
    rw [heq]
    exact Journal.record_fill_fills _ _
  have hpf := Portfolio.apply_ok happly
  have hbalanced : e₂.pf.Balanced := by
    have hkept := Ledger.balanced_apply hbefore.balanced f
    rwa [Ledger.operate, happly] at hkept
  refine ⟨⟨hbalanced, ?_, ?_⟩, ?_⟩
  · rw [hjournal, List.map_append, List.sum_append, List.map_singleton, List.sum_singleton, hpf,
      ← hbefore.costs_eq]
  · rw [hjournal, hpf]
    exact hbefore.booked.append_fill (hafter f List.mem_cons_self)
  · rw [hpf]
    exact fun g hg => hafter g (List.mem_cons_of_mem _ hg)

theorem Engine.accounted_marked {e e₁ : Engine R} {ev : MarketEvent} (haccounted : e.Accounted)
    (hplain : MarketEvent.isDividend ev = false) (hjournal : e₁.journal = e.journal) (hpf : e₁.pf = e.marked ev) :
    e₁.Accounted ∧ e₁.pf.curve = e.pf.curve := by
  have hmarked : (e.marked ev).Balanced ∧ (e.marked ev).total_costs = e.pf.total_costs ∧
      (e.marked ev).cfg = e.pf.cfg ∧ (e.marked ev).curve = e.pf.curve := by
    cases ev with
    | corporateAction c =>
      cases hkind : c.kind with
      | Split =>
        have hsplit := Ledger.balanced_apply_split haccounted.balanced c.instrument c.split_ratio
        simp only [Engine.marked, hkind]
        refine ⟨hsplit, ?_⟩
        unfold Portfolio.apply_split
        split <;> exact ⟨rfl, rfl, rfl⟩
      | CashDividend => simp [MarketEvent.isDividend, hkind] at hplain
    | bar bar => exact ⟨haccounted.balanced, rfl, rfl, rfl⟩
    | quote q => exact ⟨haccounted.balanced, rfl, rfl, rfl⟩
    | trade t => exact ⟨haccounted.balanced, rfl, rfl, rfl⟩
    | session ev => exact ⟨haccounted.balanced, rfl, rfl, rfl⟩
    | timer t => exact ⟨haccounted.balanced, rfl, rfl, rfl⟩
  obtain ⟨hbalanced, hcosts, hcfg, hcurve⟩ := hmarked
  refine ⟨⟨hpf ▸ hbalanced, ?_, ?_⟩, hpf ▸ hcurve⟩
  · rw [hpf, hcosts, hjournal]
    exact haccounted.costs_eq
  · rw [hpf, hcfg, hcurve, hjournal]
    exact haccounted.booked

theorem Engine.accounted_absorb {e e' : Engine R} {now : Timestamp} {ev : MarketEvent} (haccounted : e.Accounted)
    (hplain : MarketEvent.isDividend ev = false) (hapart : e.FillsApart ev) (habsorb : e.absorb now ev = .ok e') :
    e'.Accounted := by
  obtain ⟨call, fs, e₁, hcall, hfills, -, -, hmatches, hbook⟩ | ⟨-, -, -, hmatches⟩ := Engine.absorb_cases habsorb
  · obtain ⟨hmarked, hcurve⟩ := Engine.accounted_marked haccounted hplain hmatches.journal_eq hmatches.pf_eq
    have hcoming : e.comingFills ev = fs := by
      rw [Engine.comingFills, hcall, Option.elim_some, hfills]
      rfl
    refine Engine.accounted_book_fills hmarked ?_ hbook
    rw [hcurve]
    exact hcoming ▸ hapart
  · exact (Engine.accounted_marked haccounted hplain hmatches.journal_eq hmatches.pf_eq).1

theorem Engine.snapshot_point {e e' : Engine R} {ts : Timestamp} (hsnapshot : e.snapshot ts = .ok e') :
    (∀ last ∈ e.pf.curve.getLast?, last.ts ≤ ts) ∧
      e'.pf = { e.pf with curve := e.pf.curve ++ [e.pf.point ts] } := by
  unfold Engine.snapshot at hsnapshot
  split at hsnapshot
  · cases hsnapshot
  · rename_i hpoint
    cases hsnapshot
    exact Portfolio.snapshot_ok hpoint

/-- An event ends with a point of its time, or leaves the portfolio alone. -/
theorem Engine.close_event_point {e e' : Engine R} {ev : MarketEvent} (hclose : e.close_event ev = .ok e') :
    (e.pointTime ev = none ∧ e'.pf = e.pf) ∨ ∃ ts, e.pointTime ev = some ts ∧
      (∀ last ∈ e.pf.curve.getLast?, last.ts ≤ ts) ∧
        e'.pf = { e.pf with curve := e.pf.curve ++ [e.pf.point ts] } := by
  cases ev with
  | bar bar =>
    simp only [Engine.close_event] at hclose
    split at hclose
    · rename_i htaken
      have hpoint := Engine.snapshot_point hclose
      exact .inr ⟨bar.close_time, if_pos htaken, hpoint⟩
    · rename_i hnone
      cases hclose
      exact .inl ⟨if_neg hnone, rfl⟩
  | session ev =>
    simp only [Engine.close_event] at hclose
    simp only [Engine.pointTime]
    cases hkind : ev.kind with
    | Open =>
      rw [hkind] at hclose
      cases hclose
      exact .inl ⟨rfl, rfl⟩
    | Close =>
      rw [hkind] at hclose
      dsimp only at hclose ⊢
      split at hclose
      · rename_i htaken
        exact .inr ⟨ev.time.exchange_time, if_pos htaken, Engine.snapshot_point hclose⟩
      · rename_i hnone
        cases hclose
        exact .inl ⟨if_neg hnone, rfl⟩
  | quote q =>
    cases hclose
    exact .inl ⟨rfl, rfl⟩
  | trade t =>
    cases hclose
    exact .inl ⟨rfl, rfl⟩
  | corporateAction c =>
    cases hclose
    exact .inl ⟨rfl, rfl⟩
  | timer t =>
    cases hclose
    exact .inl ⟨rfl, rfl⟩

theorem Engine.accounted_settle {e e' : Engine R} {ev : MarketEvent} (haccounted : e.Accounted)
    (hapart : e.PointsApart ev) (hsettle : e.settle ev = .ok e') : e'.Accounted := by
  have hjournal := (Engine.settle_settles hsettle).journal_eq
  obtain ⟨closed, hclose, hpf⟩ : ∃ closed, e.close_event ev = .ok closed ∧ e'.pf = closed.pf := by
    unfold Engine.settle at hsettle
    cases hclose : e.close_event ev with
    | error err =>
      rw [hclose] at hsettle
      cases hsettle
    | ok closed =>
      rw [hclose] at hsettle
      cases hsettle
      refine ⟨closed, rfl, ?_⟩
      unfold Engine.track_peak
      dsimp only
      split <;> rfl
  obtain ⟨-, hsame⟩ | ⟨ts, htime, hlast, htaken⟩ := Engine.close_event_point hclose
  · refine ⟨?_, ?_, ?_⟩ <;> rw [hpf, hsame]
    · exact haccounted.balanced
    · rw [hjournal]
      exact haccounted.costs_eq
    · rw [hjournal]
      exact haccounted.booked
  · obtain ⟨hset, hfills⟩ := hapart ts htime
    refine ⟨?_, ?_, ?_⟩ <;> rw [hpf, htaken]
    · exact haccounted.balanced
    · rw [hjournal]
      exact haccounted.costs_eq
    · rw [hjournal]
      exact haccounted.booked.append_point hset hlast haccounted.balanced.equity_eq haccounted.costs_eq hfills

/-- While fills and points keep apart, every point counts the fills up to its
time. -/
theorem engineMachine_accounted {s : Session R Q}
    (hreach : (engineMachine R source).Reaches (Session.KeepsApart source) s) : s.engine.Accounted := by
  refine hreach.invariant (I := fun s => s.engine.Accounted) ?_ ?_
  · intro s hinitial
    obtain ⟨-, -, hpf, hjournal⟩ := hinitial.fresh
    have hfills : s.engine.journal.fills = [] := by rw [hjournal]
    refine ⟨?_, ?_, ?_⟩ <;> rw [hpf]
    · simp [Portfolio.Balanced, Ledger.Balanced, Portfolio.new, Portfolio.basis]
    · rw [hfills]
      rfl
    · rw [hfills]
      exact .empty _
  · intro s a t _ haccounted hguard hstep
    obtain ⟨ev, q, now, e, rfl, -, hnext, habsorb, rfl⟩ | ⟨order, -, rfl⟩ | ⟨id, -, rfl⟩ | ⟨-, rfl⟩ |
      ⟨ev, e, rfl, hhandling, hsettle, rfl⟩ := Session.step_cases hstep
    · obtain ⟨hplain, hapart⟩ := hguard ev (Session.upcoming_of_next hnext)
      exact Engine.accounted_absorb haccounted hplain hapart habsorb
    · obtain ⟨hfills, hpf⟩ := s.engine.submit_fills order
      refine ⟨?_, ?_, ?_⟩ <;> rw [hpf]
      · exact haccounted.balanced
      · rw [hfills]
        exact haccounted.costs_eq
      · rw [hfills]
        exact haccounted.booked
    · obtain ⟨-, heq⟩ | ⟨-, heq⟩ := s.engine.cancel_cases id <;> rw [heq]
      · exact haccounted
      · exact ⟨haccounted.balanced, haccounted.costs_eq, haccounted.booked⟩
    · exact ⟨haccounted.balanced, haccounted.costs_eq, haccounted.booked⟩
    · exact Engine.accounted_settle haccounted (hguard ev hhandling) hsettle

/-- What an absorbed event adds to the journal's fills. -/
theorem Engine.absorb_fills {e e' : Engine R} {now : Timestamp} {ev : MarketEvent}
    (habsorb : e.absorb now ev = .ok e') : e'.journal.fills = e.journal.fills ++ e.comingFills ev := by
  obtain ⟨call, fs, e₁, hcall, hfills, -, -, hmatches, hbook⟩ | ⟨hnone, -, -, hmatches⟩ :=
    Engine.absorb_cases habsorb
  · have hcoming : e.comingFills ev = fs := by
      rw [Engine.comingFills, hcall, Option.elim_some, hfills]
      rfl
    have hbooked := Engine.book_fills_invariant (I := fun e₂ rest =>
      e₂.journal.fills ++ rest = e.journal.fills ++ fs) (fun e₂ f rest e₃ hbefore hfirst => by
        obtain ⟨-, -, heq⟩ := Engine.book_fill_ok hfirst
        rw [heq, ← hbefore]
        simp only [Journal.record_fill_fills, List.append_assoc, List.singleton_append])
      (by rw [hmatches.journal_eq]) hbook
    rw [List.append_nil] at hbooked
    rw [hbooked, hcoming]
  · rw [hmatches.journal_eq, Engine.comingFills, hnone, Option.elim_none, List.append_nil]

theorem slippage_cost_of_arrival {f : Fill} (harrival : f.price = f.arrival_price ∨ f.arrival_price ≤ 0) :
    slippage_cost f = 0 := by
  unfold slippage_cost
  split
  · rename_i hpositive
    rcases harrival with hsame | hnone
    · have hbps : f.slippage_bps = 0 := by
        rw [Fill.slippage_bps, hsame, div_self (ne_of_gt hpositive.2)]
        simp
      rw [hbps]
      ring
    · exact absurd hpositive.2 (not_lt.mpr hnone)
  · rfl

theorem engineMachine_fills_at_arrival {s : Session R Q}
    (hreach : (engineMachine R source).Reaches (Session.FillsAtArrival source) s) :
    ∀ f ∈ s.engine.journal.fills, slippage_cost f = 0 := by
  refine hreach.invariant (I := fun s => ∀ f ∈ s.engine.journal.fills, slippage_cost f = 0) ?_ ?_
  · intro s hinitial f hf
    have hfills : s.engine.journal.fills = [] := by rw [hinitial.fresh.journal_empty]
    rw [hfills] at hf
    exact absurd hf List.not_mem_nil
  · intro s a t _ hbefore hguard hstep
    obtain ⟨ev, q, now, e, rfl, -, hnext, habsorb, rfl⟩ | ⟨order, -, rfl⟩ | ⟨id, -, rfl⟩ | ⟨-, rfl⟩ |
      ⟨ev, e, -, -, hsettle, rfl⟩ := Session.step_cases hstep
    · intro f hf
      rw [Engine.absorb_fills habsorb] at hf
      rcases List.mem_append.mp hf with hold | hnew
      · exact hbefore f hold
      · exact slippage_cost_of_arrival ((hguard ev (Session.upcoming_of_next hnext)).2.2 f hnew)
    · rw [(s.engine.submit_fills order).1]
      exact hbefore
    · obtain ⟨-, heq⟩ | ⟨-, heq⟩ := s.engine.cancel_cases id <;> rw [heq] <;> exact hbefore
    · exact hbefore
    · rw [(Engine.settle_settles hsettle).journal_eq]
      exact hbefore

/-- In a run without dividends, whose fills are at their arrival prices and keep
apart from the points of the curve, the decomposition closes. -/
theorem engineMachine_explained {s : Session R Q}
    (hreach : (engineMachine R source).Reaches (Session.FillsAtArrival source) s) :
    Explained s.engine.pf.curve s.engine.journal.fills := by
  have happart : (engineMachine R source).Reaches (Session.KeepsApart source) s := by
    refine hreach.mono fun s a _ hguard => ?_
    cases a with
    | arrive => exact fun ev hev => ⟨(hguard ev hev).1, (hguard ev hev).2.1⟩
    | settle => exact hguard
    | submit order => trivial
    | cancel id => trivial
    | next_order_id => trivial
  exact (engineMachine_accounted happart).booked.explained (engineMachine_fills_at_arrival hreach)

/-! ### A buy between two closes -/

instance (e : Engine R) (ev : MarketEvent) : Decidable (e.FillsApart ev) :=
  inferInstanceAs (Decidable (∀ f ∈ e.comingFills ev, ∀ p ∈ e.pf.curve, p.ts < f.fill_time))

instance (e : Engine R) (ev : MarketEvent) : Decidable (e.PointsApart ev) :=
  inferInstanceAs (Decidable (∀ ts ∈ e.pointTime ev, is_set ts = true ∧
    ∀ f ∈ e.journal.fills, f.fill_time ≤ ts ∧ (e.pf.curve = [] → f.fill_time ≠ ts)))

instance (s : Session R Q) : (a : Action) → Decidable (s.KeepsApart source a)
  | .arrive => inferInstanceAs (Decidable (∀ ev ∈ s.upcoming source,
      MarketEvent.isDividend ev = false ∧ s.engine.FillsApart ev))
  | .settle => inferInstanceAs (Decidable (∀ ev ∈ s.handling, s.engine.PointsApart ev))
  | .submit _ | .cancel _ | .next_order_id => isTrue trivial

instance (s : Session R Q) : (a : Action) → Decidable (s.FillsAtArrival source a)
  | .arrive => inferInstanceAs (Decidable (∀ ev ∈ s.upcoming source,
      MarketEvent.isDividend ev = false ∧ s.engine.FillsApart ev ∧
        ∀ f ∈ s.engine.comingFills ev, f.price = f.arrival_price ∨ f.arrival_price ≤ 0))
  | .settle => inferInstanceAs (Decidable (∀ ev ∈ s.handling, s.engine.PointsApart ev))
  | .submit _ | .cancel _ | .next_order_id => isTrue trivial

/-- The close of a session at this time. -/
def closeAt (ts : Timestamp) : MarketEvent :=
  .session { time := { exchange_time := ts, receive_time := ts }, kind := .Close }

/-- A buy sent before the first close fills on the bar after it. -/
def acrossClose : List Action :=
  [.arrive, .submit dayBuy, .settle, .arrive, .settle, .arrive, .settle, .arrive, .settle]

/-- When the points were taken, and what the fills between them slipped. -/
def slipped (s : Session Unit Q) : List Timestamp × Notional :=
  (s.engine.pf.curve.map EquityPoint.ts,
    ((between 1000000 4000000 s.engine.journal.fills).map slippage_cost).sum)

/-- The bar is at the price the buy arrived at. -/
theorem engineMachine_explained_acrossClose :
    ∃ s, (engineMachine Unit replay).Reachable s ∧ s.engine.pf.curve.length = 2 ∧
      Explained s.engine.pf.curve s.engine.journal.fills := by
  obtain ⟨s, hreach, htwo⟩ := (flatSession_reached (G := Session.FillsAtArrival replay)
    [barOf 0 1000, closeAt 1000000, barOf 3000000 1000, closeAt 4000000] {} {} (by decide +kernel)).exec_map
    acrossClose (fun s => s.engine.pf.curve.length) (b := 2) (by decide +kernel) (by decide +kernel)
  exact ⟨s, hreach.reachable, htwo, engineMachine_explained hreach⟩

/-- The bar is ten above it. The ten shares are worth what they were bought
for, so the equity stays, but the decomposition subtracts a hundred. -/
theorem engineMachine_unexplained :
    ¬ ∀ s, (engineMachine Unit replay).Reaches (Session.WithoutDividends replay) s →
      Explained s.engine.pf.curve s.engine.journal.fills := by
  intro hexplains
  obtain ⟨s, hreach, hslipped⟩ := (flatSession_reached (G := Session.KeepsApart replay)
    [barOf 0 1000, closeAt 1000000, barOf 3000000 1000 110, closeAt 4000000] {} {}
    (by decide +kernel)).exec_map acrossClose slipped (b := ([1000000, 4000000], 100))
    (by decide +kernel) (by decide +kernel)
  have hundivided : (engineMachine Unit replay).Reaches (Session.WithoutDividends replay) s := by
    refine hreach.mono fun s a _ hguard => ?_
    cases a with
    | arrive => exact fun ev hev => (hguard ev hev).1
    | submit order => trivial
    | cancel id => trivial
    | next_order_id => trivial
    | settle => trivial
  have hbooked := (engineMachine_accounted hreach).booked
  have hslippage : ((between 1000000 4000000 s.engine.journal.fills).map slippage_cost).sum = 100 :=
    congrArg Prod.snd hslipped
  obtain ⟨b, rest, hcurve, hb, hrest⟩ := List.map_eq_cons_iff.mp (congrArg Prod.fst hslipped)
  obtain ⟨e, last, hlast, he, hnone⟩ := List.map_eq_cons_iff.mp hrest
  rw [List.map_eq_nil_iff.mp hnone] at hlast
  rw [hcurve, hlast] at hbooked
  have htwo : 2 ≤ [b, e].length := le_rfl
  obtain ⟨ds, hds, hall⟩ := decompose_series_ok htwo hbooked.set hbooked.ordered hbooked.first_apart
  obtain ⟨ds', hds', -, hzero⟩ := hexplains s hundivided (by simp [hcurve, hlast])
  rw [hcurve, hlast, hds] at hds'
  cases hds'
  cases hall with
  | cons hspans hnil =>
    have hresidual := hbooked.residual_eq (k := 0) rfl rfl hspans
    have hclosed := (hzero 0 b e _ (by simp [hcurve, hlast]) (by simp [hcurve, hlast]) rfl).1
    rw [hb, he, hslippage, hclosed] at hresidual
    norm_num at hresidual

end ptl.engine
