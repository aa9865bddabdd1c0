import TradingLab.Engine.Agreement
import TradingLab.Engine.Moves
import TradingLab.Execution.Broker.Matching

/-! Only a bar measures a volume, and where none is measured the venue's simulator
executes nothing. -/

open ptl.oms ptl.portfolio ptl.market ptl.risk ptl.execution ptl.accounting

namespace ptl.execution

variable {R : Type} {costs : ICostModel R} {cfg : FillConfig} {instrument : InstrumentId}
  {state : MarketState} {now : Timestamp} {budget : Rat}

/-- As no bar has touched it: no volume, and that counts as known. -/
structure MarketState.Unmeasured (state : MarketState) : Prop where
  known : state.volume_known = true
  volume_eq : state.interval_volume = 0

variable (cfg) in
theorem available_unmeasured (hstate : state.Unmeasured) (hbudget : budget ≤ 0) (side : Side) (want : Qty)
    (stats : ExecutionStats) : (available cfg state side budget want stats).1 = none := by
  rw [available_fst]
  split
  · rfl
  · rw [if_neg fun hbinds => absurd hbinds.1 (not_lt.mpr hbudget), if_pos ⟨hstate.known, hstate.volume_eq.le⟩]

theorem PendingOrder.decideLive_unmeasured (hstate : state.Unmeasured) (hbudget : budget ≤ 0)
    (p q : PendingOrder) (allowed : Qty) (stats : ExecutionStats) :
    (p.decideLive cfg state budget stats).1 ≠ .execute q allowed := by
  have hnone := available_unmeasured cfg hstate hbudget p.order.side (p.order.quantity - p.filled) stats
  unfold PendingOrder.decideLive
  dsimp only
  split
  · nofun
  · split
    · nofun
    · revert hnone
      rcases available cfg state p.order.side budget (p.order.quantity - p.filled) stats with ⟨size, counted⟩
      rintro rfl
      nofun

theorem PendingOrder.decision_unmeasured (hstate : state.Unmeasured) (hbudget : budget ≤ 0)
    (p q : PendingOrder) (allowed : Qty) :
    p.decision cfg instrument state now budget ≠ .execute q allowed := by
  unfold PendingOrder.decision PendingOrder.decide
  split
  · nofun
  · split
    · nofun
    · split
      · nofun
      · split
        · exact PendingOrder.decideLive_unmeasured hstate hbudget _ _ _ _
        · exact PendingOrder.decideLive_unmeasured hstate hbudget _ _ _ _

theorem Matched.unmeasured {rng : R} {ps rest : List PendingOrder} {fs : List Fill}
    (hmatched : Matched costs cfg instrument state now budget rng ps fs rest) (hstate : state.Unmeasured)
    (hbudget : budget ≤ 0) : fs = [] := by
  induction hmatched with
  | nil => rfl
  | keep _ _ ih => exact ih hbudget
  | erase _ _ ih => exact ih hbudget
  | execute hdecision _ _ _ =>
    exact absurd hdecision (PendingOrder.decision_unmeasured hstate hbudget _ _ _)

/-- The budget is a share of the volume, so there is none either. -/
theorem BrokerSimulator.on_market_unmeasured {b : BrokerSimulator R} {fs : List Fill}
    (hfills : (b.on_market instrument state now).1 = .ok fs) (hstate : state.Unmeasured) : fs = [] := by
  refine (BrokerSimulator.on_market_matched hfills).unmeasured hstate ?_
  rw [hstate.volume_eq, zero_mul]

end ptl.execution

set_option linter.dupNamespace false

namespace ptl.engine

variable {R Q : Type} {source : IMarketDataSource Q}

/-- What the engine knows of an instrument's market. -/
def Engine.marketState (e : Engine R) (instrument : InstrumentId) : MarketState :=
  (e.state[instrument]?).getD {}

/-- No instrument has a measured volume. -/
def Engine.Unmeasured (e : Engine R) : Prop := ∀ instrument, (e.marketState instrument).Unmeasured

/-- The events a live feed brings. -/
def isTick : MarketEvent → Bool
  | .quote _ => true
  | .trade _ => true
  | _ => false

theorem Engine.unmeasured_of_empty {e : Engine R} (hempty : e.state = ∅) : e.Unmeasured := by
  intro i
  rw [Engine.marketState, hempty]
  exact ⟨rfl, rfl⟩

theorem Engine.Unmeasured.congr {e e' : Engine R} (hunmeasured : e.Unmeasured) (hsame : e'.state = e.state) :
    e'.Unmeasured := by
  intro i
  rw [Engine.marketState, hsame]
  exact hunmeasured i

theorem Engine.book_fills_state {e e' : Engine R} {fs : List Fill} (hbook : e.book_fills fs = .ok e') :
    e'.state = e.state := by
  refine Engine.book_fills_invariant (I := fun e₁ _ => e₁.state = e.state) ?_ rfl hbook
  intro e₁ f rest e₂ hsame hfirst
  obtain ⟨-, -, heq⟩ := Engine.book_fill_ok hfirst
  rw [heq]
  exact hsame

/-- A quote keeps what is known of an instrument's volume. -/
theorem Engine.match_quote_unmeasured {e : Engine R} (hunmeasured : e.Unmeasured) (q : Quote) :
    (e.quoteState q).Unmeasured ∧ (e.match_quote q).2.Unmeasured := by
  have hquoted : (e.quoteState q).Unmeasured :=
    ⟨(hunmeasured q.instrument).known, (hunmeasured q.instrument).volume_eq⟩
  refine ⟨hquoted, fun i => ?_⟩
  have hstate : (e.match_quote q).2.state = e.state.insert q.instrument (e.quoteState q) := rfl
  rw [Engine.marketState, hstate, Table.getElem?_insert_eq_ite]
  split
  · exact hquoted
  · exact hunmeasured i

/-- A tick books no fill and measures no volume. -/
theorem Engine.absorb_tick {e e' : Engine R} {now : Timestamp} {ev : MarketEvent} (hunmeasured : e.Unmeasured)
    (htick : isTick ev = true) (habsorb : e.absorb now ev = .ok e') :
    e'.Unmeasured ∧ e'.journal.fills = e.journal.fills := by
  have hobserved : (e.observe now ev).Unmeasured := hunmeasured
  unfold Engine.absorb at habsorb
  cases ev with
  | quote q =>
    obtain ⟨hquoted, hmatched⟩ := Engine.match_quote_unmeasured hobserved q
    have hmatch : (e.observe now (.quote q)).match_event (.quote q) =
        ((e.broker.on_market q.instrument (e.quoteState q) q.time.exchange_time).1,
          ((e.observe now (.quote q)).match_quote q).2) := rfl
    rw [hmatch] at habsorb
    cases hfills : (e.broker.on_market q.instrument (e.quoteState q) q.time.exchange_time).1 with
    | error err => simp [hfills] at habsorb
    | ok fs =>
      have hnone : fs = [] := BrokerSimulator.on_market_unmeasured hfills hquoted
      simp only [hfills, hnone, Engine.book_fills] at habsorb
      cases habsorb
      exact ⟨hmatched, rfl⟩
  | trade t =>
    cases habsorb
    exact ⟨hobserved, rfl⟩
  | bar bar => cases htick
  | corporateAction c => cases htick
  | session ev => cases htick
  | timer t => cases htick

theorem Engine.submit_state_fills (e : Engine R) (order : Order) :
    (e.submit order).2.state = e.state ∧ (e.submit order).2.journal.fills = e.journal.fills := by
  obtain ⟨-, heq⟩ | ⟨-, -, heq⟩ | ⟨-, -, err, -, heq⟩ | ⟨-, -, arrival, -, heq⟩ := e.submit_cases order
  · rw [heq]
    exact ⟨rfl, Journal.record_risk_rejection_fills _ _ _ _⟩
  · rw [heq]
    exact ⟨rfl, rfl⟩
  · rw [heq]
    exact ⟨rfl, rfl⟩
  · rw [heq]
    exact ⟨rfl, Journal.append_fills _ _⟩

theorem Engine.cancel_state_fills (e : Engine R) (id : OrderId) :
    (e.cancel id).2.state = e.state ∧ (e.cancel id).2.journal.fills = e.journal.fills := by
  obtain ⟨-, heq⟩ | ⟨-, heq⟩ := e.cancel_cases id
  · rw [heq]
    exact ⟨rfl, rfl⟩
  · rw [heq]
    exact ⟨rfl, rfl⟩

theorem Engine.settle_state {e e' : Engine R} {ev : MarketEvent} (hsettle : e.settle ev = .ok e') :
    e'.state = e.state := by
  have hsnapshot : ∀ {e e' : Engine R} {ts : Timestamp}, e.snapshot ts = .ok e' → e'.state = e.state := by
    intro e e' ts htaken
    obtain ⟨curve, heq⟩ := Engine.snapshot_ok htaken
    rw [heq]
  have hpeak : ∀ e : Engine R, e.track_peak.state = e.state := by
    intro e
    unfold Engine.track_peak
    dsimp only
    split <;> rfl
  unfold Engine.settle at hsettle
  cases hclose : e.close_event ev with
  | error err =>
    rw [hclose] at hsettle
    cases hsettle
  | ok closed =>
    rw [hclose] at hsettle
    cases hsettle
    rw [hpeak]
    cases ev with
    | bar bar =>
      simp only [Engine.close_event] at hclose
      split at hclose
      · have hstate := hsnapshot hclose
        exact hstate
      · cases hclose
        rfl
    | quote q =>
      cases hclose
      rfl
    | session ev =>
      simp only [Engine.close_event] at hclose
      split at hclose
      · cases hclose
        rfl
      · split at hclose
        · exact hsnapshot hclose
        · cases hclose
          rfl
    | trade t =>
      cases hclose
      rfl
    | corporateAction c =>
      cases hclose
      rfl
    | timer t =>
      cases hclose
      rfl

/-- No move of a run over ticks measures a volume or books a fill. -/
theorem Session.step_unmeasured {s t : Session R Q} {a : Action} (hstep : s.step source a = some t)
    (hticks : ∀ ev q now, source.next s.source s.engine.clock = .ok (some (ev, q, now)) → isTick ev = true)
    (hunmeasured : s.engine.Unmeasured) :
    t.engine.Unmeasured ∧ t.engine.journal.fills = s.engine.journal.fills := by
  obtain ⟨ev, q, now, e, -, -, hnext, habsorb, rfl⟩ | ⟨order, -, rfl⟩ | ⟨id, -, rfl⟩ | ⟨-, rfl⟩ |
    ⟨ev, e, -, -, hsettle, rfl⟩ := Session.step_cases hstep
  · exact Engine.absorb_tick hunmeasured (hticks ev q now hnext) habsorb
  · obtain ⟨hstate, hfills⟩ := s.engine.submit_state_fills order
    exact ⟨hunmeasured.congr hstate, hfills⟩
  · obtain ⟨hstate, hfills⟩ := s.engine.cancel_state_fills id
    exact ⟨hunmeasured.congr hstate, hfills⟩
  · exact ⟨hunmeasured, rfl⟩
  · exact ⟨hunmeasured.congr (Engine.settle_state hsettle),
      congrArg Journal.fills (Engine.settle_settles hsettle).journal_eq⟩

end ptl.engine

/-! A stream of quotes alone. The engine leaves the volume it never measured marked as
known, so the venue reads the zero as a market nobody trades in. -/

namespace ptl.execution

variable {R : Type} {costs : ICostModel R} {cfg : FillConfig} {instrument : InstrumentId}
  {state : MarketState} {now : Timestamp}

/-- The market of a quote as `QuoteRouter::route` hands it to the venue: a
snapshot carries no interval volume, and says so. -/
def routedState (q : Quote) : MarketState where
  bid := q.bid
  ask := q.ask
  bid_size := q.bid_size
  ask_size := q.ask_size
  has_quote := true
  volume_known := false

/-- An order that a market offers something to: arrived, live, marketable
against the touch, and with a displayed size on its side. -/
structure PendingOrder.Meets (p : PendingOrder) (instrument : InstrumentId) (state : MarketState)
    (now : Timestamp) : Prop where
  instrument_matches : p.order.instrument = instrument
  arrived : p.arrival_time ≤ now
  live : p.triggered (touchOf state p.order.side) = true
  marketable : p.order.is_marketable_against (touchOf state p.order.side) = true
  displayed_pos : 0 < state.displayed p.order.side

instance (p : PendingOrder) (instrument : InstrumentId) (state : MarketState) (now : Timestamp) :
    Decidable (p.Meets instrument state now) :=
  decidable_of_iff (p.order.instrument = instrument ∧ p.arrival_time ≤ now ∧
      p.triggered (touchOf state p.order.side) = true ∧
      p.order.is_marketable_against (touchOf state p.order.side) = true ∧
      0 < state.displayed p.order.side)
    ⟨fun ⟨h₁, h₂, h₃, h₄, h₅⟩ => ⟨h₁, h₂, h₃, h₄, h₅⟩, fun ⟨h₁, h₂, h₃, h₄, h₅⟩ => ⟨h₁, h₂, h₃, h₄, h₅⟩⟩

/-- What an order may take of the displayed size. -/
def PendingOrder.shownTo (p : PendingOrder) (state : MarketState) : Qty :=
  min (p.order.quantity - p.filled) (state.displayed p.order.side)

/-- One of these fills gives an order all it may take. -/
def PendingOrder.TakesShown (p : PendingOrder) (state : MarketState) (fs : List Fill) : Prop :=
  ∃ f ∈ fs, f.order_id = p.order.id ∧ f.quantity = p.shownTo state

/-- A loop that decides on no execution computes no price, so it cannot fail. -/
theorem matchLoop_quiet {m : MatchState R} {ps : List PendingOrder}
    (hquiet : ∀ p ∈ ps, ∀ q allowed,
      p.decision cfg instrument state now m.remaining_participation ≠ .execute q allowed) :
    (matchLoop costs cfg instrument state now m ps).1 = .ok [] := by
  induction ps generalizing m with
  | nil => rfl
  | cons p ps ih =>
    have hhead := hquiet p List.mem_cons_self
    have htail := fun q hq => hquiet q (List.mem_cons_of_mem _ hq)
    have hdecision := p.decide_fst cfg instrument state now m.remaining_participation m.stats
    simp only [matchLoop]
    revert hdecision
    rcases p.decide cfg instrument state now m.remaining_participation m.stats with ⟨decision, stats⟩
    intro hdecision
    cases decision with
    | keep p' => exact ih (m := { m with stats }) htail
    | erase => exact ih (m := { m with stats }) htail
    | execute p' allowed => exact absurd hdecision.symm (hhead p' allowed)

/-- Where no volume was measured and that counts as known, a call ends without
a fill and without an error. -/
theorem BrokerSimulator.on_market_quiet (b : BrokerSimulator R) (instrument : InstrumentId)
    (hstate : state.Unmeasured) (now : Timestamp) : (b.on_market instrument state now).1 = .ok [] := by
  refine matchLoop_quiet fun p _ q allowed => PendingOrder.decision_unmeasured hstate ?_ p q allowed
  rw [hstate.volume_eq, zero_mul]

/-- Without a measured volume and without claiming one, the displayed size is
what an order is offered. -/
theorem available_routed {budget : Rat} {side : Side} {want : Qty} {stats : ExecutionStats}
    (hquote : state.has_quote = true) (hunknown : state.volume_known = false)
    (hrespect : cfg.respect_displayed_size = true) (hbudget : budget ≤ 0)
    (hdisplayed : 0 < state.displayed side) :
    (available cfg state side budget want stats).1 = some (min want (state.displayed side)) := by
  rw [available_fst, if_neg fun hnone => hnone.2.2 hdisplayed,
    if_neg fun hbinds => absurd hbinds.1 (not_lt.mpr hbudget), if_neg (by simp [hunknown]),
    MarketState.shown_eq_min hquote hrespect]

/-- On the routed market of the same quote the order is executed, for all it
may take. -/
theorem PendingOrder.decision_routed {p : PendingOrder} {q : Quote}
    (hmeets : p.Meets instrument (routedState q) now) (hwants : p.filled < p.order.quantity)
    (hrespect : cfg.respect_displayed_size = true) (hdivisible : p.order.time_in_force ≠ .FillOrKill) :
    ∃ p', p.decision cfg instrument (routedState q) now 0 = .execute p' (p.shownTo (routedState q)) := by
  have hsize : 0 < p.shownTo (routedState q) :=
    lt_min (sub_pos.mpr hwants) hmeets.displayed_pos
  -- The order that goes on differs from `p` at most in its stop flag.
  have hlive : ∀ (p' : PendingOrder) (stats : ExecutionStats), p'.order = p.order → p'.filled = p.filled →
      (p'.decideLive cfg (routedState q) 0 stats).1 = .execute p' (p.shownTo (routedState q)) := by
    intro p' stats horder hfilled
    have hoffered : (available cfg (routedState q) p.order.side 0 (p.order.quantity - p.filled) stats).1 =
        some (p.shownTo (routedState q)) :=
      available_routed rfl rfl hrespect (le_refl 0) hmeets.displayed_pos
    unfold PendingOrder.decideLive
    dsimp only
    rw [horder, hfilled, if_neg (by simp [hmeets.marketable]), if_neg (not_le.mpr (sub_pos.mpr hwants))]
    revert hoffered
    rcases available cfg (routedState q) p.order.side 0 (p.order.quantity - p.filled) stats with ⟨size, counted⟩
    rintro rfl
    dsimp only
    rw [if_neg (not_le.mpr hsize), if_neg fun hkilled => hdivisible hkilled.1]
  unfold PendingOrder.decision PendingOrder.decide
  rw [if_neg (not_not.mpr hmeets.instrument_matches), if_neg (not_lt.mpr hmeets.arrived),
    if_neg (by simp [hmeets.live])]
  split
  · exact ⟨_, hlive _ _ rfl rfl⟩
  · exact ⟨_, hlive _ _ rfl rfl⟩

end ptl.execution

set_option linter.dupNamespace false

namespace ptl.engine

variable {R Q : Type} {source : IMarketDataSource Q} {instrument : InstrumentId}

theorem Engine.marketState_insert (e : Engine R) (instrument key : InstrumentId) (st : MarketState) :
    (((e.state.insert key st)[instrument]?).getD {} : MarketState) =
      if key = instrument then st else e.marketState instrument := by
  rw [Table.getElem?_insert_eq_ite]
  split <;> rfl

/-- Whatever arrives, unless it is a bar of the instrument, its volume stays
unmeasured. -/
theorem Engine.absorb_unmeasured {e e' : Engine R} {now : Timestamp} {ev : MarketEvent}
    (hunmeasured : (e.marketState instrument).Unmeasured)
    (hbar : ∀ bar, ev = .bar bar → bar.instrument ≠ instrument) (habsorb : e.absorb now ev = .ok e') :
    (e'.marketState instrument).Unmeasured := by
  unfold Engine.absorb at habsorb
  cases hmatch : (e.observe now ev).match_event ev with
  | mk result matched =>
    cases result with
    | error err => simp [hmatch] at habsorb
    | ok fs =>
      simp only [hmatch] at habsorb
      have hbooked : e'.state = matched.state := Engine.book_fills_state habsorb
      have hmatched : matched = ((e.observe now ev).match_event ev).2 := by rw [hmatch]
      rw [Engine.marketState, hbooked, hmatched]
      cases ev with
      | bar bar =>
        have hstate := e.marketState_insert instrument bar.instrument (e.barState bar)
        rw [if_neg (hbar bar rfl)] at hstate
        exact hstate ▸ hunmeasured
      | quote q =>
        have hstate := e.marketState_insert instrument q.instrument (e.quoteState q)
        by_cases hsame : q.instrument = instrument
        · rw [if_pos hsame] at hstate
          subst hsame
          exact hstate ▸ ⟨hunmeasured.known, hunmeasured.volume_eq⟩
        · rw [if_neg hsame] at hstate
          exact hstate ▸ hunmeasured
      | trade t => exact hunmeasured
      | corporateAction c => exact hunmeasured
      | session ev =>
        cases hkind : ev.kind <;> simp only [Engine.match_event, hkind] <;> exact hunmeasured
      | timer t => exact hunmeasured

def isBarOf (instrument : InstrumentId) : MarketEvent → Bool
  | .bar bar => bar.instrument = instrument
  | _ => false

/-- No bar of the instrument arrives in this move. -/
def Session.NoBarOf (source : IMarketDataSource Q) (instrument : InstrumentId) (s : Session R Q)
    (_ : Action) : Prop :=
  (s.upcoming source).any (isBarOf instrument) = false

instance (source : IMarketDataSource Q) (instrument : InstrumentId) (s : Session R Q) (a : Action) :
    Decidable (s.NoBarOf source instrument a) :=
  inferInstanceAs (Decidable ((s.upcoming source).any (isBarOf instrument) = false))

/-- The runs of an engine that was just built and has seen no market yet. -/
def builtMachine (R : Type) (source : IMarketDataSource Q) : Machine (Session R Q) Action where
  Init s := s.Initial ∧ s.engine.state = ∅
  step := Session.step source

theorem builtMachine_reachable {G : Session R Q → Action → Prop} {s : Session R Q}
    (hreach : (builtMachine R source).Reaches G s) : (engineMachine R source).Reachable s := by
  induction hreach with
  | init hinit => exact .init hinit.1
  | step _ _ hstep ih => exact .step ih trivial hstep

theorem builtMachine_unmeasured {s : Session R Q}
    (hreach : (builtMachine R source).Reaches (Session.NoBarOf source instrument) s) :
    (s.engine.marketState instrument).Unmeasured := by
  refine hreach.invariant (I := fun s => (s.engine.marketState instrument).Unmeasured) ?_ ?_
  · intro s hinit
    exact Engine.unmeasured_of_empty hinit.2 instrument
  · intro s a t _ hunmeasured hguard hstep
    obtain ⟨ev, q, now, e, -, -, hnext, habsorb, rfl⟩ | ⟨order, -, rfl⟩ | ⟨id, -, rfl⟩ | ⟨-, rfl⟩ |
      ⟨ev, e, -, -, hsettle, rfl⟩ := Session.step_cases hstep
    · refine Engine.absorb_unmeasured hunmeasured (fun bar hbar => ?_) habsorb
      rw [Session.NoBarOf, Session.upcoming_of_next hnext, hbar] at hguard
      simpa [isBarOf] using hguard
    · rw [Engine.marketState, (s.engine.submit_state_fills order).1]
      exact hunmeasured
    · rw [Engine.marketState, (s.engine.cancel_state_fills id).1]
      exact hunmeasured
    · exact hunmeasured
    · rw [Engine.marketState, Engine.settle_state hsettle]
      exact hunmeasured

/-- The engine and the router read the same touch and the same sizes off a
quote. -/
theorem Engine.meets_routed {e : Engine R} {q : Quote} {p : PendingOrder} {now : Timestamp}
    (hmeets : p.Meets instrument (e.quoteState q) now) :
    p.Meets instrument (routedState q) now ∧ p.shownTo (routedState q) = p.shownTo (e.quoteState q) :=
  ⟨⟨hmeets.instrument_matches, hmeets.arrived, hmeets.live, hmeets.marketable, hmeets.displayed_pos⟩, rfl⟩

/-- In no run without a bar of the instrument does a quote fill anything: each
order the quote meets is owed a positive size, and the engine's call ends
without a fill. On the market the router builds from the same quote the order
would be executed for that size. -/
theorem builtMachine_quote_fills_nothing {s : Session R Q} {q : Quote}
    (hreach : (builtMachine R source).Reaches (Session.NoBarOf source q.instrument) s)
    {p : PendingOrder} (hp : p ∈ s.engine.broker.pending)
    (hmeets : p.Meets q.instrument (s.engine.quoteState q) q.time.exchange_time) :
    0 < p.shownTo (s.engine.quoteState q) ∧
      (∃ fs, (s.engine.match_quote q).1 = .ok fs ∧ ¬ p.TakesShown (s.engine.quoteState q) fs) ∧
      (s.engine.broker.fill_cfg.respect_displayed_size = true → p.order.time_in_force ≠ .FillOrKill →
        ∃ p', p.decision s.engine.broker.fill_cfg q.instrument (routedState q) q.time.exchange_time 0 =
          .execute p' (p.shownTo (s.engine.quoteState q))) := by
  obtain ⟨rec, -, hbacks⟩ := (engineMachine_agreed (builtMachine_reachable hreach)).backed p hp
  have hbefore := builtMachine_unmeasured hreach
  have hstate : (s.engine.quoteState q).Unmeasured := ⟨hbefore.known, hbefore.volume_eq⟩
  have hquiet := s.engine.broker.on_market_quiet q.instrument hstate q.time.exchange_time
  refine ⟨lt_min (sub_pos.mpr hbacks.unfinished) hmeets.displayed_pos, ⟨[], hquiet, ?_⟩, ?_⟩
  · rintro ⟨f, hf, -⟩
    cases hf
  · intro hrespect hdivisible
    obtain ⟨hrouted, hsame⟩ := Engine.meets_routed hmeets
    rw [← hsame]
    exact PendingOrder.decision_routed hrouted hbacks.unfinished hrespect hdivisible

/-- A quote of 99 to 101 with this size on both sides. -/
def quoteOf (time : Timestamp) (size : Qty)
    (h : (Quote.create 0 time 99 size 101 size).toOption.isSome = true := by decide +kernel) : Quote :=
  Result.value (Quote.create 0 time 99 size 101 size) h

/-- Two quotes of fifty shares, and a buy of ten sent on the first of them. -/
def twoQuotes : Session Unit ReplaySource :=
  flatSession [.quote (quoteOf 1 50), .quote (quoteOf 3000000 50)]

def quoteIn : MarketEvent → Option Quote
  | .quote q => some q
  | _ => none

theorem quoteIn_eq_some {ev : MarketEvent} {q : Quote} (hquote : quoteIn ev = some q) : ev = .quote q := by
  cases ev with
  | quote q' => rw [Option.some.inj hquote]
  | _ => cases hquote

theorem twoQuotes_reached :
    ∃ s q p, (builtMachine Unit replay).Reaches (Session.NoBarOf replay q.instrument) s ∧
      s.upcoming replay = some (.quote q) ∧ p ∈ s.engine.broker.pending ∧
      p.Meets q.instrument (s.engine.quoteState q) q.time.exchange_time ∧
      p.order.time_in_force ≠ .FillOrKill := by
  have hinit : (builtMachine Unit replay).Reaches (Session.NoBarOf replay 0) twoQuotes :=
    .init ⟨⟨rfl, _, ⟨rfl, rfl, rfl, rfl⟩, rfl⟩, rfl⟩
  obtain ⟨s, hreach, hmet⟩ := hinit.exec_map [.arrive, .submit dayBuy, .settle]
    (fun s => ((s.upcoming replay).bind quoteIn).any fun q : Quote => decide (q.instrument = 0 ∧
      ∃ p ∈ s.engine.broker.pending, p.Meets q.instrument (s.engine.quoteState q) q.time.exchange_time ∧
        p.order.time_in_force ≠ .FillOrKill)) (b := true) (by decide +kernel) (by decide +kernel)
  obtain ⟨q, hquote, hmet⟩ := (Option.any_eq_true _ _).mp hmet
  obtain ⟨ev, hnext, hin⟩ := Option.bind_eq_some_iff.mp hquote
  obtain ⟨hinstrument, p, hp, hmeets, hdivisible⟩ := of_decide_eq_true hmet
  exact ⟨s, q, p, hinstrument ▸ hreach, quoteIn_eq_some hin ▸ hnext, hp, hmeets, hdivisible⟩

/-- The second quote shows fifty shares to the buy of ten, which stays
unfilled. -/
theorem builtMachine_quote_fills_nothing_twoQuotes :
    ∃ (s : Session Unit ReplaySource) (q : Quote) (p : PendingOrder), 0 < p.shownTo (s.engine.quoteState q) ∧
      ∃ fs, (s.engine.match_quote q).1 = .ok fs ∧ ¬ p.TakesShown (s.engine.quoteState q) fs := by
  obtain ⟨s, q, p, hreach, -, hp, hmeets, -⟩ := twoQuotes_reached
  obtain ⟨hpos, hunfilled, -⟩ := builtMachine_quote_fills_nothing hreach hp hmeets
  exact ⟨s, q, p, hpos, hunfilled⟩

/-- A quote-only run in which a quote that shows enough leaves an arrived,
marketable order without a fill. -/
theorem builtMachine_quote_unfilled :
    ¬ ∀ (s : Session Unit ReplaySource) (q : Quote) (p : PendingOrder),
      (builtMachine Unit replay).Reaches (Session.NoBarOf replay q.instrument) s →
      s.upcoming replay = some (.quote q) → p ∈ s.engine.broker.pending →
      p.Meets q.instrument (s.engine.quoteState q) q.time.exchange_time →
      p.order.time_in_force ≠ .FillOrKill →
      ∀ fs, (s.engine.match_quote q).1 = .ok fs → p.TakesShown (s.engine.quoteState q) fs := by
  intro hfills
  obtain ⟨s, q, p, hreach, hnext, hp, hmeets, hdivisible⟩ := twoQuotes_reached
  have hbefore := builtMachine_unmeasured hreach
  have hunmeasured : (s.engine.quoteState q).Unmeasured := ⟨hbefore.known, hbefore.volume_eq⟩
  have hquiet := s.engine.broker.on_market_quiet q.instrument hunmeasured q.time.exchange_time
  obtain ⟨f, hf, -⟩ := hfills s q p hreach hnext hp hmeets hdivisible [] hquiet
  cases hf

end ptl.engine
