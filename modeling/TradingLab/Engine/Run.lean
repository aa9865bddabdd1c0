import TradingLab.Engine.Engine
import TradingLab.Machine

open ptl.oms ptl.portfolio ptl.market ptl.risk ptl.execution ptl.accounting

set_option linter.dupNamespace false

namespace ptl.engine

variable {R S Q : Type}

/-- The engine's side of `dispatch_fills`, without the strategy. -/
def Engine.book_fills (e : Engine R) : List Fill → Result (Engine R)
  | [] => .ok e
  | f :: fs =>
    match e.book_fill f with
    | .error err => .error err
    | .ok e => e.book_fills fs

/-- An event up to the strategy's callback. -/
def Engine.absorb (e : Engine R) (now : Timestamp) (ev : MarketEvent) : Result (Engine R) :=
  match (e.observe now ev).match_event ev with
  | (.error err, _) => .error err
  | (.ok fills, e) => e.book_fills fills

/-- An event after the strategy's callback. -/
def Engine.settle (e : Engine R) (ev : MarketEvent) : Result (Engine R) :=
  (e.close_event ev).map Engine.track_peak

/-- The callbacks that are handed an order sink. -/
def MarketEvent.hasSink : MarketEvent → Bool
  | .corporateAction _ => false
  | .timer _ => false
  | _ => true

/-- An engine between two moves of its run, with its event source: idle, or
    inside the callback of the event it is handling. -/
structure Session (R Q : Type) where
  engine : Engine R
  source : Q
  handling : Option MarketEvent := none

/-- The moves of a run. -/
inductive Action where
  | arrive
  | submit (order : Order)
  | cancel (id : OrderId)
  | next_order_id
  | settle

/-- One move, refused where the source would not make it and where the run
    would end with an error or an exception. -/
def Session.step (source : IMarketDataSource Q) (s : Session R Q) (a : Action) :
    Option (Session R Q) :=
  match s.handling, a with
  | none, .arrive =>
    match source.next s.source s.engine.clock with
    | .ok (some (ev, q, now)) =>
      match s.engine.absorb now ev with
      | .error _ => none
      | .ok e => some { engine := e, source := q, handling := some ev }
    | _ => none
  | some ev, .submit order =>
    if MarketEvent.hasSink ev then some { s with engine := (s.engine.submit order).2 } else none
  | some ev, .cancel id =>
    if MarketEvent.hasSink ev then some { s with engine := (s.engine.cancel id).2 } else none
  | some ev, .next_order_id =>
    if MarketEvent.hasSink ev then some { s with engine := s.engine.next_order_id.2 } else none
  | some ev, .settle =>
    match s.engine.settle ev with
    | .error _ => none
    | .ok e => some { s with engine := e, handling := none }
  | _, _ => none

/-- An engine over collaborators that were just built. -/
structure Engine.Fresh (e : Engine R) : Prop where
  pending_empty : e.broker.pending = []
  oms_empty : e.oms = {}
  portfolio_new : e.pf = Portfolio.new e.pf.cfg
  journal_empty : e.journal = {}

def Session.Initial (s : Session R Q) : Prop :=
  s.handling = none ∧ ∃ e : Engine R, e.Fresh ∧ s.engine = e.begun

/-- Beginning a run leaves the collaborators as they were built. -/
theorem Session.Initial.fresh {s : Session R Q} (hinitial : s.Initial) : s.engine.Fresh := by
  obtain ⟨-, e, hfresh, hbegun⟩ := hinitial
  rw [hbegun]
  exact ⟨hfresh.pending_empty, hfresh.oms_empty, hfresh.portfolio_new, hfresh.journal_empty⟩

theorem Session.Initial.summary_empty {s : Session R Q} (hinitial : s.Initial) : s.engine.summary = {} := by
  obtain ⟨-, e, -, hbegun⟩ := hinitial
  rw [hbegun]
  rfl

/-- Every run of the engine over a source, whatever its events and whatever
    the strategy does with the sink it is handed. -/
def engineMachine (R : Type) (source : IMarketDataSource Q) : Machine (Session R Q) Action where
  Init := Session.Initial
  step := Session.step source

/-- The event that arrives next. -/
def Session.upcoming (source : IMarketDataSource Q) (s : Session R Q) : Option MarketEvent :=
  match source.next s.source s.engine.clock with
  | .ok (some (ev, _, _)) => some ev
  | _ => none

variable {source : IMarketDataSource Q}

/-- Every inversion of a move: one case for each kind of move it can be. -/
theorem Session.step_cases {s t : Session R Q} {a : Action} (hstep : s.step source a = some t) :
    (∃ ev q now e, a = .arrive ∧ s.handling = none ∧
      source.next s.source s.engine.clock = .ok (some (ev, q, now)) ∧
      s.engine.absorb now ev = .ok e ∧ t = { engine := e, source := q, handling := some ev }) ∨
    (∃ order, a = .submit order ∧ t = { s with engine := (s.engine.submit order).2 }) ∨
    (∃ id, a = .cancel id ∧ t = { s with engine := (s.engine.cancel id).2 }) ∨
    (a = .next_order_id ∧ t = { s with engine := s.engine.next_order_id.2 }) ∨
    (∃ ev e, a = .settle ∧ s.handling = some ev ∧ s.engine.settle ev = .ok e ∧
      t = { s with engine := e, handling := none }) := by
  obtain ⟨engine, feed, handling⟩ := s
  cases handling with
  | none =>
    cases a with
    | arrive =>
      simp only [Session.step] at hstep
      split at hstep
      · rename_i ev q now hnext
        cases habsorb : engine.absorb now ev with
        | error err => simp [habsorb] at hstep
        | ok e =>
          simp only [habsorb, Option.some.injEq] at hstep
          exact .inl ⟨ev, q, now, e, rfl, rfl, hnext, habsorb, hstep.symm⟩
      · cases hstep
    | submit order => simp [Session.step] at hstep
    | cancel id => simp [Session.step] at hstep
    | next_order_id => simp [Session.step] at hstep
    | settle => simp [Session.step] at hstep
  | some ev =>
    cases a with
    | arrive => simp [Session.step] at hstep
    | submit order =>
      simp only [Session.step, Option.ite_none_right_eq_some, Option.some.injEq] at hstep
      exact .inr (.inl ⟨order, rfl, hstep.2.symm⟩)
    | cancel id =>
      simp only [Session.step, Option.ite_none_right_eq_some, Option.some.injEq] at hstep
      exact .inr (.inr (.inl ⟨id, rfl, hstep.2.symm⟩))
    | next_order_id =>
      simp only [Session.step, Option.ite_none_right_eq_some, Option.some.injEq] at hstep
      exact .inr (.inr (.inr (.inl ⟨rfl, hstep.2.symm⟩)))
    | settle =>
      simp only [Session.step] at hstep
      cases hsettle : engine.settle ev with
      | error err => simp [hsettle] at hstep
      | ok e =>
        simp only [hsettle, Option.some.injEq] at hstep
        exact .inr (.inr (.inr (.inr ⟨ev, e, rfl, rfl, hsettle, hstep.symm⟩)))

theorem Session.upcoming_of_next {s : Session R Q} {ev : MarketEvent} {q : Q} {now : Timestamp}
    (hnext : source.next s.source s.engine.clock = .ok (some (ev, q, now))) :
    s.upcoming source = some ev := by
  rw [Session.upcoming, hnext]

/-! ### The executable run stays inside the machine -/

/-- Whatever every booked fill and the callback about it preserve, dispatching
preserves. -/
theorem Engine.dispatch_fills_invariant {strategy : IStrategy S} {I : Engine R → S → List Fill → Prop}
    (hstep : ∀ e s f fs e', I e s (f :: fs) → e.book_fill f = .ok e' →
      I e' (strategy.on_fill f e'.context s) fs) {e e' : Engine R} {s s' : S} {fs : List Fill}
    (hinit : I e s fs) (hdispatch : e.dispatch_fills strategy s fs = .ok (e', s')) : I e' s' [] := by
  induction fs generalizing e s with
  | nil =>
    cases hdispatch
    exact hinit
  | cons f fs ih =>
    simp only [Engine.dispatch_fills] at hdispatch
    cases hfirst : e.book_fill f with
    | error err => simp [hfirst] at hdispatch
    | ok e₁ =>
      simp only [hfirst] at hdispatch
      exact ih (hstep _ _ _ _ _ hinit hfirst) hdispatch

/-- Dispatching with a strategy books the fills as without one. -/
theorem Engine.dispatch_fills_ok {strategy : IStrategy S} {e e' : Engine R} {s s' : S}
    {fills : List Fill} (hdispatch : e.dispatch_fills strategy s fills = .ok (e', s')) :
    e.book_fills fills = .ok e' := by
  induction fills generalizing e s with
  | nil =>
    cases hdispatch
    rfl
  | cons f fs ih =>
    simp only [Engine.dispatch_fills] at hdispatch
    simp only [Engine.book_fills]
    cases hbook : e.book_fill f with
    | error err => simp [hbook] at hdispatch
    | ok e₁ =>
      simp only [hbook] at hdispatch
      exact ih hdispatch

/-- A callback is a sequence of sink moves. -/
theorem Session.callback_reachable {e : Engine R} {q : Q} {ev : MarketEvent}
    (hsink : MarketEvent.hasSink ev) (program : SinkProgram S)
    (hreach : (engineMachine R source).Reachable { engine := e, source := q, handling := some ev }) :
    (engineMachine R source).Reachable
      { engine := (e.callback program).1, source := q, handling := some ev } := by
  induction program generalizing e with
  | done s => exact hreach
  | submit order k ih =>
    refine ih _ (hreach.step trivial (l := .submit order) ?_)
    simp [engineMachine, Session.step, hsink]
  | cancel id k ih =>
    refine ih _ (hreach.step trivial (l := .cancel id) ?_)
    simp [engineMachine, Session.step, hsink]
  | next_order_id k ih =>
    refine ih _ (hreach.step trivial (l := .next_order_id) ?_)
    simp [engineMachine, Session.step, hsink]
  | context k ih => exact ih _ hreach

/-- An event that is handled is matched, its fills dispatched, called back about
and settled. -/
theorem Engine.handle_dispatches {strategy : IStrategy S} {e e' : Engine R} {s s' : S} {now : Timestamp}
    {ev : MarketEvent} (hhandle : e.handle strategy s now ev = .ok (e', s')) :
    ∃ fills matched e₁ s₁, (e.observe now ev).match_event ev = (.ok fills, matched) ∧
      matched.dispatch_fills strategy s fills = .ok (e₁, s₁) ∧
      (e₁.callback (strategy.respond s₁ ev)).1.settle ev = .ok e' ∧
      (e₁.callback (strategy.respond s₁ ev)).2 = s' := by
  unfold Engine.handle at hhandle
  cases hmatch : (e.observe now ev).match_event ev with
  | mk result matched =>
    cases result with
    | error err => simp [hmatch] at hhandle
    | ok fills =>
      cases hdispatch : matched.dispatch_fills strategy s fills with
      | error err => simp [hmatch, hdispatch] at hhandle
      | ok booked =>
        obtain ⟨e₁, s₁⟩ := booked
        simp only [hmatch, hdispatch] at hhandle
        cases hclose : (e₁.callback (strategy.respond s₁ ev)).1.close_event ev with
        | error err => simp [hclose] at hhandle
        | ok closed =>
          simp only [hclose, Except.ok.injEq, Prod.mk.injEq] at hhandle
          refine ⟨fills, matched, e₁, s₁, rfl, hdispatch, ?_, hhandle.2⟩
          rw [Engine.settle, hclose, ← hhandle.1]
          rfl

/-- Matching and dispatching is absorbing. -/
theorem Engine.absorb_of_dispatch {strategy : IStrategy S} {e matched e₁ : Engine R} {s s₁ : S}
    {now : Timestamp} {ev : MarketEvent} {fills : List Fill}
    (hmatch : (e.observe now ev).match_event ev = (.ok fills, matched))
    (hdispatch : matched.dispatch_fills strategy s fills = .ok (e₁, s₁)) : e.absorb now ev = .ok e₁ := by
  simp only [Engine.absorb, hmatch]
  exact Engine.dispatch_fills_ok hdispatch

/-- An event that is handled is absorbed, called back about and settled. -/
theorem Engine.handle_ok {strategy : IStrategy S} {e e' : Engine R} {s s' : S} {now : Timestamp}
    {ev : MarketEvent} (hhandle : e.handle strategy s now ev = .ok (e', s')) :
    ∃ e₁ s₁, e.absorb now ev = .ok e₁ ∧
      (e₁.callback (strategy.respond s₁ ev)).1.settle ev = .ok e' ∧
      (e₁.callback (strategy.respond s₁ ev)).2 = s' := by
  obtain ⟨fills, matched, e₁, s₁, hmatch, hdispatch, hsettle, hstrategy⟩ := Engine.handle_dispatches hhandle
  exact ⟨e₁, s₁, Engine.absorb_of_dispatch hmatch hdispatch, hsettle, hstrategy⟩

/-- Handling one event is a move of arrival, the sink moves of the callback and
a move of settlement. -/
theorem Engine.handle_reachable {strategy : IStrategy S} {e e' : Engine R} {s s' : S} {q q' : Q}
    {now : Timestamp} {ev : MarketEvent}
    (hreach : (engineMachine R source).Reachable { engine := e, source := q })
    (hnext : source.next q e.clock = .ok (some (ev, q', now)))
    (hhandle : e.handle strategy s now ev = .ok (e', s')) :
    (engineMachine R source).Reachable { engine := e', source := q' } := by
  obtain ⟨e₁, s₁, habsorb, hsettle, -⟩ := Engine.handle_ok hhandle
  have harrived : (engineMachine R source).Reachable
      { engine := e₁, source := q', handling := some ev } :=
    hreach.step trivial (l := .arrive) (by simp [engineMachine, Session.step, hnext, habsorb])
  have hcalled : (engineMachine R source).Reachable
      { engine := (e₁.callback (strategy.respond s₁ ev)).1, source := q', handling := some ev } := by
    cases ev with
    | corporateAction c => exact harrived
    | timer ev => exact harrived
    | bar bar => exact Session.callback_reachable rfl _ harrived
    | quote q => exact Session.callback_reachable rfl _ harrived
    | trade t => exact Session.callback_reachable rfl _ harrived
    | session ev => exact Session.callback_reachable rfl _ harrived
  exact hcalled.step trivial (l := .settle) (by simp [engineMachine, Session.step, hsettle])

/-- A run between two events, as a state of the machine. -/
def World.session (w : World R S Q) : Session R Q := { engine := w.engine, source := w.source }

/-- Whatever the strategy and the number of events, the loop of `step` moves
between reachable states. -/
theorem World.loop_reachable {strategy : IStrategy S} {n k : Nat} {w w' : World R S Q}
    (hreach : (engineMachine R source).Reachable w.session)
    (hloop : w.loop strategy source n = .ok (k, w')) :
    (engineMachine R source).Reachable w'.session := by
  induction n generalizing w k with
  | zero =>
    cases hloop
    exact hreach
  | succ n ih =>
    simp only [World.loop] at hloop
    split at hloop
    · cases hloop
    · cases hloop
      exact hreach
    · rename_i hnext
      split at hloop
      · cases hloop
      · rename_i hhandle
        split at hloop
        · cases hloop
        · rename_i hrest
          cases hloop
          exact ih (Engine.handle_reachable hreach hnext hhandle) hrest

theorem World.drain_reachable {strategy : IStrategy S} {fuel : Nat} {w w' : World R S Q}
    (hreach : (engineMachine R source).Reachable w.session)
    (hdrain : w.drain strategy source fuel = some (.ok w')) :
    (engineMachine R source).Reachable w'.session := by
  induction fuel generalizing w with
  | zero => cases hdrain
  | succ fuel ih =>
    simp only [World.drain, World.step] at hdrain
    split at hdrain
    · cases hdrain
    · rename_i hstep
      split at hstep
      · cases hstep
      · cases hdrain
        exact World.loop_reachable hreach hstep
    · rename_i hstep
      split at hstep
      · cases hstep
      · exact ih (World.loop_reachable hreach hstep) hdrain

theorem World.begin_engine {strategy : IStrategy S} {w w' : World R S Q}
    (hbegin : w.begin strategy = .ok w') : w'.engine = w.engine.begun := by
  unfold World.begin at hbegin
  split at hbegin
  · cases hbegin
  · cases hbegin
    rfl

/-- The engine of a finished run differs from a reachable one only in what
`finish` writes: the matched trades and the summary. -/
theorem World.run_reachable {strategy : IStrategy S} {fuel : Nat} {w w' : World R S Q}
    {summary : RunSummary} (hfresh : w.engine.Fresh)
    (hrun : w.run strategy source fuel = some (.ok (summary, w'))) :
    ∃ s, (engineMachine R source).Reachable s ∧
      w'.engine = { s.engine with journal := s.engine.journal.match_trades, summary } := by
  unfold World.run at hrun
  split at hrun
  · cases hrun
  · rename_i begun hbegin
    have hinit : (engineMachine R source).Reachable begun.session :=
      .init ⟨rfl, w.engine, hfresh, World.begin_engine hbegin⟩
    split at hrun
    · cases hrun
    · cases hrun
    · rename_i last hdrain
      cases hrun
      exact ⟨last.session, World.drain_reachable hinit hdrain, rfl⟩

/-! ### Concrete runs -/

/-- An engine with a million in cash, flat costs and the default latencies,
over a replay of these events. -/
def flatSession (events : List MarketEvent) (limits : RiskLimits := {}) (fill_cfg : FillConfig := {})
    (h : (ReplaySource.create events (some 0)).toOption.isSome = true := by decide +kernel) :
    Session Unit ReplaySource where
  engine := Engine.begun {
    clock := (Result.value (ReplaySource.create events (some 0)) h).2
    broker := {
      costs := flatCosts, latency := flatLatency, latency_rng := (), slippage_rng := (), fill_cfg }
    pf := Portfolio.new {}
    risk := { limits } }
  source := (Result.value (ReplaySource.create events (some 0)) h).1

theorem flatSession_reached {G : Session Unit ReplaySource → Action → Prop} (events : List MarketEvent)
    (limits : RiskLimits) (fill_cfg : FillConfig)
    (h : (ReplaySource.create events (some 0)).toOption.isSome = true) :
    (engineMachine Unit replay).Reaches G (flatSession events limits fill_cfg h) :=
  .init ⟨rfl, _, ⟨rfl, rfl, rfl, rfl⟩, rfl⟩

/-- A bar of this volume at one price. -/
def barOf (time : Timestamp) (volume : Volume) (price : Price := 100) (latency : Duration := 0)
    (h : (flatBar 0 time price volume latency).toOption.isSome = true := by decide +kernel) :
    MarketEvent :=
  .bar (Result.value (flatBar 0 time price volume latency) h)

def splitOf (instrument : InstrumentId) (time : Timestamp) (ratio : Rat)
    (h : (CorporateAction.split instrument time ratio).toOption.isSome = true := by decide +kernel) :
    MarketEvent :=
  .corporateAction (Result.value (CorporateAction.split instrument time ratio) h)

end ptl.engine
