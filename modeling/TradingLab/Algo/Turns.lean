import Mathlib.Logic.Relation
import TradingLab.Algo.Executor
import TradingLab.Oms.Order

/-! What an executor does to one plan at a time when the engine's own sink
stands behind it. -/

open ptl.oms ptl.engine ptl.market ptl.execution

namespace ptl.algo

variable {R : Type} {x x' : Executor} {e e' : Engine R}

theorem ChildOrder.toOrder_ok {c : ChildOrder} {id parent_id : OrderId} {now : Timestamp} {order : Order}
    (horder : c.toOrder id now parent_id = .ok order) :
    order.id = id ∧ order.parent_id = parent_id ∧ order.quantity = c.quantity := by
  unfold ChildOrder.toOrder at horder
  dsimp only at horder
  split at horder
  all_goals
    obtain ⟨hid, hparent, -, -, hquantity⟩ := Order.make_ok horder
    exact ⟨hid, hparent, hquantity⟩

theorem ExecutionRequest.quantity_pos {r : ExecutionRequest} {ok : Bool} (hvalid : r.validate = .ok ok) :
    0 < r.parent.quantity := by
  unfold ExecutionRequest.validate at hvalid
  split at hvalid
  · cases hvalid
  · exact not_le.mp ‹_›

/-- The statistics of an execution that was withdrawn into a state. -/
def ExecutionStatistics.withdrew (s : ExecutionStatistics) : ExecutionState → ExecutionStatistics
  | .Expired => { s with executions_expired := s.executions_expired + 1 }
  | _ => { s with executions_cancelled := s.executions_cancelled + 1 }

/-- One thing an executor does: nothing but counting, or something to one
plan. -/
inductive Turn : Executor → Engine R → Executor → Engine R → Prop where
  | refused {x : Executor} {e e' : Engine R} (rejected : Nat) (hshrinks : e.Shrinks e' [])
      (hagreed : e.Agreed → e'.Agreed) (hlive : ∀ id, e.Live id → e'.Live id) :
      Turn x e { x with stats := { x.stats with child_orders_rejected := rejected } } e'
  | opened {x : Executor} {e : Engine R} {request : ExecutionRequest} {parent_id : OrderId}
      (schedule : ExecutionSchedule) (arrival_price : Price) (hset : parent_id ≠ 0)
      (hnew : x.plans[parent_id]? = none) (hpositive : 0 < request.parent.quantity) :
      Turn x e { x with
        plans := x.plans.insert parent_id (.new request parent_id schedule arrival_price)
        stats := { x.stats with executions_started := x.stats.executions_started + 1 } } e
  | completed {x : Executor} {e : Engine R} {key : OrderId} {plan : ExecutionPlan} (finished : Timestamp)
      (hplan : x.plans[key]? = some plan) (hopen : is_terminal plan.state = false)
      (hcomplete : plan.progress.complete plan.request.parent.quantity = true) :
      Turn x e (x.completed key plan finished) e
  | emitted {x : Executor} {e e' : Engine R} {key : OrderId} {plan : ExecutionPlan}
      {algorithm : IExecutionAlgorithm} {ctx : ExecutionContext} {child : ChildOrder} {order : Order}
      (emitted : Nat) (hplan : x.plans[key]? = some plan) (hopen : is_terminal plan.state = false)
      (hincomplete : plan.progress.complete plan.request.parent.quantity = false)
      (hidle : plan.working_child = none) (halgorithm : x.algorithm = some algorithm)
      (hchild : algorithm.next_child plan.request plan.schedule plan.progress ctx = some child)
      (hquantity : order.quantity = child.quantity) (hparent : order.parent_id = plan.parent_id)
      (henters : e.Enters e' order) (hagreed : e.Agreed → e'.Agreed) :
      Turn x e { x with
        plans := x.plans.insert key { plan.emitted order.id with state := .Working }
        child_to_parent := x.child_to_parent.insert order.id plan.parent_id
        stats := { x.stats with child_orders_emitted := emitted } } e'
  | withdrawn {x : Executor} {e : Engine R} {key : OrderId} {plan : ExecutionPlan} {state : ExecutionState}
      (finished : Timestamp) (hplan : x.plans[key]? = some plan) (hopen : is_terminal plan.state = false)
      (hstate : state = .Cancelled ∨ state = .Expired) :
      Turn x e { x with
        plans := x.plans.insert key { plan with working_child := none, state, finished }
        stats := x.stats.withdrew state } (withdraw engineSink e plan.working_child)

/-- Any number of turns. -/
abbrev Turns (x : Executor) (e : Engine R) (x' : Executor) (e' : Engine R) : Prop :=
  Relation.ReflTransGen (fun s t : Executor × Engine R => Turn s.1 s.2 t.1 t.2) (x, e) (x', e')

/-- What every turn preserves, turns preserve. -/
theorem Turns.invariant {I : Executor → Engine R → Prop}
    (hturn : ∀ x e x' e', I x e → Turn x e x' e' → I x' e') (hturns : Turns x e x' e') (hinit : I x e) :
    I x' e' := by
  suffices h : ∀ s t : Executor × Engine R,
      Relation.ReflTransGen (fun s t => Turn s.1 s.2 t.1 t.2) s t → I s.1 s.2 → I t.1 t.2 from
    h _ _ hturns hinit
  intro s t hchain hs
  induction hchain with
  | refl => exact hs
  | tail _ hlast ih => exact hturn _ _ _ _ ih hlast

theorem Turn.algorithm_eq (hturn : Turn x e x' e') : x'.algorithm = x.algorithm := by
  cases hturn <;> rfl

theorem Turns.algorithm_eq (hturns : Turns x e x' e') : x'.algorithm = x.algorithm :=
  hturns.invariant (I := fun y _ => y.algorithm = x.algorithm)
    (fun _ _ _ _ hsame hturn => hturn.algorithm_eq.trans hsame) rfl

theorem Executor.submit_turns (x : Executor) (e : Engine R) (request : ExecutionRequest)
    (parent_id : OrderId) (arrival_price : Price) :
    Turns x e (x.submit request parent_id arrival_price).2 e := by
  unfold Executor.submit
  split
  · exact .refl
  · split
    · exact .refl
    · rename_i hset
      split
      · exact .refl
      · rename_i hnew
        split
        · exact .refl
        · rename_i hvalid
          split
          · exact .refl
          · refine .single (.opened _ arrival_price hset ?_ (ExecutionRequest.quantity_pos hvalid))
            exact Std.TreeMap.getElem?_eq_none fun hmem => hnew (Std.TreeMap.mem_iff_contains.mp hmem)

/-- A child is not sent, or it enters the venue as an order of its plan. -/
theorem Executor.emit_child_turns {key : OrderId} {plan : ExecutionPlan} {algorithm : IExecutionAlgorithm}
    {ctx : ExecutionContext} {child : ChildOrder} (hplan : x.plans[key]? = some plan)
    (hopen : is_terminal plan.state = false)
    (hincomplete : plan.progress.complete plan.request.parent.quantity = false)
    (hidle : plan.working_child = none) (halgorithm : x.algorithm = some algorithm)
    (hchild : algorithm.next_child plan.request plan.schedule plan.progress ctx = some child)
    (now : Timestamp) :
    (∃ err x₁ e₁, x.emit_child engineSink e plan child now = (.error err, plan, x₁, e₁) ∧
      Turns x e x₁ e₁) ∨
    ∃ id plan₁ x₁ e₁, x.emit_child engineSink e plan child now = (.ok id, plan₁, x₁, e₁) ∧
      Turns x e { x₁ with plans := x₁.plans.insert key { plan₁ with state := .Working } } e₁ := by
  unfold Executor.emit_child
  split
  · exact .inl ⟨_, _, _, rfl, .refl⟩
  · have hnumbered : e.Shrinks e.next_order_id.2 [] := e.shrinks_next_order_id
    simp only [engineSink]
    cases horder : child.toOrder e.next_order_id.1 now plan.parent_id with
    | error err =>
      exact .inl ⟨_, _, _, rfl, .single (.refused x.stats.child_orders_rejected hnumbered
        Engine.agreed_next_order_id fun _ hlive => hlive)⟩
    | ok order =>
      obtain ⟨hid, hparent, hquantity⟩ := ChildOrder.toOrder_ok horder
      have hagreed : e.Agreed →
          (e.next_order_id.2.submit (order.with_arrival_price plan.arrival_price)).2.Agreed :=
        fun h => Engine.agreed_submit (Engine.agreed_next_order_id h) _
      have hcases := e.next_order_id.2.submit_enters (order.with_arrival_price plan.arrival_price)
      simp only
      revert hagreed hcases
      rcases e.next_order_id.2.submit (order.with_arrival_price plan.arrival_price) with ⟨result, e'⟩
      rintro hagreed (⟨⟨err, rfl⟩, hshrinks, hpending⟩ | ⟨rfl, henters⟩)
      · refine .inl ⟨_, _, _, rfl, .single (.refused _ ?_ hagreed fun id hlive => ?_)⟩
        · exact ⟨hshrinks.known, hshrinks.filled_eq, hshrinks.resting_le, hshrinks.order_of_rest,
            hshrinks.order_of_fill⟩
        · rw [Engine.Live]
          dsimp only at hpending
          rw [hpending]
          exact hlive
      · refine .inr ⟨_, _, _, _, rfl, ?_⟩
        have hentered : e.Enters e' (order.with_arrival_price plan.arrival_price) :=
          ⟨henters.new, henters.pending_eq, henters.filled_eq, henters.known⟩
        have hsent : (order.with_arrival_price plan.arrival_price).quantity = child.quantity ∧
            (order.with_arrival_price plan.arrival_price).parent_id = plan.parent_id := ⟨hquantity, hparent⟩
        have hturn := Turn.emitted (x.stats.child_orders_emitted + 1) hplan hopen hincomplete hidle
          halgorithm hchild hsent.1 hsent.2 hentered hagreed
        rw [← hid]
        exact .single hturn

/-- The loop of `on_market` is made of turns. -/
theorem Executor.advance_plan_turns {algorithm : IExecutionAlgorithm} (halgorithm : x.algorithm = some algorithm)
    (instrument : InstrumentId) (ctx : ExecutionContext) (n : Nat) (key : OrderId) :
    Turns x e (Executor.advance_plan engineSink algorithm instrument ctx (n, x, e) key).2.1
      (Executor.advance_plan engineSink algorithm instrument ctx (n, x, e) key).2.2 := by
  unfold Executor.advance_plan
  dsimp only
  split
  · exact .refl
  · rename_i plan hplan
    split
    · exact .refl
    · rename_i hopen
      split
      · exact .refl
      · split
        · rename_i hcomplete
          exact .single (.completed _ hplan (by simpa using hopen) hcomplete)
        · rename_i hincomplete
          split
          · exact .refl
          · rename_i hidle
            split
            · exact .refl
            · rename_i child hchild
              obtain ⟨err, x₁, e₁, hsent, hturns⟩ | ⟨id, plan₁, x₁, e₁, hsent, hturns⟩ :=
                Executor.emit_child_turns (e := e) hplan (by simpa using hopen) (by simpa using hincomplete)
                  (by simpa using hidle) halgorithm hchild ctx.now
              · rw [hsent]
                exact hturns
              · rw [hsent]
                exact hturns

/-- A loop over plans whose every turn is made of turns is made of turns. -/
theorem Turns.foldl (x' : Executor) {step : Nat × Executor × Engine R → OrderId → Nat × Executor × Engine R}
    (hstep : ∀ n x e key, x.algorithm = x'.algorithm → Turns x e (step (n, x, e) key).2.1 (step (n, x, e) key).2.2)
    (keys : List OrderId) (n : Nat) (halgorithm : x.algorithm = x'.algorithm) :
    Turns x e (keys.foldl step (n, x, e)).2.1 (keys.foldl step (n, x, e)).2.2 := by
  induction keys generalizing n x e with
  | nil => exact .refl
  | cons key keys ih =>
    have hfirst := hstep n x e key halgorithm
    exact hfirst.trans (ih _ (hfirst.algorithm_eq.trans halgorithm))

theorem Executor.on_market_turns (x : Executor) (e : Engine R) (instrument : InstrumentId)
    (ctx : ExecutionContext) :
    Turns x e (x.on_market engineSink e instrument ctx).2.1 (x.on_market engineSink e instrument ctx).2.2 := by
  unfold Executor.on_market
  split
  · exact .refl
  · rename_i algorithm halgorithm
    refine Turns.foldl x (fun n y e key hsame => ?_) x.plans.keys 0 rfl
    exact Executor.advance_plan_turns (hsame.trans halgorithm) instrument ctx n key

theorem Executor.cancel_turns (x : Executor) (e : Engine R) (parent_id : OrderId) :
    Turns x e (x.cancel engineSink e parent_id).2.1 (x.cancel engineSink e parent_id).2.2 := by
  unfold Executor.cancel
  split
  · exact .refl
  · rename_i plan hplan
    split
    · exact .refl
    · rename_i hopen
      exact .single (.withdrawn plan.finished hplan (by simpa using hopen) (.inl rfl))

theorem Executor.expire_stale_turns (x : Executor) (e : Engine R) (now : Timestamp) :
    Turns x e (x.expire_stale engineSink e now).2.1 (x.expire_stale engineSink e now).2.2 := by
  unfold Executor.expire_stale
  refine Turns.foldl x (fun n y e key _ => ?_) x.plans.keys 0 rfl
  unfold Executor.expire_plan
  dsimp only
  split
  · exact .refl
  · rename_i plan hplan
    split
    · exact .refl
    · rename_i hopen
      split
      · exact .refl
      · exact .single (.withdrawn now hplan (by simpa using hopen) (.inr rfl))

end ptl.algo

/-! An executor inside a run of the engine: its calls between the moves of
anybody else, and the fills of its children handed to it in order, once each. -/

namespace ptl.algo

variable {R Q : Type} (source : IMarketDataSource Q)

/-- A run of the engine with an executor, and the fills that wait to be handed
    to it. -/
structure Desk (R Q : Type) where
  session : Session R Q
  executor : Executor
  inbox : List Fill := []

/-- The moves of such a run. -/
inductive DeskMove where
  | engine (a : Action)
  | submit (request : ExecutionRequest) (parent_id : OrderId) (arrival_price : Price)
  | on_market (instrument : InstrumentId) (ctx : ExecutionContext)
  | on_fill
  | cancel (parent_id : OrderId)
  | expire_stale (now : Timestamp)

/-- The fills the engine dispatches in a move. -/
def Desk.dispatched (d : Desk R Q) : Action → List Fill
  | .arrive =>
    match source.next d.session.source d.session.engine.clock with
    | .ok (some (ev, _, now)) => d.session.engine.fillsOf now ev
    | _ => []
  | _ => []

/-- The orders a move takes off the venue without a fill. -/
def Desk.removed (d : Desk R Q) : Action → List OrderId
  | .arrive =>
    match source.next d.session.source d.session.engine.clock with
    | .ok (some (ev, _, _)) => d.session.engine.killsOf ev
    | _ => []
  | .cancel id => [id]
  | _ => []

/-- The fills of the executor's children. -/
def Executor.ownFills (x : Executor) (fs : List Fill) : List Fill :=
  fs.filter fun f => (x.child_to_parent[f.order_id]?).isSome

/-- The engine's sink is open inside the callbacks that are handed it. -/
def Desk.sinkOpen (d : Desk R Q) : Bool := d.session.handling.any MarketEvent.hasSink

/-- The desk after a call of the executor. -/
def Desk.called (d : Desk R Q) (x : Executor) (e : Engine R) : Desk R Q :=
  { d with executor := x, session := { d.session with engine := e } }

def Desk.step (d : Desk R Q) : DeskMove → Option (Desk R Q)
  | .engine a =>
    match d.session.step source a with
    | none => none
    | some session =>
      some { d with session, inbox := d.inbox ++ d.executor.ownFills (d.dispatched source a) }
  | .submit request parent_id arrival_price =>
    some (d.called (d.executor.submit request parent_id arrival_price).2 d.session.engine)
  | .on_market instrument ctx =>
    if d.sinkOpen then
      let (_, x, e) := d.executor.on_market engineSink d.session.engine instrument ctx
      some (d.called x e)
    else none
  | .on_fill =>
    match d.inbox with
    | [] => none
    | f :: rest => some { d with executor := (d.executor.on_fill f).2, inbox := rest }
  | .cancel parent_id =>
    if d.sinkOpen then
      let (_, x, e) := d.executor.cancel engineSink d.session.engine parent_id
      some (d.called x e)
    else none
  | .expire_stale now =>
    if d.sinkOpen then
      let (_, x, e) := d.executor.expire_stale engineSink d.session.engine now
      some (d.called x e)
    else none

/-- An executor that was just built, over any algorithm. -/
structure Desk.Initial (d : Desk R Q) : Prop where
  session : d.session.Initial
  plans_empty : d.executor.plans = ∅
  children_empty : d.executor.child_to_parent = ∅
  stats_empty : d.executor.stats = {}
  inbox_empty : d.inbox = []

/-- Every run of an executor behind the engine's sink, whatever its algorithm,
    the market, and whoever else moves the engine. -/
def deskMachine (R : Type) (source : IMarketDataSource Q) : Machine (Desk R Q) DeskMove where
  Init := Desk.Initial
  step := Desk.step source

variable {source}

/-- What a move of a run can be: a move of the engine, a fill that is handed
over, or turns of the executor. -/
theorem Desk.step_cases {d t : Desk R Q} {l : DeskMove} (hstep : d.step source l = some t) :
    (∃ a session, l = .engine a ∧ d.session.step source a = some session ∧
      t = { d with session, inbox := d.inbox ++ d.executor.ownFills (d.dispatched source a) }) ∨
    (∃ f rest, l = .on_fill ∧ d.inbox = f :: rest ∧
      t = { d with executor := (d.executor.on_fill f).2, inbox := rest }) ∨
    (∃ x e, Turns d.executor d.session.engine x e ∧ t = d.called x e) := by
  cases l with
  | engine a =>
    simp only [Desk.step] at hstep
    split at hstep
    · cases hstep
    · rename_i session hsession
      cases hstep
      exact .inl ⟨a, session, rfl, hsession, rfl⟩
  | submit request parent_id arrival_price =>
    cases hstep
    exact .inr (.inr ⟨_, _, d.executor.submit_turns d.session.engine request parent_id arrival_price, rfl⟩)
  | on_market instrument ctx =>
    simp only [Desk.step, Option.ite_none_right_eq_some, Option.some.injEq] at hstep
    exact .inr (.inr ⟨_, _, d.executor.on_market_turns d.session.engine instrument ctx, hstep.2.symm⟩)
  | on_fill =>
    simp only [Desk.step] at hstep
    split at hstep
    · cases hstep
    · rename_i f rest hinbox
      cases hstep
      exact .inr (.inl ⟨f, rest, rfl, hinbox, rfl⟩)
  | cancel parent_id =>
    simp only [Desk.step, Option.ite_none_right_eq_some, Option.some.injEq] at hstep
    exact .inr (.inr ⟨_, _, d.executor.cancel_turns d.session.engine parent_id, hstep.2.symm⟩)
  | expire_stale now =>
    simp only [Desk.step, Option.ite_none_right_eq_some, Option.some.injEq] at hstep
    exact .inr (.inr ⟨_, _, d.executor.expire_stale_turns d.session.engine now, hstep.2.symm⟩)

/-- A move of the engine that is not the executor's submits an order of
somebody else's, or takes away. What no longer rests was filled or removed. -/
theorem Desk.engine_effect {d : Desk R Q} {a : Action} {session : Session R Q}
    (hagreed : d.session.engine.Agreed) (hstep : d.session.step source a = some session) :
    session.engine.Agreed ∧
      ((∃ order, a = .submit order ∧ d.session.engine.Enters session.engine order) ∨
        (d.session.engine.Shrinks session.engine (d.dispatched source a) ∧
          ∀ id, d.session.engine.Live id → session.engine.Live id ∨
            (∃ f ∈ d.dispatched source a, f.order_id = id) ∨ id ∈ d.removed source a)) := by
  obtain ⟨ev, q, now, e, rfl, -, hnext, habsorb, rfl⟩ | ⟨order, rfl, rfl⟩ | ⟨id, rfl, rfl⟩ | ⟨rfl, rfl⟩ |
    ⟨ev, e, rfl, -, hsettle, rfl⟩ := Session.step_cases hstep
  · have hdispatched : d.dispatched source .arrive = d.session.engine.fillsOf now ev := by
      simp only [Desk.dispatched, hnext]
    have hremoved : d.removed source .arrive = d.session.engine.killsOf ev := by
      simp only [Desk.removed, hnext]
    rw [hdispatched, hremoved]
    exact ⟨Engine.agreed_absorb hagreed habsorb, .inr (Engine.absorb_shrinks hagreed habsorb)⟩
  · refine ⟨Engine.agreed_submit hagreed order, ?_⟩
    obtain ⟨-, hshrinks, hpending⟩ | ⟨-, henters⟩ := d.session.engine.submit_enters order
    · refine .inr ⟨hshrinks, fun id hlive => .inl ?_⟩
      rw [Engine.Live]
      dsimp only
      rw [hpending]
      exact hlive
    · exact .inl ⟨order, rfl, henters⟩
  · obtain ⟨hshrinks, -, hothers⟩ := Engine.cancel_shrinks hagreed id
    refine ⟨Engine.agreed_cancel hagreed id, .inr ⟨hshrinks, fun other hlive => ?_⟩⟩
    by_cases hsame : other = id
    · exact .inr (.inr (List.mem_singleton.mpr hsame))
    · exact .inl ((hothers other hsame).mpr hlive)
  · exact ⟨Engine.agreed_next_order_id hagreed,
      .inr ⟨Engine.shrinks_next_order_id _, fun _ hlive => .inl hlive⟩⟩
  · have hsettles := Engine.settle_settles hsettle
    have hbroker : e.broker = d.session.engine.broker := hsettles.broker_eq
    refine ⟨?_, .inr ⟨Engine.settle_shrinks hsettle, fun id hlive => .inl ?_⟩⟩
    · rw [Engine.Agreed, hsettles.oms_eq, hbroker]
      exact hagreed
    · rw [Engine.Live]
      dsimp only
      rw [hbroker]
      exact hlive

/-! ### Concrete runs -/

/-- Ten shares to buy, at once. -/
def dayBuyRequest : ExecutionRequest where
  parent := dayBuy
  window_begin := 0
  window_end := 10000000

/-- A new executor over a replay of these events. -/
def flatDesk (events : List MarketEvent) (algorithm : IExecutionAlgorithm := ImmediateAlgorithm)
    (h : (ReplaySource.create events (some 0)).toOption.isSome = true := by decide +kernel) :
    Desk Unit ReplaySource where
  session := flatSession events {} {} h
  executor := { algorithm := some algorithm }

theorem flatDesk_reached {G : Desk Unit ReplaySource → DeskMove → Prop} (events : List MarketEvent)
    (algorithm : IExecutionAlgorithm) (h : (ReplaySource.create events (some 0)).toOption.isSome = true) :
    (deskMachine Unit replay).Reaches G (flatDesk events algorithm h) :=
  .init ⟨⟨rfl, _, ⟨rfl, rfl, rfl, rfl⟩, rfl⟩, rfl, rfl, rfl, rfl⟩

/-- A market that is open at an instant. -/
def openMarket (now : Timestamp) : ExecutionContext := { now, market := { executable := true } }

/-- The order manager comes to know a parent, and its execution sends the first
child, which is order 2. -/
def sendFirstChild : List DeskMove :=
  [.engine .arrive, .engine .next_order_id, .engine (.submit dayBuy), .engine (.cancel 1),
    .submit dayBuyRequest 1 100, .on_market 0 (openMarket 1)]

/-- The next event, and the one fill it brings. -/
def fillOnce : List DeskMove := [.engine .settle, .engine .arrive, .on_fill]

end ptl.algo
