import TradingLab.Core.Numbers
import TradingLab.Engine.Moves
import TradingLab.Live.Registries
import TradingLab.Live.Session

/-! The runs of a live session: any calls in any order, whatever the venue
delivers and when, and inside a step the engine's moves, whatever the strategy
does. -/

open ptl.oms ptl.portfolio ptl.market ptl.risk ptl.execution ptl.accounting ptl.storage ptl.engine

namespace ptl.live

variable {R S T F : Type}

/-! ### Where a message goes -/

/-- The components that poll the connection. -/
inductive Consumer where
  | broker
  | market_data
  deriving DecidableEq

/-- What became of a message that the connection accepted. -/
inductive Reception where
  | heard
  | refused
  | event (ev : MarketEvent)
  | stale
  | malformed
  | ignored
  | lost

/-- A message that the connection accepted: who polled it and when, and what
became of it. -/
structure Receipt where
  message : BrokerMessage
  consumer : Consumer
  polled : Timestamp
  reception : Reception

def Receipt.event (d : Receipt) : Option MarketEvent :=
  match d.reception with
  | .event ev => some ev
  | _ => none

/-- What becomes of the messages of the broker's poll. It passes over market
data, and those behind a refused message are lost. -/
def LiveBroker.receipts (translator : IOrderTranslator) (b : LiveBroker R T) :
    List BrokerMessage → List Receipt
  | [] => []
  | m :: rest =>
    match b.apply translator m with
    | (.error _, _) => ⟨m, .broker, b.clock, .refused⟩ :: rest.map (⟨·, .broker, b.clock, .lost⟩)
    | (.ok _, b') =>
      ⟨m, .broker, b.clock, if m.isMarketData then .ignored else .heard⟩ :: b'.receipts translator rest

/-- What `take` makes of a message. -/
def LiveMarketDataAdapter.reception (a : LiveMarketDataAdapter) (now : Timestamp) (m : BrokerMessage) :
    Reception :=
  if ¬ m.isMarketData then .ignored
  else if is_set a.last_event_time ∧ m.eventTime now < a.last_event_time then .stale
  else
    match m.toEvent (m.eventTime now) with
    | .error _ => .malformed
    | .ok ev => .event ev

/-- What becomes of the messages of a pump. -/
def LiveMarketDataAdapter.receipts (a : LiveMarketDataAdapter) (now : Timestamp) :
    List BrokerMessage → List Receipt
  | [] => []
  | m :: rest =>
    ⟨m, .market_data, now, a.reception now m⟩ ::
      match a.take now m with
      | .error _ => rest.map (⟨·, .market_data, now, .lost⟩)
      | .ok (_, a) => a.receipts now rest

/-! ### Runs -/

inductive LiveStage where
  | rest
  | supervised
  | collected
  | turn (handling : Option MarketEvent)
  | settled

/-- A session with the step it is in, how that step began, and what happened
since the session was built: the messages its connection accepted, what became
of them, and the events its engine was handed. -/
structure LiveRun (R T F : Type) where
  session : LiveSession R T F
  stage : LiveStage := .rest
  opening : Opening := {}
  accepted : List BrokerMessage := []
  log : List Receipt := []
  handed : List MarketEvent := []

inductive LiveMove (T : Type) where
  | start (answer : Result Unit)
  | halt (reason : String)
  | resume
  | request_stop
  | persist
  | reconcile
  | shutdown
  | kill (transport : T)
  | elsewhere (now : Timestamp) (transport : T)
  | enter
  | collect
  | pump
  | engine (a : Action)
  | between
  | leave

/-- The session a restart would build, over a new connection. -/
def LiveSession.rebuilt (p : LiveSession R T F) (transport : T) : LiveSession R T F where
  config := p.config
  engine :=
    { clock := p.engine.clock
      broker := { p.engine.broker with pending := [] }
      pf := Portfolio.new p.engine.pf.cfg
      risk := { limits := p.engine.risk.limits } }
  connection :=
    { heartbeat := { config := p.connection.heartbeat.config }
      supervisor := { config := p.connection.supervisor.config } }
  transport
  broker := { config := p.broker.config }
  artifacts := p.artifacts

open LiveSession

variable (fmt : DoubleFormat Rat) (fs : IFileSystem F) (transport : ILiveTransport T)
  (translator : IOrderTranslator)

/-- A call between two steps, whatever it returns. -/
def LiveRun.call (r : LiveRun R T F) (p : LiveSession R T F) : Option (LiveRun R T F) :=
  match r.stage with
  | .rest => some { r with session := p }
  | _ => none

/-- A step begins with a look at the connection. -/
def LiveRun.entered (r : LiveRun R T F) : LiveRun R T F :=
  let (result, session) := r.session.supervise transport
  { r with
    session
    stage := match result with
      | .ok _ => .supervised
      | .error _ => .rest
    opening := {
      permitted := r.session.phase = .Running
      pending := idsOf r.session.engine.broker.pending } }

/-- The messages the connection accepts next. -/
def LiveSession.batch (p : LiveSession R T F) : List BrokerMessage :=
  (p.connection.poll transport p.transport p.engine.clock).1

def LiveRun.collected (r : LiveRun R T F) : LiveRun R T F :=
  let (result, session) := r.session.collect transport translator
  { r with
    session
    stage := match result with
      | .ok _ => .collected
      | .error _ => .rest
    accepted := r.accepted ++ r.session.batch transport
    log := r.log ++ (r.session.liveBroker.drained transport).receipts translator (r.session.batch transport) }

def LiveRun.pumped (r : LiveRun R T F) : LiveRun R T F :=
  let (result, session) := r.session.pump transport
  { r with
    session
    stage := match result with
      | .ok _ => .turn none
      | .error _ => .rest
    accepted := r.accepted ++ r.session.batch transport
    log := r.log ++ r.session.market_data.receipts r.session.engine.clock (r.session.batch transport) }

/-- The run after a move of the engine to `t`. -/
def LiveRun.turned (r : LiveRun R T F) (a : Action) (t : Session R LiveMarketDataAdapter) : LiveRun R T F :=
  let after : LiveRun R T F := { r with
    session := { r.session with engine := t.engine, market_data := t.source }
    stage := .turn t.handling }
  match a with
  | .settle => { after with stage := .settled }
  | .arrive => { after with handed := r.handed ++ t.handling.toList }
  | _ => after

/-- A move of the engine inside a step. The loop of the step asks for no event
once a stop was requested. -/
def LiveRun.turn (r : LiveRun R T F) (handling : Option MarketEvent) (a : Action) : Option (LiveRun R T F) :=
  if handling.isNone ∧ r.session.stop_requested then none
  else
    (Session.step liveSource
      { engine := r.session.engine, source := r.session.market_data, handling } a).map (r.turned a)

/-- One move. The clock and what the transport has to deliver change when they
will. Moves that would end the step with an engine's error are refused: the
session is over. -/
def LiveRun.step (r : LiveRun R T F) : LiveMove T → Option (LiveRun R T F)
  | .start answer => r.call (r.session.start fmt fs transport (starts answer) ()).2.1
  | .halt reason => r.call (r.session.halt reason)
  | .resume => r.call r.session.resume.2
  | .request_stop => r.call r.session.request_stop
  | .persist => r.call (r.session.persist fmt fs).2
  | .reconcile => r.call r.session.reconcile.2
  | .shutdown => r.call (r.session.shutdown fmt fs transport (starts (.ok ())) ()).2.1
  | .kill transport => some { session := r.session.rebuilt transport }
  | .elsewhere now transport =>
    some { r with
      session := { r.session with transport, engine := { r.session.engine with clock := now } } }
  | .enter =>
    match r.stage with
    | .rest => if ¬ is_terminal r.session.phase ∧ r.session.emplaced then some (r.entered transport) else none
    | _ => none
  | .collect =>
    match r.stage with
    | .supervised => some (r.collected transport translator)
    | _ => none
  | .pump =>
    match r.stage with
    | .collected => some (r.pumped transport)
    | _ => none
  | .engine a =>
    match r.stage with
    | .turn handling => r.turn handling a
    | _ => none
  | .between =>
    match r.stage with
    | .settled =>
      let (result, session) := r.session.between fmt fs
      some { r with
        session
        stage := match result with
          | .ok _ => .turn none
          | .error _ => .rest }
    | _ => none
  | .leave =>
    match r.stage with
    | .turn none => some { r with stage := .rest }
    | _ => none

/-- A session that was just built, its engine still to come. -/
def LiveRun.Initial (r : LiveRun R T F) : Prop :=
  ∃ p : LiveSession R T F, p.phase = .Created ∧ p.emplaced = false ∧ p.engine.Fresh ∧
    p.engine.state = ∅ ∧ p.market_data = {} ∧ r = { session := p }

def liveMachine (R : Type) : Machine (LiveRun R T F) (LiveMove T) where
  Init := LiveRun.Initial
  step := LiveRun.step fmt fs transport translator

/-! ### What a call leaves alone -/

variable {fmt fs transport translator}

/-- What the calls leave alone that neither poll nor move the engine. -/
structure LiveSession.Rests (p p' : LiveSession R T F) : Prop where
  market_data_eq : p'.market_data = p.market_data
  broker_eq : p'.engine.broker = p.engine.broker
  fills_eq : p'.engine.journal.fills = p.engine.journal.fills
  state_eq : p'.engine.state = p.engine.state ∨ p'.engine.state = ∅

theorem LiveSession.Rests.of_engine {p p' : LiveSession R T F} (hdata : p'.market_data = p.market_data)
    (hengine : p'.engine = p.engine) : p.Rests p' :=
  ⟨hdata, congrArg Engine.broker hengine, congrArg (·.journal.fills) hengine,
    .inl (congrArg Engine.state hengine)⟩

theorem LiveSession.Rests.refl (p : LiveSession R T F) : p.Rests p :=
  .of_engine rfl rfl

theorem LiveSession.Rests.trans {p p' p'' : LiveSession R T F} (hfirst : p.Rests p') (hsecond : p'.Rests p'') :
    p.Rests p'' where
  market_data_eq := hsecond.market_data_eq.trans hfirst.market_data_eq
  broker_eq := hsecond.broker_eq.trans hfirst.broker_eq
  fills_eq := hsecond.fills_eq.trans hfirst.fills_eq
  state_eq := by
    rcases hsecond.state_eq with hsame | hempty
    · rw [hsame]
      exact hfirst.state_eq
    · exact .inr hempty

variable (fmt fs) in
theorem LiveSession.persist_rests (p : LiveSession R T F) : p.Rests (p.persist fmt fs).2 := by
  unfold persist
  dsimp only
  split <;> exact .of_engine rfl rfl

theorem LiveSession.halt_rests (p : LiveSession R T F) (reason : String) : p.Rests (p.halt reason) := by
  unfold halt
  split <;> exact .of_engine rfl rfl

theorem LiveSession.resume_rests (p : LiveSession R T F) : p.Rests p.resume.2 := by
  unfold resume
  split
  · exact .refl p
  · split <;> exact .of_engine rfl rfl

theorem LiveSession.reconcile_rests (p : LiveSession R T F) : p.Rests p.reconcile.2 := by
  unfold reconcile
  dsimp only
  split
  · exact .of_engine rfl rfl
  · split
    · refine LiveSession.Rests.trans ?_ (halt_rests _ _)
      exact .of_engine rfl rfl
    · exact .of_engine rfl rfl

theorem LiveSession.review_rests (p : LiveSession R T F) : p.Rests p.review := by
  unfold review
  split
  · exact p.reconcile_rests
  · exact .refl p

/-- The bookkeeping between two events is no business of the engine's. -/
theorem LiveSession.between_rests (p : LiveSession R T F) : p.Rests (p.between fmt fs).2 := by
  have htallied : p.Rests p.tally := .of_engine rfl rfl
  have hreviewed := htallied.trans p.tally.review_rests
  unfold between
  dsimp only
  split
  · exact hreviewed.trans (persist_rests fmt fs _)
  · exact hreviewed

theorem LiveSession.reconnect_rests (p : LiveSession R T F) : p.Rests (p.reconnect transport).2 := by
  unfold reconnect
  split
  · exact .of_engine rfl rfl
  · exact .of_engine rfl rfl
  · dsimp only
    split <;> exact .of_engine rfl rfl

theorem LiveSession.supervise_rests (p : LiveSession R T F) : p.Rests (p.supervise transport).2 := by
  have hwatched : p.Rests p.watch := .of_engine rfl rfl
  unfold supervise
  dsimp only
  split
  · exact hwatched.trans p.watch.reconnect_rests
  · exact hwatched

variable (fmt fs) in
theorem LiveSession.recover_rests (p : LiveSession R T F) : p.Rests (p.recover fmt fs).2 := by
  unfold recover
  split
  · exact .refl p
  · split
    · exact .refl p
    · split
      · exact .refl p
      · split <;> exact .of_engine rfl rfl

theorem LiveSession.start_rests (strategy : IStrategy S) (p : LiveSession R T F) (s : S) :
    p.Rests (p.start fmt fs transport strategy s).2.1 := by
  unfold start
  split
  · exact .refl p
  · dsimp only
    have hconnected : p.Rests { p with
        connection := (p.connection.connect transport p.transport p.engine.clock).2.1
        transport := (p.connection.connect transport p.transport p.engine.clock).2.2 } := .of_engine rfl rfl
    have hrecovered := hconnected.trans (recover_rests fmt fs _)
    revert hrecovered
    split
    · exact fun _ => .of_engine rfl rfl
    · rcases recover fmt fs _ with ⟨recovered, p'⟩
      intro hrecovered
      cases recovered with
      | error e => exact hrecovered.trans (.of_engine rfl rfl)
      | ok done =>
        dsimp only
        split
        · exact hrecovered.trans (.of_engine rfl rfl)
        · split
          · exact hrecovered.trans ⟨rfl, rfl, rfl, .inr rfl⟩
          · rename_i w hbegin
            unfold World.begin at hbegin
            split at hbegin
            · cases hbegin
            · cases hbegin
              exact hrecovered.trans ⟨rfl, rfl, rfl, .inr rfl⟩

theorem LiveSession.shutdown_rests (strategy : IStrategy S) (p : LiveSession R T F) (s : S) :
    p.Rests (p.shutdown fmt fs transport strategy s).2.1 := by
  unfold shutdown
  split
  · exact .refl p
  · dsimp only
    have hclosed : p.Rests (if p.emplaced = true then
        ({ p with
          phase := .Stopping
          engine := ((({ p with phase := LiveSessionPhase.Stopping }).world s).finish strategy).2.engine },
          ((({ p with phase := LiveSessionPhase.Stopping }).world s).finish strategy).2.strategy)
        else ({ p with phase := .Stopping }, s)).1 := by
      split <;> exact ⟨rfl, rfl, rfl, .inl rfl⟩
    have hsaved := hclosed.trans (persist_rests fmt fs _)
    revert hsaved
    rcases persist fmt fs _ with ⟨result, p'⟩
    intro hsaved
    cases result with
    | error e => exact hsaved.trans (.of_engine rfl rfl)
    | ok done => exact hsaved.trans (.of_engine rfl rfl)

/-! ### What a move does -/

/-- Nothing new was received or handed over, and the session rested. -/
structure LiveRun.SameHistory (r t : LiveRun R T F) : Prop where
  accepted_eq : t.accepted = r.accepted
  log_eq : t.log = r.log
  handed_eq : t.handed = r.handed
  rests : r.session.Rests t.session

theorem LiveRun.collect_eq {r t : LiveRun R T F} (hstep : r.step fmt fs transport translator .collect = some t) :
    t = r.collected transport translator := by
  simp only [LiveRun.step] at hstep
  split at hstep
  · cases hstep
    rfl
  · cases hstep

theorem LiveRun.pump_eq {r t : LiveRun R T F} (hstep : r.step fmt fs transport translator .pump = some t) :
    t = r.pumped transport := by
  simp only [LiveRun.step] at hstep
  split at hstep
  · cases hstep
    rfl
  · cases hstep

theorem LiveRun.engine_eq {r t : LiveRun R T F} {a : Action}
    (hstep : r.step fmt fs transport translator (.engine a) = some t) :
    ∃ handling x, Session.step liveSource
      { engine := r.session.engine, source := r.session.market_data, handling } a = some x ∧
      t = r.turned a x := by
  simp only [LiveRun.step] at hstep
  split at hstep
  · rename_i handling hstage
    unfold LiveRun.turn at hstep
    split at hstep
    · cases hstep
    · obtain ⟨x, hmoved, rfl⟩ := Option.map_eq_some_iff.mp hstep
      exact ⟨handling, x, hmoved, rfl⟩
  · cases hstep

/-- A move replaces the session, begins a step, leaves what was received and
filled as it was, or is a poll or a move of the engine. -/
theorem LiveRun.step_cases {r t : LiveRun R T F} {l : LiveMove T}
    (hstep : r.step fmt fs transport translator l = some t) :
    (∃ delivers, t = { session := r.session.rebuilt delivers }) ∨
    (r.SameHistory t ∧ t.opening =
      { permitted := r.session.phase = .Running, pending := idsOf r.session.engine.broker.pending }) ∨
    (r.SameHistory t ∧ t.opening = r.opening) ∨
    (l = .collect ∧ t = r.collected transport translator) ∨
    (l = .pump ∧ t = r.pumped transport) ∨
    (∃ handling a x, l = .engine a ∧
      Session.step liveSource
        { engine := r.session.engine, source := r.session.market_data, handling } a = some x ∧
      t = r.turned a x) := by
  have hcall : ∀ p : LiveSession R T F, r.session.Rests p → r.call p = some t →
      r.SameHistory t ∧ t.opening = r.opening := by
    intro p hrests hcalled
    unfold LiveRun.call at hcalled
    split at hcalled
    · cases hcalled
      exact ⟨⟨rfl, rfl, rfl, hrests⟩, rfl⟩
    · cases hcalled
  cases l with
  | start answer => exact .inr (.inr (.inl (hcall _ (start_rests _ _ _) hstep)))
  | halt reason => exact .inr (.inr (.inl (hcall _ (halt_rests _ _) hstep)))
  | resume => exact .inr (.inr (.inl (hcall _ (resume_rests _) hstep)))
  | request_stop => exact .inr (.inr (.inl (hcall r.session.request_stop (.of_engine rfl rfl) hstep)))
  | persist => exact .inr (.inr (.inl (hcall _ (persist_rests fmt fs _) hstep)))
  | reconcile => exact .inr (.inr (.inl (hcall _ (reconcile_rests _) hstep)))
  | shutdown => exact .inr (.inr (.inl (hcall _ (shutdown_rests _ _ _) hstep)))
  | kill delivers =>
    cases hstep
    exact .inl ⟨delivers, rfl⟩
  | elsewhere now delivers =>
    cases hstep
    exact .inr (.inr (.inl ⟨⟨rfl, rfl, rfl, ⟨rfl, rfl, rfl, .inl rfl⟩⟩, rfl⟩))
  | enter =>
    simp only [LiveRun.step] at hstep
    split at hstep
    · split at hstep
      · cases hstep
        exact .inr (.inl ⟨⟨rfl, rfl, rfl, supervise_rests _⟩, rfl⟩)
      · cases hstep
    · cases hstep
  | collect => exact .inr (.inr (.inr (.inl ⟨rfl, LiveRun.collect_eq hstep⟩)))
  | pump => exact .inr (.inr (.inr (.inr (.inl ⟨rfl, LiveRun.pump_eq hstep⟩))))
  | engine a =>
    obtain ⟨handling, x, hmoved, hturned⟩ := LiveRun.engine_eq hstep
    exact .inr (.inr (.inr (.inr (.inr ⟨handling, a, x, rfl, hmoved, hturned⟩))))
  | between =>
    simp only [LiveRun.step] at hstep
    split at hstep
    · cases hstep
      exact .inr (.inr (.inl ⟨⟨rfl, rfl, rfl, between_rests _⟩, rfl⟩))
    · cases hstep
  | leave =>
    simp only [LiveRun.step] at hstep
    split at hstep
    · cases hstep
      exact .inr (.inr (.inl ⟨⟨rfl, rfl, rfl, .refl _⟩, rfl⟩))
    · cases hstep

/-! ### The executable step stays inside the machine -/

variable {strategy : IStrategy S}

/-- Between two moves of a step, with any history. -/
def LiveRun.ReachedAt (fmt : DoubleFormat Rat) (fs : IFileSystem F) (transport : ILiveTransport T)
    (translator : IOrderTranslator) (p : LiveSession R T F) (stage : LiveStage) : Prop :=
  ∃ r : LiveRun R T F, (liveMachine fmt fs transport translator R).Reachable r ∧ r.session = p ∧
    r.stage = stage

/-- Where a step stands after a move of the engine. -/
def LiveStage.after (handling : Option MarketEvent) : Action → LiveStage
  | .settle => .settled
  | _ => .turn handling

theorem LiveRun.turn_reachable {p : LiveSession R T F} {handling : Option MarketEvent} {a : Action}
    {t : Session R LiveMarketDataAdapter} (hstop : handling = none → p.stop_requested = false)
    (hmoved : Session.step liveSource { engine := p.engine, source := p.market_data, handling } a = some t)
    (hreach : LiveRun.ReachedAt fmt fs transport translator p (.turn handling)) :
    LiveRun.ReachedAt fmt fs transport translator { p with engine := t.engine, market_data := t.source }
      (.after t.handling a) := by
  obtain ⟨r, hr, rfl, hstage⟩ := hreach
  refine ⟨r.turned a t, hr.step trivial (l := .engine a) ?_, ?_, ?_⟩
  · have hgoes : ¬ (handling.isNone ∧ r.session.stop_requested) := by
      rintro ⟨hnone, hstopped⟩
      rw [hstop (by simpa using hnone)] at hstopped
      cases hstopped
    simp only [liveMachine, LiveRun.step, hstage, LiveRun.turn, if_neg hgoes, hmoved, Option.map_some]
  · cases a <;> rfl
  · cases a <;> rfl

theorem LiveRun.sink_reachable {p : LiveSession R T F} {ev : MarketEvent} {calls : List Action}
    {x : Session R LiveMarketDataAdapter} (hcalls : ∀ a ∈ calls, a.isSink = true)
    (hexec : (engineMachine R liveSource).exec
      { engine := p.engine, source := p.market_data, handling := some ev } calls = some x)
    (hreach : LiveRun.ReachedAt fmt fs transport translator p (.turn (some ev))) :
    LiveRun.ReachedAt fmt fs transport translator { p with engine := x.engine, market_data := x.source }
      (.turn x.handling) := by
  induction calls generalizing p with
  | nil =>
    cases hexec
    exact hreach
  | cons a calls ih =>
    obtain ⟨hsink, hrest⟩ := List.forall_mem_cons.mp hcalls
    simp only [Machine.exec] at hexec
    split at hexec
    · rename_i t hstep
      have hstep' : Session.step liveSource
          { engine := p.engine, source := p.market_data, handling := some ev } a = some t := hstep
      have hhandling : t.handling = some ev := Session.sink_handling hstep' hsink
      have hstage : LiveStage.after t.handling a = .turn (some ev) := by
        rw [hhandling]
        cases a with
        | settle => cases hsink
        | arrive => rfl
        | submit order => rfl
        | cancel id => rfl
        | next_order_id => rfl
      have hmoved := LiveRun.turn_reachable (fun hnone => absurd hnone (Option.some_ne_none ev)) hstep'
        hreach
      rw [hstage] at hmoved
      have hsame : t = { engine := t.engine, source := t.source, handling := some ev } := by
        rw [← hhandling]
      rw [hsame] at hexec
      exact ih (p := { p with engine := t.engine, market_data := t.source }) hrest hexec hmoved
    · cases hexec

/-- An event of the loop is a move of arrival, the sink moves of its callback and
a move of settlement. -/
theorem LiveRun.event_reachable {p : LiveSession R T F} {s : S} {w : World R S LiveMarketDataAdapter}
    (hstop : p.stop_requested = false) (hnext : (p.world s).next strategy liveSource = .ok (some w))
    (hreach : LiveRun.ReachedAt fmt fs transport translator p (.turn none)) :
    LiveRun.ReachedAt fmt fs transport translator { p with engine := w.engine, market_data := w.source }
      .settled := by
  obtain ⟨ev, e₁, e₂, calls, hcalls, harrive, hexec, hsettle⟩ := World.next_exec hnext
  have harrive' : Session.step liveSource
      { engine := p.engine, source := p.market_data, handling := none } .arrive =
        some { engine := e₁, source := w.source, handling := some ev } := harrive
  have harrived := LiveRun.turn_reachable (fun _ => hstop) harrive' hreach
  have hcalled := LiveRun.sink_reachable (p := { p with engine := e₁, market_data := w.source }) hcalls
    hexec harrived
  exact LiveRun.turn_reachable (by nofun) hsettle hcalled

theorem LiveRun.advance_reachable {n made : Nat} {p p' : LiveSession R T F} {s s' : S}
    (hadvance : p.advance fmt fs strategy n s = (.ok made, p', s'))
    (hreach : LiveRun.ReachedAt fmt fs transport translator p (.turn none)) :
    LiveRun.ReachedAt fmt fs transport translator p' (.turn none) := by
  induction n generalizing p s made with
  | zero =>
    cases hadvance
    exact hreach
  | succ n ih =>
    rw [advance] at hadvance
    split at hadvance
    · cases hadvance
      exact hreach
    · rename_i hstop
      split at hadvance
      · cases hadvance
      · cases hadvance
      · cases hadvance
        exact hreach
      · rename_i made w hstep
        have hsettled := LiveRun.event_reachable (by simpa using hstop) (World.next_of_step hstep) hreach
        split at hadvance
        · cases hadvance
        · rename_i done p₁ hbetween
          have hbooked : LiveRun.ReachedAt fmt fs transport translator p₁ (.turn none) := by
            obtain ⟨r, hr, hsession, hstage⟩ := hsettled
            refine ⟨{ r with session := p₁, stage := .turn none }, hr.step trivial (l := .between) ?_,
              rfl, rfl⟩
            rw [← hsession] at hbetween
            simp only [liveMachine, LiveRun.step, hstage, hbetween]
          cases hrest : p₁.advance fmt fs strategy n w.strategy with
          | mk processed rest =>
            rw [hrest] at hadvance
            cases processed with
            | error failure => cases hadvance
            | ok processed =>
              cases hadvance
              exact ih hrest hbooked

/-- A call of `step` that returns a count is a run of the machine. -/
theorem LiveSession.step_reachable {max_events made : Nat} {p p' : LiveSession R T F} {s s' : S}
    (hstep : p.step fmt fs transport strategy translator s max_events = (.ok made, p', s'))
    (hreach : LiveRun.ReachedAt fmt fs transport translator p .rest) :
    LiveRun.ReachedAt fmt fs transport translator p' .rest := by
  unfold step at hstep
  split at hstep
  · cases hstep
  · rename_i hphase
    split at hstep
    · cases hstep
    · rename_i hemplaced
      split at hstep
      · cases hstep
      · rename_i done p₁ hsupervise
        split at hstep
        · cases hstep
        · rename_i done p₂ hcollect
          split at hstep
          · cases hstep
          · rename_i done p₃ hpump
            obtain ⟨r, hr, rfl, hstage⟩ := hreach
            have hentered := hr.step trivial (l := .enter) (t := r.entered transport) (by
              simp only [liveMachine, LiveRun.step, hstage]
              rw [if_pos ⟨hphase, by simpa using hemplaced⟩])
            have hsupervised : (r.entered transport).stage = .supervised := by
              simp only [LiveRun.entered, hsupervise]
            have hsession : (r.entered transport).session = p₁ := by
              simp only [LiveRun.entered, hsupervise]
            rw [← hsession] at hcollect
            have hcollected := hentered.step trivial (l := .collect)
              (t := (r.entered transport).collected transport translator) (by
                simp only [liveMachine, LiveRun.step, hsupervised])
            have hdrained : ((r.entered transport).collected transport translator).stage = .collected := by
              simp only [LiveRun.collected, hcollect]
            have hsession₂ : ((r.entered transport).collected transport translator).session = p₂ := by
              simp only [LiveRun.collected, hcollect]
            rw [← hsession₂] at hpump
            have hpumped := hcollected.step trivial (l := .pump)
              (t := ((r.entered transport).collected transport translator).pumped transport) (by
                simp only [liveMachine, LiveRun.step, hdrained])
            have hturned : LiveRun.ReachedAt fmt fs transport translator p₃ (.turn none) :=
              ⟨_, hpumped, by simp only [LiveRun.pumped, hpump], by simp only [LiveRun.pumped, hpump]⟩
            obtain ⟨x, hx, hsession₃, hstage₃⟩ := LiveRun.advance_reachable hstep hturned
            refine ⟨{ x with stage := .rest }, hx.step trivial (l := .leave) ?_, hsession₃, rfl⟩
            simp only [liveMachine, LiveRun.step, hstage₃]

/-! ### A concrete session -/

/-- A session in memory over a scripted transport and an engine with flat
costs. -/
def flatLive : LiveSession Unit ScriptedTransport (List (String × String)) where
  engine := {
    clock := 0
    broker := { costs := flatCosts, latency := flatLatency, latency_rng := (), slippage_rng := (), fill_cfg := {} }
    pf := Portfolio.new {}
    risk := { limits := {} } }
  transport := {}
  artifacts := { root := "", files := [] }

theorem flatLive_reaches {G : LiveRun Unit ScriptedTransport (List (String × String)) →
    LiveMove ScriptedTransport → Prop} :
    (liveMachine wholeDoubles memoryFiles scripted sampleTranslator Unit).Reaches G { session := flatLive } :=
  .init ⟨flatLive, rfl, rfl, ⟨rfl, rfl, rfl, rfl⟩, rfl, rfl, rfl⟩

/-- A quote of the first instrument. -/
def quoteAt (time : Timestamp) : BrokerMessage :=
  { kind := .Quote, venue_time := time, instrument := 0, bid := 99, bid_size := 100, ask := 100, ask_size := 100 }

/-- A step in which the broker's poll finds some messages, and the pump others
that came since. -/
def stepMoves (now : Timestamp) (first second : List BrokerMessage) : List (LiveMove ScriptedTransport) :=
  [.elsewhere now { opened := true, inbound := first }, .enter, .collect,
    .elsewhere now { opened := true, inbound := second }, .pump]

end ptl.live
