import TradingLab.Live.Run
import TradingLab.Retry

/-! What becomes of a live session that has lost its connection. -/

open ptl.oms ptl.portfolio ptl.market ptl.risk ptl.execution ptl.accounting ptl.storage ptl.engine
open RetryPolicy (Outage Outcome Trial)

namespace ptl.live

variable {R T F : Type} {fmt : DoubleFormat Rat} {fs : IFileSystem F} {transport : ILiveTransport T}
  {translator : IOrderTranslator}

/-! ### The policy -/

def exhaustedError : Error := bad "reconnect attempts exhausted; manual intervention required"

/-- The policy that a configuration of the supervisor asks for. -/
def SupervisorConfig.policy (cfg : SupervisorConfig) : RetryPolicy Timestamp Error where
  cap := cfg.max_backoff
  limit := cfg.max_attempts
  exhausted := exhaustedError

/-! ### One attempt -/

/-- No attempt has failed since the connection was up, and the next is due. -/
structure ConnectionSupervisor.Idle (s : ConnectionSupervisor) (now : Timestamp) : Prop where
  attempts_eq : s.attempts = 0
  due : is_set s.next_attempt = true → is_set now = true ∧ s.next_attempt ≤ now

theorem ConnectionSupervisor.Idle.should_attempt {s : ConnectionSupervisor} {now : Timestamp}
    (hidle : s.Idle now) : s.should_attempt now = true := by
  have hfresh : s.exhausted = false := by
    simp only [ConnectionSupervisor.exhausted, hidle.attempts_eq, decide_eq_false_iff_not]
    omega
  unfold ConnectionSupervisor.should_attempt
  rw [hfresh]
  by_cases hset : is_set s.next_attempt = true
  · obtain ⟨hnow, hdue⟩ := hidle.due hset
    simp [hset, hnow, hdue]
  · simp [hset]

/-- What the transport answers an attempt to open it again. -/
def LiveSession.answer (transport : ILiveTransport T) (p : LiveSession R T F) : Except Error Unit :=
  (transport.open_ (transport.close p.transport)).1.map fun _ => ()

open LiveSession

/-- An attempt answers what the transport does. An open transport leaves the
connection synchronizing and the supervisor idle. -/
theorem LiveConnection.maybe_reconnect_idle (transport : ILiveTransport T) {c : LiveConnection} (t : T)
    {now : Timestamp} (hidle : c.supervisor.Idle now) :
    (∃ e, (transport.open_ (transport.close t)).1 = .error e ∧
      (c.maybe_reconnect transport t now).1 = .error e ∧
      (c.maybe_reconnect transport t now).2.1.supervisor.config = c.supervisor.config) ∨
    (∃ done, (transport.open_ (transport.close t)).1 = .ok done ∧
      (c.maybe_reconnect transport t now).1 = .ok true ∧
      (c.maybe_reconnect transport t now).2.1.state = .Synchronizing ∧
      (c.maybe_reconnect transport t now).2.1.supervisor.config = c.supervisor.config ∧
      (c.maybe_reconnect transport t now).2.1.supervisor.Idle now) := by
  have hfresh : c.supervisor.exhausted = false := by
    simp only [ConnectionSupervisor.exhausted, hidle.attempts_eq, decide_eq_false_iff_not]
    omega
  unfold LiveConnection.maybe_reconnect LiveConnection.connect
  rw [hidle.should_attempt, hfresh]
  simp only [not_true_eq_false, if_false, Bool.false_eq_true, reduceCtorEq, or_self]
  rcases hopen : transport.open_ (transport.close t) with ⟨result, t'⟩
  cases result with
  | error e => exact .inl ⟨e, rfl, rfl, rfl⟩
  | ok done => exact .inr ⟨done, rfl, rfl, rfl, rfl, rfl, fun hset => ⟨hset, le_refl now⟩⟩

/-! ### What a call does to the supervisor -/

/-- The supervisor of a session that has begun is idle until the session ends. -/
structure LiveSession.Steady (cfg : SupervisorConfig) (p : LiveSession R T F) : Prop where
  config_eq : p.connection.supervisor.config = cfg
  idle : p.emplaced = true → is_terminal p.phase = false →
    p.connection.supervisor.Idle p.engine.clock

/-- Nothing was attempted, and no session that had ended goes on. -/
structure LiveSession.Untried (p p' : LiveSession R T F) : Prop where
  supervisor_eq : p'.connection.supervisor = p.connection.supervisor
  clock_eq : p'.engine.clock = p.engine.clock
  emplaced_eq : p'.emplaced = p.emplaced
  going : is_terminal p'.phase = false → is_terminal p.phase = false

theorem LiveSession.Untried.refl (p : LiveSession R T F) : p.Untried p :=
  ⟨rfl, rfl, rfl, id⟩

theorem LiveSession.Untried.trans {p p' p'' : LiveSession R T F} (hfirst : p.Untried p')
    (hsecond : p'.Untried p'') : p.Untried p'' where
  supervisor_eq := hsecond.supervisor_eq.trans hfirst.supervisor_eq
  clock_eq := hsecond.clock_eq.trans hfirst.clock_eq
  emplaced_eq := hsecond.emplaced_eq.trans hfirst.emplaced_eq
  going hgoing := hfirst.going (hsecond.going hgoing)

theorem LiveSession.Steady.untried {cfg : SupervisorConfig} {p p' : LiveSession R T F} (hsteady : p.Steady cfg)
    (huntried : p.Untried p') : p'.Steady cfg where
  config_eq := (congrArg _ huntried.supervisor_eq).trans hsteady.config_eq
  idle hemplaced hgoing := by
    rw [huntried.supervisor_eq, huntried.clock_eq]
    exact hsteady.idle (huntried.emplaced_eq.symm.trans hemplaced) (huntried.going hgoing)

/-- A session that has ended asks nothing more of its supervisor. -/
theorem LiveSession.Steady.ended {cfg : SupervisorConfig} {p : LiveSession R T F}
    (hconfig : p.connection.supervisor.config = cfg) (hended : is_terminal p.phase = true) : p.Steady cfg :=
  ⟨hconfig, fun _ hgoing => absurd (hended.symm.trans hgoing) Bool.noConfusion⟩

theorem LiveSession.persist_untried (p : LiveSession R T F) : p.Untried (p.persist fmt fs).2 := by
  unfold persist
  dsimp only
  split <;> exact ⟨rfl, rfl, rfl, id⟩

theorem LiveSession.halt_untried (p : LiveSession R T F) (reason : String) : p.Untried (p.halt reason) := by
  unfold halt
  split
  · exact .refl p
  · rename_i hgoing
    exact ⟨rfl, rfl, rfl, fun _ => by simpa using hgoing⟩

theorem LiveSession.resume_untried (p : LiveSession R T F) : p.Untried p.resume.2 := by
  unfold resume
  split
  · exact .refl p
  · rename_i hphase
    split
    · exact .refl p
    · refine ⟨rfl, rfl, rfl, fun _ => ?_⟩
      rw [not_and_or, not_not, not_not] at hphase
      rcases hphase with hhalted | hrecovering
      · rw [hhalted]
        rfl
      · rw [hrecovering]
        rfl

theorem LiveSession.reconcile_untried (p : LiveSession R T F) : p.Untried p.reconcile.2 := by
  unfold reconcile
  dsimp only
  split
  · exact ⟨rfl, rfl, rfl, id⟩
  · split
    · refine LiveSession.Untried.trans ?_ (halt_untried _ _)
      exact ⟨rfl, rfl, rfl, id⟩
    · exact ⟨rfl, rfl, rfl, id⟩

theorem LiveSession.between_untried (p : LiveSession R T F) : p.Untried (p.between fmt fs).2 := by
  have hreviewed : p.Untried p.tally.review := by
    unfold review
    split
    · refine LiveSession.Untried.trans ?_ (reconcile_untried _)
      exact ⟨rfl, rfl, rfl, id⟩
    · exact ⟨rfl, rfl, rfl, id⟩
  unfold between
  dsimp only
  split
  · exact hreviewed.trans (persist_untried _)
  · exact hreviewed

/-- A poll is no business of the supervisor's. -/
theorem LiveConnection.receiveAll_supervisor (c : LiveConnection) (now : Timestamp) (batch : List BrokerMessage) :
    (c.receiveAll now batch).2.supervisor = c.supervisor := by
  induction batch generalizing c with
  | nil => rfl
  | cons m rest ih =>
    have hreceived : (c.receive now m).2.supervisor = c.supervisor := by
      unfold LiveConnection.receive LiveConnection.screen LiveConnection.register
      grind
    rw [LiveConnection.receiveAll]
    exact (ih _).trans hreceived

theorem LiveConnection.poll_supervisor (c : LiveConnection) (t : T) (now : Timestamp) :
    (c.poll transport t now).2.1.supervisor = c.supervisor := by
  unfold LiveConnection.poll
  split
  · rfl
  · exact c.receiveAll_supervisor now _

/-- Neither the connection nor the clock of a broker is changed by a message. -/
theorem LiveBroker.apply_apart (b : LiveBroker R T) (m : BrokerMessage) :
    (b.apply translator m).2.connection = b.connection ∧ (b.apply translator m).2.clock = b.clock := by
  have hingest : ∀ u, (b.ingest translator u).2.connection = b.connection ∧
      (b.ingest translator u).2.clock = b.clock := by
    intro u
    unfold LiveBroker.ingest
    split
    · exact ⟨rfl, rfl⟩
    · dsimp only
      split <;> exact ⟨rfl, rfl⟩
  unfold LiveBroker.apply
  split
  · exact ⟨rfl, rfl⟩
  · split
    · exact ⟨rfl, rfl⟩
    · split
      · exact ⟨rfl, rfl⟩
      · dsimp only
        split <;> exact ⟨rfl, rfl⟩
      · dsimp only
        split <;> exact ⟨rfl, rfl⟩
      · exact ⟨rfl, rfl⟩
      · exact ⟨rfl, rfl⟩
      · exact hingest _
      · exact hingest _

theorem LiveBroker.applyAll_apart (b : LiveBroker R T) (batch : List BrokerMessage) :
    (b.applyAll translator batch).2.connection = b.connection ∧
      (b.applyAll translator batch).2.clock = b.clock := by
  induction batch generalizing b with
  | nil => exact ⟨rfl, rfl⟩
  | cons m rest ih =>
    have hfirst : (b.apply translator m).2.connection = b.connection ∧ (b.apply translator m).2.clock = b.clock :=
      b.apply_apart m
    unfold LiveBroker.applyAll
    revert hfirst
    rcases b.apply translator m with ⟨result, b'⟩
    intro hfirst
    cases result with
    | error e => exact hfirst
    | ok fill => exact ⟨(ih b').1.trans hfirst.1, (ih b').2.trans hfirst.2⟩

theorem LiveSession.collect_untried (p : LiveSession R T F) :
    p.Untried (p.collect transport translator).2 := by
  have hpolled : (p.liveBroker.poll transport translator).2.connection.supervisor =
      p.connection.supervisor := by
    rw [LiveBroker.poll_eq, (LiveBroker.applyAll_apart _ _).1]
    exact p.connection.poll_supervisor p.transport p.engine.clock
  unfold collect
  dsimp only
  split <;> exact ⟨hpolled, rfl, rfl, id⟩

theorem LiveSession.pump_untried (p : LiveSession R T F) : p.Untried (p.pump transport).2 :=
  ⟨p.connection.poll_supervisor p.transport p.engine.clock, rfl, rfl, id⟩

/-- No move of the engine moves the clock of a live session. -/
theorem Session.live_clock {s s' : Session R LiveMarketDataAdapter} {a : Action}
    (hmoved : Session.step liveSource s a = some s') : s'.engine.clock = s.engine.clock := by
  obtain ⟨ev, q, now, e, -, -, hnext, habsorb, rfl⟩ | ⟨order, -, rfl⟩ | ⟨id, -, rfl⟩ | ⟨-, rfl⟩ |
    ⟨ev, e, -, -, hsettle, rfl⟩ := Session.step_cases hmoved
  · have hnow : now = s.engine.clock := by
      simp only [liveSource, LiveMarketDataAdapter.next] at hnext
      split at hnext
      · cases hnext
      · cases hnext
        rfl
    exact (Engine.absorb_clock habsorb).trans hnow
  · exact s.engine.submit_clock order
  · exact s.engine.cancel_clock id
  · rfl
  · exact (Engine.settle_settles hsettle).clock_eq

theorem LiveRun.turned_untried {r : LiveRun R T F} {handling : Option MarketEvent} {a : Action}
    {x : Session R LiveMarketDataAdapter}
    (hmoved : Session.step liveSource
      { engine := r.session.engine, source := r.session.market_data, handling } a = some x) :
    r.session.Untried (r.turned a x).session := by
  have hclock := Session.live_clock hmoved
  cases a <;> exact ⟨rfl, hclock, rfl, id⟩

theorem LiveSession.shutdown_steady {cfg : SupervisorConfig} {p : LiveSession R T F} {strategy : IStrategy Unit}
    (hsteady : p.Steady cfg) : (p.shutdown fmt fs transport strategy ()).2.1.Steady cfg := by
  unfold shutdown
  split
  · exact hsteady
  · dsimp only
    have hclosed : (if p.emplaced = true then
        ({ p with
          phase := .Stopping
          engine := ((({ p with phase := LiveSessionPhase.Stopping }).world ()).finish strategy).2.engine },
          ((({ p with phase := LiveSessionPhase.Stopping }).world ()).finish strategy).2.strategy)
        else ({ p with phase := .Stopping }, ())).1.connection = p.connection := by
      split <;> rfl
    revert hclosed
    generalize (if p.emplaced = true then
        ({ p with
          phase := .Stopping
          engine := ((({ p with phase := LiveSessionPhase.Stopping }).world ()).finish strategy).2.engine },
          ((({ p with phase := LiveSessionPhase.Stopping }).world ()).finish strategy).2.strategy)
        else ({ p with phase := .Stopping }, ())) = closed
    intro hclosed
    have hsaved : closed.1.Untried (closed.1.persist fmt fs).2 := persist_untried _
    revert hsaved
    rcases closed.1.persist fmt fs with ⟨result, p'⟩
    intro hsaved
    have hconfig : p'.connection.supervisor.config = cfg := by
      rw [hsaved.supervisor_eq, hclosed]
      exact hsteady.config_eq
    cases result with
    | error e => exact .ended hconfig rfl
    | ok done =>
      refine .ended ?_ rfl
      dsimp only
      unfold LiveConnection.disconnect
      split <;> exact hconfig

/-- What the recovered state leaves of the connection. -/
structure LiveSession.Recovers (p p' : LiveSession R T F) : Prop extends p.Untried p' where
  state_eq : p'.connection.state = p.connection.state

theorem LiveSession.recover_recovers (p : LiveSession R T F) : p.Recovers (p.recover fmt fs).2 := by
  have hsame : p.Recovers p := ⟨.refl p, rfl⟩
  unfold recover
  split
  · exact hsame
  · split
    · exact hsame
    · split
      · exact hsame
      · split
        · exact hsame
        · exact ⟨⟨rfl, rfl, rfl, id⟩, rfl⟩

/-- A connection that connects is synchronizing with an idle supervisor, or was up
already. -/
theorem LiveConnection.connect_ok {c c' : LiveConnection} {t t' : T} {now : Timestamp} {done : Bool}
    (hconnect : c.connect transport t now = (.ok done, c', t')) :
    (c'.state = .Synchronizing ∧ c'.supervisor.Idle now) ∨ c'.state = .Ready ∨ c'.state = .Connected := by
  unfold LiveConnection.connect at hconnect
  split at hconnect
  · rename_i hup
    cases hconnect
    exact .inr hup
  · dsimp only at hconnect
    split at hconnect
    · cases hconnect
    · cases hconnect
      exact .inl ⟨rfl, rfl, fun hset => ⟨hset, le_refl now⟩⟩

theorem LiveConnection.connect_config (c : LiveConnection) (t : T) (now : Timestamp) :
    (c.connect transport t now).2.1.supervisor.config = c.supervisor.config := by
  unfold LiveConnection.connect
  split
  · rfl
  · dsimp only
    split <;> rfl

theorem LiveConnection.mark_synchronized_cases (c : LiveConnection) :
    c.mark_synchronized.2.supervisor = c.supervisor ∧
      (∀ {done}, c.mark_synchronized.1 = .ok done → c.state = .Synchronizing ∨ c.state = .Degraded) := by
  unfold LiveConnection.mark_synchronized
  split
  · exact ⟨rfl, fun hok => (by cases hok)⟩
  · rename_i hstate
    refine ⟨rfl, fun _ => ?_⟩
    rwa [not_and_or, not_not, not_not] at hstate

/-- A session begins only on a connection that has just been opened. -/
theorem LiveSession.start_steady {cfg : SupervisorConfig} {p : LiveSession R T F} {answer : Result Unit}
    (hsteady : p.Steady cfg) : (p.start fmt fs transport (starts answer) ()).2.1.Steady cfg := by
  unfold start
  split
  · exact hsteady
  · have hconfig : (p.connection.connect transport p.transport p.engine.clock).2.1.supervisor.config =
        p.connection.supervisor.config := p.connection.connect_config _ _
    rw [hsteady.config_eq] at hconfig
    rcases hconnect : p.connection.connect transport p.transport p.engine.clock with ⟨connected, c, t⟩
    rw [hconnect] at hconfig
    dsimp only
    cases connected with
    | error e => exact .ended hconfig rfl
    | ok done =>
      dsimp only
      have hrecovers : LiveSession.Recovers { p with connection := c, transport := t }
          (recover fmt fs { p with connection := c, transport := t }).2 := recover_recovers _
      revert hrecovers
      rcases recover fmt fs { p with connection := c, transport := t } with ⟨recovered, p'⟩
      intro hrecovers
      have hconfig' : p'.connection.supervisor.config = cfg :=
        (congrArg _ hrecovers.supervisor_eq).trans hconfig
      cases recovered with
      | error e => exact .ended hconfig' rfl
      | ok done' =>
        dsimp only
        have hmarks := p'.connection.mark_synchronized_cases
        revert hmarks
        rcases p'.connection.mark_synchronized with ⟨synced, c'⟩
        rintro ⟨hsupervisor, hsynced⟩
        dsimp only at hsupervisor hsynced
        have hconfig'' : c'.supervisor.config = cfg := (congrArg _ hsupervisor).trans hconfig'
        cases synced with
        | error e => exact .ended hconfig'' rfl
        | ok done'' =>
          have hidle : c'.supervisor.Idle p.engine.clock := by
            rw [hsupervisor, hrecovers.supervisor_eq]
            rcases LiveConnection.connect_ok hconnect with ⟨-, hidle⟩ | hup
            · exact hidle
            · rw [hrecovers.state_eq] at hsynced
              exact absurd (hsynced rfl) (by rcases hup with hup | hup <;> simp [hup])
          dsimp only
          split
          · exact .ended hconfig'' rfl
          · rename_i w hbegin
            have hclock : w.engine.clock = p'.engine.clock := by
              rw [World.begin_engine hbegin]
              rfl
            refine ⟨hconfig'', fun _ _ => ?_⟩
            have hrecovered : p'.engine.clock = p.engine.clock := hrecovers.clock_eq
            dsimp only
            rw [hclock, hrecovered]
            exact hidle

/-! ### A look at the connection -/

theorem LiveSession.watch_untried (p : LiveSession R T F) : p.Untried p.watch := by
  have hticked : (p.connection.tick p.engine.clock).supervisor = p.connection.supervisor := by
    unfold LiveConnection.tick
    grind
  refine ⟨hticked, rfl, rfl, fun hgoing => ?_⟩
  simp only [watch] at hgoing
  split at hgoing
  · rename_i hlost
    rw [hlost.2]
    rfl
  · exact hgoing

/-- A step that finds the connection lost. -/
def LiveSession.Loses (p : LiveSession R T F) : Prop := p.watch.phase = .Recovering

instance (p : LiveSession R T F) : Decidable p.Loses :=
  inferInstanceAs (Decidable (p.watch.phase = .Recovering))

/-- What a look comes to. -/
def LiveSession.outcome (result : Result Bool) (p : LiveSession R T F) : Outcome Error :=
  match result with
  | .error e => .fails e
  | .ok _ => if p.phase = .Running then .works else .waits

/-- A look at a lost connection, as the policy sees it. -/
def LiveSession.trial (transport : ILiveTransport T) (p : LiveSession R T F) : Trial Timestamp Error where
  now := p.engine.clock
  answer := p.answer transport
  outcome := outcome (p.supervise transport).1 (p.supervise transport).2

/-- A session that finds its connection lost tries once: it runs again, or it has
failed with the transport's own error. -/
theorem LiveSession.Steady.lost {cfg : SupervisorConfig} {p : LiveSession R T F} (hsteady : p.Steady cfg)
    (hemplaced : p.emplaced = true) (hloses : p.Loses) :
    (p.trial transport).Hasty ∧ (p.supervise transport).2.Steady cfg := by
  have hwatched := hsteady.untried p.watch_untried
  have hidle := hwatched.idle hemplaced (by rw [hloses]; rfl)
  have hrest : p.supervise transport = p.watch.reconnect transport := by
    unfold supervise
    exact if_pos hloses
  have hconfig := hwatched.config_eq
  unfold trial Trial.Hasty answer
  rw [hrest]
  unfold reconnect
  have hreconnect := LiveConnection.maybe_reconnect_idle transport p.transport hidle
  have htransport : p.watch.transport = p.transport := rfl
  rw [htransport]
  revert hreconnect
  rcases p.watch.connection.maybe_reconnect transport p.transport p.watch.engine.clock with ⟨result, c, t⟩
  rintro (⟨e, hopen, hresult, hkept⟩ | ⟨done, hopen, hresult, hstate, hkept, hidle⟩)
  · dsimp only at hresult hkept
    subst hresult
    rw [hopen]
    exact ⟨rfl, .ended (hkept.trans hconfig) rfl⟩
  · dsimp only at hresult hkept hstate hidle
    subst hresult
    rw [hopen]
    have hmarks : c.mark_synchronized = (.ok true, { c with state := .Ready }) := by
      simp [LiveConnection.mark_synchronized, hstate]
    dsimp only
    rw [hmarks]
    exact ⟨rfl, hkept.trans hconfig, fun _ _ => hidle⟩

theorem LiveSession.Steady.held {cfg : SupervisorConfig} {p : LiveSession R T F} (hsteady : p.Steady cfg)
    (hholds : ¬ p.Loses) : (p.supervise transport).2.Steady cfg := by
  have hrest : p.supervise transport = (.ok true, p.watch) := by
    unfold supervise
    exact if_neg hholds
  rw [hrest]
  exact hsteady.untried p.watch_untried

/-! ### Every run -/

/-- A run with its looks at a lost connection so far. -/
structure OutageRun (R T F : Type) where
  run : LiveRun R T F
  trials : List (Trial Timestamp Error) := []

/-- The look that a move takes, if the connection is lost. -/
def OutageRun.looks (transport : ILiveTransport T) (s : OutageRun R T F) :
    LiveMove T → List (Trial Timestamp Error)
  | .enter => if s.run.session.Loses then [s.run.session.trial transport] else []
  | _ => []

variable (fmt fs transport translator R) in
def outageMachine : Machine (OutageRun R T F) (LiveMove T) where
  Init s := s.run.Initial ∧ s.trials = []
  step s l := (s.run.step fmt fs transport translator l).map fun run =>
    { run, trials := s.trials ++ s.looks transport l }

/-- The clock shows a time that 64 bits hold, and never an earlier one. -/
def OutageRun.Advances (s : OutageRun R T F) : LiveMove T → Prop
  | .elsewhere now _ => kNoTimestamp ≤ s.run.session.engine.clock ∧ s.run.session.engine.clock ≤ now
  | _ => True

/-- The transport opens at every attempt to reopen it. The one failure that makes
no difference is of a single attempt allowed, with the policy's own error. -/
def OutageRun.Reopens (transport : ILiveTransport T) (s : OutageRun R T F) : LiveMove T → Prop
  | .enter => s.run.session.Loses →
      s.run.session.connection.supervisor.config.policy.Bears (s.run.session.answer transport)
  | _ => True

/-- The attempts to reconnect, their times and what came of them are as the
configuration asks. -/
def OutageRun.FollowsPolicy (s : OutageRun R T F) : Prop :=
  s.run.session.connection.supervisor.config.policy.Follows {} s.trials

/-- The session is steady, and no look was ever followed by another try. -/
structure OutageRun.Sound (cfg : SupervisorConfig) (s : OutageRun R T F) : Prop where
  steady : s.run.session.Steady cfg
  hasty : ∀ t ∈ s.trials, t.Hasty

theorem LiveRun.Initial.steady {r : LiveRun R T F} (hinitial : r.Initial) :
    r.session.Steady r.session.connection.supervisor.config := by
  obtain ⟨p, -, hemplaced, -, -, -, rfl⟩ := hinitial
  exact ⟨rfl, fun htrue => absurd (hemplaced.symm.trans htrue) Bool.noConfusion⟩

/-- A time that is set and no later than a clock that advances is still so. -/
theorem ConnectionSupervisor.Idle.later {s : ConnectionSupervisor} {clock now : Timestamp} (hidle : s.Idle clock)
    (hlower : kNoTimestamp ≤ clock) (hlater : clock ≤ now) : s.Idle now where
  attempts_eq := hidle.attempts_eq
  due hset := by
    obtain ⟨hclock, hdue⟩ := hidle.due hset
    refine ⟨?_, hdue.trans hlater⟩
    simp only [is_set, decide_eq_true_eq] at hclock ⊢
    intro hunset
    exact hclock (le_antisymm (hlater.trans_eq hunset) hlower)

theorem LiveSession.Steady.step {cfg : SupervisorConfig} {r u : LiveRun R T F} {l : LiveMove T}
    (hsteady : r.session.Steady cfg) (hadvances : OutageRun.Advances { run := r } l)
    (hstep : r.step fmt fs transport translator l = some u) : u.session.Steady cfg := by
  have hcall : ∀ p : LiveSession R T F, p.Steady cfg → r.call p = some u → u.session.Steady cfg := by
    intro p hnext hcalled
    unfold LiveRun.call at hcalled
    split at hcalled
    · cases hcalled
      exact hnext
    · cases hcalled
  cases l with
  | start answer => exact hcall _ (start_steady hsteady) hstep
  | halt reason => exact hcall _ (hsteady.untried (r.session.halt_untried reason)) hstep
  | resume => exact hcall _ (hsteady.untried r.session.resume_untried) hstep
  | request_stop => exact hcall r.session.request_stop (hsteady.untried ⟨rfl, rfl, rfl, id⟩) hstep
  | persist => exact hcall _ (hsteady.untried r.session.persist_untried) hstep
  | reconcile => exact hcall _ (hsteady.untried r.session.reconcile_untried) hstep
  | shutdown => exact hcall _ (shutdown_steady hsteady) hstep
  | kill delivers =>
    cases hstep
    exact ⟨hsteady.config_eq, fun htrue => (by cases htrue)⟩
  | elsewhere now delivers =>
    cases hstep
    exact ⟨hsteady.config_eq, fun hemplaced hgoing =>
      (hsteady.idle hemplaced hgoing).later hadvances.1 hadvances.2⟩
  | enter =>
    simp only [LiveRun.step] at hstep
    split at hstep
    · split at hstep
      · rename_i hgoes
        cases hstep
        by_cases hloses : r.session.Loses
        · exact (hsteady.lost hgoes.2 hloses).2
        · exact hsteady.held hloses
      · cases hstep
    · cases hstep
  | collect =>
    rw [LiveRun.collect_eq hstep]
    exact hsteady.untried r.session.collect_untried
  | pump =>
    rw [LiveRun.pump_eq hstep]
    exact hsteady.untried r.session.pump_untried
  | engine a =>
    obtain ⟨handling, x, hmoved, rfl⟩ := LiveRun.engine_eq hstep
    exact hsteady.untried (LiveRun.turned_untried hmoved)
  | between =>
    simp only [LiveRun.step] at hstep
    split at hstep
    · cases hstep
      exact hsteady.untried r.session.between_untried
    · cases hstep
  | leave =>
    simp only [LiveRun.step] at hstep
    split at hstep
    · cases hstep
      exact hsteady
    · cases hstep

theorem OutageRun.Sound.step {cfg : SupervisorConfig} {s u : OutageRun R T F} {l : LiveMove T}
    (hsound : s.Sound cfg) (hadvances : s.Advances l)
    (hstep : (outageMachine R fmt fs transport translator).step s l = some u) :
    u.Sound cfg ∧ u.trials = s.trials ++ s.looks transport l := by
  obtain ⟨run, hrun, rfl⟩ := Option.map_eq_some_iff.mp hstep
  refine ⟨⟨hsound.steady.step hadvances hrun, fun t hmem => ?_⟩, rfl⟩
  rcases List.mem_append.mp hmem with hold | hnew
  · exact hsound.hasty t hold
  · unfold OutageRun.looks at hnew
    split at hnew
    · split at hnew
      · rename_i hloses
        rw [List.mem_singleton.mp hnew]
        have hemplaced : s.run.session.emplaced = true := by
          simp only [LiveRun.step] at hrun
          split at hrun
          · split at hrun
            · rename_i hgoes
              exact hgoes.2
            · cases hrun
          · cases hrun
        exact (hsound.steady.lost hemplaced hloses).1
      · cases hnew
    · cases hnew

theorem OutageRun.reopens_iff {cfg : SupervisorConfig} {s : OutageRun R T F}
    (hconfig : s.run.session.connection.supervisor.config = cfg) (l : LiveMove T) :
    s.Reopens transport l ↔ ∀ t ∈ s.looks transport l, cfg.policy.Bears t.answer := by
  cases l with
  | enter =>
    rw [OutageRun.Reopens, OutageRun.looks, hconfig]
    by_cases hloses : s.run.session.Loses
    · simp [hloses, trial]
    · simp [hloses]
  | _ => simp [OutageRun.Reopens, OutageRun.looks]

theorem OutageRun.Sound.exec {cfg : SupervisorConfig} {s t : OutageRun R T F} {ls : List (LiveMove T)}
    (hsound : s.Sound cfg) (hadvances : (outageMachine R fmt fs transport translator).Along Advances s ls)
    (hexec : (outageMachine R fmt fs transport translator).exec s ls = some t) :
    t.Sound cfg ∧ ((∀ x ∈ t.trials, cfg.policy.Bears x.answer) ↔
      (∀ x ∈ s.trials, cfg.policy.Bears x.answer) ∧
        (outageMachine R fmt fs transport translator).Along (Reopens transport) s ls) := by
  induction ls generalizing s with
  | nil =>
    cases hexec
    exact ⟨hsound, (and_iff_left trivial).symm⟩
  | cons l ls ih =>
    simp only [Machine.exec] at hexec
    split at hexec
    · rename_i u hstep
      obtain ⟨hnext, htrials⟩ := hsound.step hadvances.1 hstep
      obtain ⟨hend, hiff⟩ := ih hnext (hadvances.2 u hstep) hexec
      refine ⟨hend, hiff.trans ?_⟩
      have hrest : (outageMachine R fmt fs transport translator).Along (Reopens transport) s (l :: ls) ↔
          s.Reopens transport l ∧
            (outageMachine R fmt fs transport translator).Along (Reopens transport) u ls := by
        simp [Machine.Along, hstep]
      rw [hrest, OutageRun.reopens_iff hsound.steady.config_eq, htrials, List.forall_mem_append, and_assoc]
    · cases hexec

theorem OutageRun.Sound.follows_iff {cfg : SupervisorConfig} {s t : OutageRun R T F} {ls : List (LiveMove T)}
    (hsound : s.Sound cfg) (hnone : s.trials = [])
    (hadvances : (outageMachine R fmt fs transport translator).Along Advances s ls)
    (hexec : (outageMachine R fmt fs transport translator).exec s ls = some t) :
    t.FollowsPolicy ↔ (outageMachine R fmt fs transport translator).Along (Reopens transport) s ls := by
  obtain ⟨hend, hiff⟩ := hsound.exec hadvances hexec
  rw [OutageRun.FollowsPolicy, hend.steady.config_eq, RetryPolicy.follows_hasty_iff hend.hasty, hiff, hnone]
  exact and_iff_right fun x hmem => absurd hmem List.not_mem_nil

theorem OutageRun.sound_of_init {s : OutageRun R T F}
    (hinit : (outageMachine R fmt fs transport translator).Init s) :
    s.Sound s.run.session.connection.supervisor.config :=
  ⟨hinit.1.steady, fun t hmem => by simp [hinit.2] at hmem⟩

/-- In every run under a clock that advances, the session reconnects as its
configuration asks if and only if the transport opened at every attempt. -/
theorem outageMachine_follows_iff {s t : OutageRun R T F}
    (hinit : (outageMachine R fmt fs transport translator).Init s) {ls : List (LiveMove T)}
    (hadvances : (outageMachine R fmt fs transport translator).Along OutageRun.Advances s ls)
    (hexec : (outageMachine R fmt fs transport translator).exec s ls = some t) :
    t.FollowsPolicy ↔
      (outageMachine R fmt fs transport translator).Along (OutageRun.Reopens transport) s ls :=
  (OutageRun.sound_of_init hinit).follows_iff hinit.2 hadvances hexec

/-! ### Concrete runs -/

instance (s : OutageRun R T F) (l : LiveMove T) : Decidable (s.Advances l) :=
  match l with
  | .elsewhere now _ => inferInstanceAs (Decidable
      (kNoTimestamp ≤ s.run.session.engine.clock ∧ s.run.session.engine.clock ≤ now))
  | .start _ | .halt _ | .resume | .request_stop | .persist | .reconcile | .shutdown | .kill _ | .enter
  | .collect | .pump | .engine _ | .between | .leave => inferInstanceAs (Decidable True)

instance (s : OutageRun R T F) (l : LiveMove T) : Decidable (s.Reopens transport l) :=
  match l with
  | .enter => inferInstanceAs (Decidable (s.run.session.Loses →
      s.run.session.connection.supervisor.config.policy.Bears (s.run.session.answer transport)))
  | .start _ | .halt _ | .resume | .request_stop | .persist | .reconcile | .shutdown | .kill _
  | .elsewhere _ _ | .collect | .pump | .engine _ | .between | .leave => inferInstanceAs (Decidable True)

/-- A step a minute after the last, with nothing to receive. -/
def silentMinute (minutes : Int) (t : ScriptedTransport) : List (LiveMove ScriptedTransport) :=
  [.elsewhere (minutes * 60000000000) t, .enter, .collect, .pump, .leave]

def flatOutage : OutageRun Unit ScriptedTransport (List (String × String)) :=
  { run := { session := flatLive } }

theorem flatOutage_init :
    (outageMachine Unit wholeDoubles memoryFiles scripted sampleTranslator).Init flatOutage :=
  ⟨⟨flatLive, rfl, rfl, ⟨rfl, rfl, rfl, rfl⟩, rfl, rfl, rfl⟩, rfl⟩

/-- The venue falls silent twice, and each time the transport opens again. -/
theorem outageMachine_follows_iff_twice :
    ∃ t : OutageRun Unit ScriptedTransport (List (String × String)), t.trials.length = 2 ∧
      t.run.session.phase = .Running ∧ t.FollowsPolicy := by
  obtain ⟨t, hexec, hends⟩ := Option.map_eq_some_iff.mp (show ((outageMachine Unit wholeDoubles memoryFiles
    scripted sampleTranslator).exec flatOutage ([.start (.ok ())] ++ silentMinute 1 { opened := true } ++
      silentMinute 2 { opened := true })).map (fun t => (t.trials.length, t.run.session.phase)) =
        some (2, .Running) by decide +kernel)
  simp only [Prod.mk.injEq] at hends
  exact ⟨t, hends.1, hends.2,
    (outageMachine_follows_iff flatOutage_init (by decide +kernel) hexec).mpr (by decide +kernel)⟩

/-- Ten attempts are allowed. The first fails, and the session has failed with the
transport's error. -/
theorem outageMachine_gives_up :
    ∃ t : OutageRun Unit ScriptedTransport (List (String × String)),
      (outageMachine Unit wholeDoubles memoryFiles scripted sampleTranslator).exec flatOutage
        [.start (.ok ()), .elsewhere 60000000000 { fail_open := true }, .enter] = some t ∧
      t.run.session.connection.supervisor.config.max_attempts = 10 ∧
      t.run.session.connection.supervisor.attempts = 1 ∧ t.run.session.phase = .Failed ∧ ¬ t.FollowsPolicy := by
  obtain ⟨t, hexec, hends⟩ := Option.map_eq_some_iff.mp (show ((outageMachine Unit wholeDoubles memoryFiles
    scripted sampleTranslator).exec flatOutage
      [.start (.ok ()), .elsewhere 60000000000 { fail_open := true }, .enter]).map (fun t =>
        (t.run.session.connection.supervisor.config.max_attempts, t.run.session.connection.supervisor.attempts,
          t.run.session.phase)) = some (10, 1, .Failed) by decide +kernel)
  simp only [Prod.mk.injEq] at hends
  refine ⟨t, hexec, hends.1, hends.2.1, hends.2.2, fun hfollows => ?_⟩
  have hreopens := ((OutageRun.sound_of_init flatOutage_init).follows_iff rfl (by decide +kernel) hexec).mp hfollows
  exact absurd hreopens (by decide +kernel)

end ptl.live
