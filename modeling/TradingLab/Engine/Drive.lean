import TradingLab.Driver
import TradingLab.Engine.Moves
import TradingLab.Engine.Run

open ptl.oms ptl.portfolio ptl.market ptl.risk ptl.execution ptl.accounting

set_option linter.dupNamespace false

namespace ptl.engine

variable {R S Q : Type}

/-! ### What an engine under way never takes back -/

/-- From one engine to a later one with `n` events in between. -/
structure Engine.Advances (n : Nat) (e e' : Engine R) : Prop where
  started_eq : e'.started = e.started
  processed_eq : e'.summary.events_processed = e.summary.events_processed + n
  submitted_le : e.summary.orders_submitted ≤ e'.summary.orders_submitted
  fills_le : e.summary.fills ≤ e'.summary.fills

theorem Engine.Advances.refl (e : Engine R) : e.Advances 0 e :=
  ⟨rfl, rfl, le_rfl, le_rfl⟩

theorem Engine.Advances.trans {n m : Nat} {e e' e'' : Engine R} (hfirst : e.Advances n e')
    (hsecond : e'.Advances m e'') : e.Advances (n + m) e'' where
  started_eq := hsecond.started_eq.trans hfirst.started_eq
  processed_eq := by rw [hsecond.processed_eq, hfirst.processed_eq, Nat.add_assoc]
  submitted_le := hfirst.submitted_le.trans hsecond.submitted_le
  fills_le := hfirst.fills_le.trans hsecond.fills_le

theorem Engine.match_event_advances (e : Engine R) (ev : MarketEvent) :
    e.Advances 0 (e.match_event ev).2 := by
  cases ev with
  | bar bar => exact ⟨rfl, rfl, le_rfl, le_rfl⟩
  | quote q => exact ⟨rfl, rfl, le_rfl, le_rfl⟩
  | trade t => exact ⟨rfl, rfl, le_rfl, le_rfl⟩
  | corporateAction c =>
    cases hkind : c.kind <;> simp only [Engine.match_event, hkind] <;> exact ⟨rfl, rfl, le_rfl, le_rfl⟩
  | session ev =>
    cases hkind : ev.kind <;> simp only [Engine.match_event, hkind] <;> exact ⟨rfl, rfl, le_rfl, le_rfl⟩
  | timer t => exact ⟨rfl, rfl, le_rfl, le_rfl⟩

theorem Engine.book_fills_advances {e e' : Engine R} {fs : List Fill} (hbook : e.book_fills fs = .ok e') :
    e.Advances 0 e' := by
  refine Engine.book_fills_invariant (I := fun e₁ _ => e.Advances 0 e₁) ?_ (.refl e) hbook
  intro e₁ f fs e₂ hadvances hfirst
  obtain ⟨-, -, heq⟩ := Engine.book_fill_ok hfirst
  rw [heq]
  exact ⟨hadvances.started_eq, hadvances.processed_eq, hadvances.submitted_le,
    hadvances.fills_le.trans (Nat.le_succ _)⟩

theorem Engine.absorb_advances {e e' : Engine R} {now : Timestamp} {ev : MarketEvent}
    (habsorb : e.absorb now ev = .ok e') : e.Advances 1 e' := by
  unfold Engine.absorb at habsorb
  cases hmatch : (e.observe now ev).match_event ev with
  | mk result matched =>
    have hmatched := (e.observe now ev).match_event_advances ev
    rw [hmatch] at habsorb hmatched
    cases result with
    | error err => cases habsorb
    | ok fills =>
      have hobserved : e.Advances 1 (e.observe now ev) := ⟨rfl, rfl, le_rfl, le_rfl⟩
      exact hobserved.trans (hmatched.trans (Engine.book_fills_advances habsorb))

theorem Engine.submit_advances (e : Engine R) (order : Order) : e.Advances 0 (e.submit order).2 := by
  obtain ⟨-, heq⟩ | ⟨-, -, heq⟩ | ⟨-, -, err, -, heq⟩ | ⟨-, -, arrival, -, heq⟩ := e.submit_cases order
  · rw [heq]
    exact ⟨rfl, rfl, le_rfl, le_rfl⟩
  · rw [heq]
    exact ⟨rfl, rfl, le_rfl, le_rfl⟩
  · rw [heq]
    exact ⟨rfl, rfl, le_rfl, le_rfl⟩
  · rw [heq]
    exact ⟨rfl, rfl, Nat.le_succ _, le_rfl⟩

theorem Engine.cancel_advances (e : Engine R) (id : OrderId) : e.Advances 0 (e.cancel id).2 := by
  obtain ⟨-, heq⟩ | ⟨-, heq⟩ := e.cancel_cases id <;> rw [heq] <;> exact ⟨rfl, rfl, le_rfl, le_rfl⟩

theorem Engine.callback_advances (e : Engine R) (program : SinkProgram S) :
    e.Advances 0 (e.callback program).1 := by
  induction program generalizing e with
  | done s => exact ⟨rfl, rfl, le_rfl, le_rfl⟩
  | submit order k ih => exact (e.submit_advances order).trans (ih _ _)
  | cancel id k ih => exact (e.cancel_advances id).trans (ih _ _)
  | next_order_id k ih =>
    have hdrawn : e.Advances 0 e.next_order_id.2 := ⟨rfl, rfl, le_rfl, le_rfl⟩
    exact hdrawn.trans (ih _ _)
  | context k ih => exact ih _ e

theorem Engine.close_event_advances {e e' : Engine R} {ev : MarketEvent}
    (hclose : e.close_event ev = .ok e') : e.Advances 0 e' := by
  have hsnapshot : ∀ {e e' : Engine R} {ts : Timestamp}, e.snapshot ts = .ok e' → e.Advances 0 e' := by
    intro e e' ts htaken
    obtain ⟨curve, heq⟩ := Engine.snapshot_ok htaken
    rw [heq]
    exact ⟨rfl, rfl, le_rfl, le_rfl⟩
  cases ev with
  | bar bar =>
    simp only [Engine.close_event] at hclose
    split at hclose
    · obtain ⟨hstarted, hprocessed, hsubmitted, hfills⟩ := hsnapshot hclose
      exact ⟨hstarted, hprocessed, hsubmitted, hfills⟩
    · cases hclose
      exact ⟨rfl, rfl, le_rfl, le_rfl⟩
  | session ev =>
    simp only [Engine.close_event] at hclose
    split at hclose
    · cases hclose
      exact ⟨rfl, rfl, le_rfl, le_rfl⟩
    · split at hclose
      · exact hsnapshot hclose
      · cases hclose
        exact ⟨rfl, rfl, le_rfl, le_rfl⟩
  | quote q =>
    cases hclose
    exact ⟨rfl, rfl, le_rfl, le_rfl⟩
  | trade t =>
    cases hclose
    exact ⟨rfl, rfl, le_rfl, le_rfl⟩
  | corporateAction c =>
    cases hclose
    exact ⟨rfl, rfl, le_rfl, le_rfl⟩
  | timer t =>
    cases hclose
    exact ⟨rfl, rfl, le_rfl, le_rfl⟩

theorem Engine.settle_advances {e e' : Engine R} {ev : MarketEvent} (hsettle : e.settle ev = .ok e') :
    e.Advances 0 e' := by
  unfold Engine.settle at hsettle
  cases hclose : e.close_event ev with
  | error err =>
    rw [hclose] at hsettle
    cases hsettle
  | ok closed =>
    rw [hclose] at hsettle
    cases hsettle
    obtain ⟨hstarted, hprocessed, hsubmitted, hfills⟩ := Engine.close_event_advances hclose
    unfold Engine.track_peak
    dsimp only
    split <;> exact ⟨hstarted, hprocessed, hsubmitted, hfills⟩

theorem Engine.handle_advances {strategy : IStrategy S} {e e' : Engine R} {s s' : S} {now : Timestamp}
    {ev : MarketEvent} (hhandle : e.handle strategy s now ev = .ok (e', s')) : e.Advances 1 e' := by
  obtain ⟨e₁, s₁, habsorb, hsettle, -⟩ := Engine.handle_ok hhandle
  exact ((Engine.absorb_advances habsorb).trans (e₁.callback_advances _)).trans
    (Engine.settle_advances hsettle)

/-! ### The clock -/

theorem Engine.absorb_clock {e e' : Engine R} {now : Timestamp} {ev : MarketEvent}
    (habsorb : e.absorb now ev = .ok e') : e'.clock = now := by
  obtain ⟨call, fs, e₁, -, -, -, hclock, -, hbook⟩ | ⟨-, -, hclock, -⟩ := Engine.absorb_cases habsorb
  · refine Engine.book_fills_invariant (I := fun e₂ _ => e₂.clock = now) ?_ hclock hbook
    intro e₂ f rest e₃ hsame hfirst
    obtain ⟨-, -, heq⟩ := Engine.book_fill_ok hfirst
    rw [heq]
    exact hsame
  · exact hclock

theorem Engine.submit_clock (e : Engine R) (order : Order) : (e.submit order).2.clock = e.clock := by
  obtain ⟨-, heq⟩ | ⟨-, -, heq⟩ | ⟨-, -, err, -, heq⟩ | ⟨-, -, arrival, -, heq⟩ := e.submit_cases order
  all_goals exact (congrArg Engine.clock heq :)

theorem Engine.cancel_clock (e : Engine R) (id : OrderId) : (e.cancel id).2.clock = e.clock := by
  obtain ⟨-, heq⟩ | ⟨-, heq⟩ := e.cancel_cases id
  all_goals exact (congrArg Engine.clock heq :)

theorem Engine.callback_clock (e : Engine R) (program : SinkProgram S) :
    (e.callback program).1.clock = e.clock := by
  induction program generalizing e with
  | done s => rfl
  | submit order k ih => exact (ih _ _).trans (e.submit_clock order)
  | cancel id k ih => exact (ih _ _).trans (e.cancel_clock id)
  | next_order_id k ih => exact ih _ _
  | context k ih => exact ih _ e

/-- Only the source moves the clock. -/
theorem Engine.handle_clock {strategy : IStrategy S} {e e' : Engine R} {s s' : S} {now : Timestamp}
    {ev : MarketEvent} (hhandle : e.handle strategy s now ev = .ok (e', s')) : e'.clock = now := by
  obtain ⟨e₁, s₁, habsorb, hsettle, -⟩ := Engine.handle_ok hhandle
  exact ((Engine.settle_settles hsettle).clock_eq.trans (e₁.callback_clock _)).trans (Engine.absorb_clock habsorb)

/-! ### The run, one event at a time -/

variable (strategy : IStrategy S) (source : IMarketDataSource Q)

/-- One event through the engine. -/
def World.next (w : World R S Q) : Except Failure (Option (World R S Q)) :=
  match source.next w.source w.engine.clock with
  | .error what => .error (.thrown what)
  | .ok none => .ok none
  | .ok (some (ev, q, now)) =>
    match w.engine.handle strategy w.strategy now ev with
    | .error err => .error (.returned err)
    | .ok (e, s) => .ok (some { engine := e, strategy := s, source := q })

variable {strategy : IStrategy S} {source : IMarketDataSource Q}

theorem World.loop_eq_chunk (n : Nat) (w : World R S Q) :
    w.loop strategy source n = Driver.chunk (World.next strategy source) n w := by
  induction n generalizing w with
  | zero => rfl
  | succ n ih =>
    simp only [World.loop, Driver.chunk, World.next]
    cases source.next w.source w.engine.clock with
    | error what => rfl
    | ok o =>
      cases o with
      | none => rfl
      | some arrived =>
        obtain ⟨ev, q, now⟩ := arrived
        dsimp only
        cases w.engine.handle strategy w.strategy now ev with
        | error err => rfl
        | ok handled =>
          dsimp only
          rw [ih]
          cases Driver.chunk (World.next strategy source) n
            { engine := handled.1, strategy := handled.2, source := q } <;> rfl

theorem World.next_advances {w w' : World R S Q} (hnext : w.next strategy source = .ok (some w')) :
    w.engine.Advances 1 w'.engine := by
  unfold World.next at hnext
  split at hnext
  · cases hnext
  · cases hnext
  · split at hnext
    · cases hnext
    · rename_i hhandle
      cases hnext
      exact Engine.handle_advances hhandle

theorem World.step_one {w : World R S Q} (hstarted : w.engine.started = true) :
    w.step strategy source 1 =
      match w.next strategy source with
      | .error failure => .error failure
      | .ok none => .ok (0, w)
      | .ok (some w') => .ok (1, w') := by
  unfold World.step
  rw [hstarted, if_neg (by simp), World.loop_eq_chunk]
  cases hnext : w.next strategy source with
  | error failure => exact Driver.chunk_failed hnext 0
  | ok o =>
    cases o with
    | none => exact Driver.chunk_exhausted hnext 1
    | some w' => exact Driver.chunk_one hnext

/-- A step of one event that makes one. -/
theorem World.next_of_step {made : Nat} {w w' : World R S Q}
    (hstep : w.step strategy source 1 = .ok (made + 1, w')) : w.next strategy source = .ok (some w') := by
  by_cases hstarted : w.engine.started = true
  · rw [World.step_one hstarted] at hstep
    split at hstep
    · cases hstep
    · cases hstep
    · rename_i hnext
      cases hstep
      exact hnext
  · rw [World.step, if_pos hstarted] at hstep
    cases hstep

/-- The loop of `run` drains the source in chunks of 1024 events. -/
theorem World.drain_eq {w : World R S Q} (hstarted : w.engine.started = true) (fuel : Nat) :
    w.drain strategy source fuel = Driver.drain (World.next strategy source) 1024 fuel w := by
  induction fuel generalizing w with
  | zero => rfl
  | succ fuel ih =>
    have hstep : w.step strategy source 1024 = Driver.chunk (World.next strategy source) 1024 w := by
      unfold World.step
      rw [hstarted, if_neg (by simp), World.loop_eq_chunk]
    simp only [World.drain, Driver.drain, hstep]
    cases hchunk : Driver.chunk (World.next strategy source) 1024 w with
    | error failure => rfl
    | ok made =>
      obtain ⟨made, w'⟩ := made
      cases made with
      | zero => rfl
      | succ made =>
        have hkept : w'.engine.started = true :=
          Driver.chunk_invariant (I := fun w => w.engine.started = true)
            (fun _ _ hstarted hnext => (World.next_advances hnext).started_eq.trans hstarted) hstarted hchunk
        exact ih hkept

/-- Draining by chunks is draining, whatever fuel it took. -/
theorem World.drain_iff {w : World R S Q} (hstarted : w.engine.started = true)
    (r : Except Failure (World R S Q)) :
    (∃ fuel, w.drain strategy source fuel = some r) ↔ Driver.Drains (World.next strategy source) w r := by
  constructor
  · rintro ⟨fuel, hdrain⟩
    rw [World.drain_eq hstarted] at hdrain
    exact .of_drain hdrain
  · intro hdrains
    obtain ⟨fuel, hdrain⟩ := hdrains.drain 1023
    exact ⟨fuel, (World.drain_eq hstarted fuel).trans hdrain⟩

/-! ### An event as moves -/

/-- The moves a callback is made of. -/
def Action.isSink : Action → Bool
  | .submit _ | .cancel _ | .next_order_id => true
  | .arrive | .settle => false

/-- A sink move stays inside the event. -/
theorem Session.sink_handling {s t : Session R Q} {a : Action} (hstep : s.step source a = some t)
    (hsink : a.isSink = true) : t.handling = s.handling := by
  obtain ⟨_, _, _, _, rfl, -⟩ | ⟨order, rfl, rfl⟩ | ⟨id, rfl, rfl⟩ | ⟨rfl, rfl⟩ | ⟨_, _, rfl, -⟩ :=
    Session.step_cases hstep
  · cases hsink
  · rfl
  · rfl
  · rfl
  · cases hsink

/-- A callback is a list of sink moves. -/
theorem Engine.callback_exec {e : Engine R} {q : Q} {ev : MarketEvent} (hsink : MarketEvent.hasSink ev)
    (program : SinkProgram S) :
    ∃ calls : List Action, (∀ a ∈ calls, a.isSink = true) ∧
      (engineMachine R source).exec { engine := e, source := q, handling := some ev } calls =
        some { engine := (e.callback program).1, source := q, handling := some ev } := by
  induction program generalizing e with
  | done s => exact ⟨[], by simp, rfl⟩
  | submit order k ih =>
    obtain ⟨calls, hcalls, hexec⟩ := ih (e.submit order).1 (e := (e.submit order).2)
    refine ⟨.submit order :: calls, List.forall_mem_cons.mpr ⟨rfl, hcalls⟩, ?_⟩
    simpa [Machine.exec, engineMachine, Session.step, hsink, Engine.callback] using hexec
  | cancel id k ih =>
    obtain ⟨calls, hcalls, hexec⟩ := ih (e.cancel id).1 (e := (e.cancel id).2)
    refine ⟨.cancel id :: calls, List.forall_mem_cons.mpr ⟨rfl, hcalls⟩, ?_⟩
    simpa [Machine.exec, engineMachine, Session.step, hsink, Engine.callback] using hexec
  | next_order_id k ih =>
    obtain ⟨calls, hcalls, hexec⟩ := ih e.next_order_id.1 (e := e.next_order_id.2)
    refine ⟨.next_order_id :: calls, List.forall_mem_cons.mpr ⟨rfl, hcalls⟩, ?_⟩
    simpa [Machine.exec, engineMachine, Session.step, hsink, Engine.callback] using hexec
  | context k ih => exact ih _

/-- An event that is handled arrives, is called back about and settles. -/
theorem World.next_exec {w w' : World R S Q} (hnext : w.next strategy source = .ok (some w')) :
    ∃ (ev : MarketEvent) (e₁ e₂ : Engine R) (calls : List Action), (∀ a ∈ calls, a.isSink = true) ∧
      w.session.step source .arrive = some { engine := e₁, source := w'.source, handling := some ev } ∧
      (engineMachine R source).exec { engine := e₁, source := w'.source, handling := some ev } calls =
        some { engine := e₂, source := w'.source, handling := some ev } ∧
      Session.step source { engine := e₂, source := w'.source, handling := some ev } .settle =
        some w'.session := by
  unfold World.next at hnext
  split at hnext
  · cases hnext
  · cases hnext
  · rename_i ev q now harrived
    split at hnext
    · cases hnext
    · rename_i e' s' hhandle
      cases hnext
      obtain ⟨e₁, s₁, habsorb, hsettle, -⟩ := Engine.handle_ok hhandle
      have hcalled : ∃ calls : List Action, (∀ a ∈ calls, a.isSink = true) ∧
          (engineMachine R source).exec { engine := e₁, source := q, handling := some ev } calls =
            some { engine := (e₁.callback (strategy.respond s₁ ev)).1, source := q, handling := some ev } := by
        cases ev with
        | corporateAction c => exact ⟨[], by simp, rfl⟩
        | timer ev => exact ⟨[], by simp, rfl⟩
        | bar bar => exact Engine.callback_exec rfl _
        | quote q => exact Engine.callback_exec rfl _
        | trade t => exact Engine.callback_exec rfl _
        | session ev => exact Engine.callback_exec rfl _
      obtain ⟨calls, hcalls, hexec⟩ := hcalled
      refine ⟨ev, e₁, _, calls, hcalls, ?_, hexec, ?_⟩
      · simp [World.session, Session.step, harrived, habsorb]
      · simp [World.session, Session.step, hsettle]

/-! ### Nothing but time -/

/-- A source that only ticks. -/
def ticking (Q : Type) : IMarketDataSource Q where
  next q now := .ok (some (.timer { time := { exchange_time := now, receive_time := now }, id := 0 }, q, now))

/-- A tick is counted, and nothing else happens. -/
theorem World.next_ticking (w : World R S Q) :
    ∃ w', w.next strategy (ticking Q) = .ok (some w') ∧
      w'.engine.summary.events_processed = w.engine.summary.events_processed + 1 ∧
      w'.engine.summary.fills = w.engine.summary.fills ∧
      w'.engine.summary.orders_submitted = w.engine.summary.orders_submitted := by
  refine ⟨_, rfl, ?_⟩
  unfold Engine.track_peak
  dsimp only
  split <;> exact ⟨rfl, rfl, rfl⟩

end ptl.engine
