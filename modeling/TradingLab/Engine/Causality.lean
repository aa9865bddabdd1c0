import TradingLab.Engine.Booking
import TradingLab.Engine.Drive

open ptl.oms ptl.market ptl.execution ptl.accounting

namespace ptl.execution

variable {R : Type} {costs : ICostModel R} {cfg : FillConfig} {instrument : InstrumentId} {state : MarketState}
  {now : Timestamp} {budget : Rat} {rng : R}

/-- Orders that rest after a call were resting before it, with the same arrival. -/
theorem Matched.arrival_of_rest {ps rest : List PendingOrder} {fs : List Fill}
    (hmatched : Matched costs cfg instrument state now budget rng ps fs rest) :
    ∀ q ∈ rest, ∃ p ∈ ps, q.order = p.order ∧ q.arrival_time = p.arrival_time := by
  induction hmatched with
  | nil => exact fun q hq => absurd hq List.not_mem_nil
  | keep hdecision _ ih =>
    intro q hq
    rcases List.mem_cons.mp hq with rfl | hq
    · have hcarries := PendingOrder.carries_of_decision hdecision
      exact ⟨_, List.mem_cons_self, hcarries.order_eq, hcarries.arrival_eq⟩
    · obtain ⟨p, hp, hsame⟩ := ih q hq
      exact ⟨p, List.mem_cons_of_mem _ hp, hsame⟩
  | erase _ _ ih =>
    intro q hq
    obtain ⟨p, hp, hsame⟩ := ih q hq
    exact ⟨p, List.mem_cons_of_mem _ hp, hsame⟩
  | execute hdecision _ _ ih =>
    intro q hq
    rcases List.mem_append.mp hq with hq | hq
    · obtain ⟨hkept, -⟩ := PendingOrder.after_fill_some (Option.mem_toList.mp hq)
      have hcarries := (PendingOrder.executes_of_decision hdecision).carries
      rw [hkept]
      exact ⟨_, List.mem_cons_self, hcarries.order_eq, hcarries.arrival_eq⟩
    · obtain ⟨p, hp, hsame⟩ := ih q hq
      exact ⟨p, List.mem_cons_of_mem _ hp, hsame⟩

/-- Fills are of orders that were resting and have arrived, and carry their times. -/
theorem Matched.arrived_of_fill {ps rest : List PendingOrder} {fs : List Fill}
    (hmatched : Matched costs cfg instrument state now budget rng ps fs rest) :
    ∀ f ∈ fs, ∃ p ∈ ps, p.arrival_time ≤ now ∧ f.order_id = p.order.id ∧ f.instrument = p.order.instrument ∧
      f.side = p.order.side ∧ f.times = { p.order.times with fill_time := now } := by
  induction hmatched with
  | nil => exact fun f hf => absurd hf List.not_mem_nil
  | keep _ _ ih =>
    intro f hf
    obtain ⟨p, hp, hmade⟩ := ih f hf
    exact ⟨p, List.mem_cons_of_mem _ hp, hmade⟩
  | erase _ _ ih =>
    intro f hf
    obtain ⟨p, hp, hmade⟩ := ih f hf
    exact ⟨p, List.mem_cons_of_mem _ hp, hmade⟩
  | execute hdecision hfill _ ih =>
    intro g hg
    rcases List.mem_cons.mp hg with rfl | hg
    · have hexecutes := PendingOrder.executes_of_decision hdecision
      rw [hexecutes.carries.order_eq] at hfill
      obtain ⟨hid, hinstrument, hside, -, -, htimes⟩ := make_fill_ok hfill
      exact ⟨_, List.mem_cons_self, hexecutes.arrived, hid, hinstrument, hside, htimes⟩
    · obtain ⟨p, hp, hmade⟩ := ih g hg
      exact ⟨p, List.mem_cons_of_mem _ hp, hmade⟩

/-- An order the venue takes arrives after the clock and was decided no later than it. -/
theorem BrokerSimulator.submit_arrives {b : BrokerSimulator R} {arrival : Timestamp} {order : Order}
    (hok : (b.submit now order).1 = .ok arrival) : order.decision_time ≤ now ∧ now < arrival := by
  simp only [BrokerSimulator.submit] at hok
  split at hok
  · cases hok
  · split at hok
    · cases hok
    · rename_i hfuture
      split at hok
      · cases hok
      · cases hok
        have heffective : ∀ flight : Int, 0 < if flight > 0 then flight else 1 := by
          intro flight
          split <;> omega
        exact ⟨not_lt.mp hfuture, lt_add_of_pos_right _ (heffective _)⟩

end ptl.execution

/-! Who caused what: a run with a record of every order that was accepted and of every fill
that was booked, each with the event that was being handled. -/

set_option linter.dupNamespace false

namespace ptl.engine

variable {R Q : Type}

/-- An order as it was handed in, at this clock during this event. -/
structure Submission where
  order : Order
  event : Nat
  now : Timestamp

/-- A fill, with the event that led to it and the market's time. -/
structure Execution where
  fill : Fill
  event : Nat
  now : Timestamp

structure Audited (R Q : Type) where
  session : Session R Q
  submissions : List Submission := []
  executions : List Execution := []

/-- What a move adds to the orders accepted. -/
def Engine.submitted (e : Engine R) : Action → List Submission
  | .submit order =>
    match (e.submit order).1 with
    | .ok _ => [{ order, event := e.summary.events_processed, now := e.clock }]
    | .error _ => []
  | _ => []

/-- What an event adds to the fills. -/
def Engine.executed (e : Engine R) (now : Timestamp) (ev : MarketEvent) : List Execution :=
  match e.marketCall ev with
  | none => []
  | some call =>
    (e.fillsOf now ev).map fun fill => { fill, event := e.summary.events_processed + 1, now := call.now }

def Session.executed (source : IMarketDataSource Q) (s : Session R Q) : Action → List Execution
  | .arrive =>
    match source.next s.source s.engine.clock with
    | .ok (some (ev, _, now)) => s.engine.executed now ev
    | _ => []
  | _ => []

def Audited.step (source : IMarketDataSource Q) (s : Audited R Q) (a : Action) : Option (Audited R Q) :=
  (s.session.step source a).map fun session => {
    session
    submissions := s.submissions ++ s.session.engine.submitted a
    executions := s.executions ++ s.session.executed source a }

def auditedMachine (R : Type) (source : IMarketDataSource Q) : Machine (Audited R Q) Action where
  Init s := s.session.Initial ∧ s.submissions = [] ∧ s.executions = []
  step := Audited.step source

/-- What a fill owes to the order it is a fill of: the order came during an earlier event,
decided by then, and arrived after that and by the time of the fill. -/
structure Submission.Causes (d : Submission) (x : Execution) : Prop where
  id_eq : x.fill.order_id = d.order.id
  instrument_eq : x.fill.instrument = d.order.instrument
  side_eq : x.fill.side = d.order.side
  earlier : d.event < x.event
  decided : d.order.decision_time ≤ d.now
  sent : d.now < x.fill.times.arrival_time
  arrived : x.fill.times.arrival_time ≤ x.now
  filled : x.fill.times.fill_time = x.now

/-- What a resting order owes to how it was handed in. -/
structure Submission.Sends (d : Submission) (p : PendingOrder) : Prop where
  id_eq : p.order.id = d.order.id
  instrument_eq : p.order.instrument = d.order.instrument
  side_eq : p.order.side = d.order.side
  decided : d.order.decision_time ≤ d.now
  sent : d.now < p.arrival_time
  stamped : p.order.times.arrival_time = p.arrival_time

structure Audited.Causal (s : Audited R Q) : Prop where
  past : ∀ d ∈ s.submissions, d.event ≤ s.session.engine.summary.events_processed
  known : ∀ d ∈ s.submissions, s.session.engine.Known d.order.id
  distinct : (s.submissions.map fun d => d.order.id).Nodup
  pending : ∀ p ∈ s.session.engine.broker.pending, ∃ d ∈ s.submissions, d.Sends p
  booked : s.session.engine.journal.fills = s.executions.map Execution.fill
  caused : ∀ x ∈ s.executions, ∃ d ∈ s.submissions, d.Causes x

variable {source : IMarketDataSource Q}

theorem Engine.executed_fills (e : Engine R) (now : Timestamp) (ev : MarketEvent) :
    (e.executed now ev).map Execution.fill = e.fillsOf now ev := by
  unfold Engine.executed
  split
  · rename_i hnone
    rw [Engine.fillsOf_none hnone]
    rfl
  · rw [List.map_map]
    exact List.map_id _

theorem Engine.book_fills_journal {e e' : Engine R} {fs : List Fill} (hbook : e.book_fills fs = .ok e') :
    e'.journal.fills = e.journal.fills ++ fs := by
  have hinvariant := Engine.book_fills_invariant
    (I := fun e₁ rest => e₁.journal.fills ++ rest = e.journal.fills ++ fs) ?_ rfl hbook
  · rwa [List.append_nil] at hinvariant
  · intro e₁ f rest e₂ hsame hfirst
    obtain ⟨-, -, heq⟩ := Engine.book_fill_ok hfirst
    have hjournal : e₂.journal = e₁.journal.record_fill f := by rw [heq]
    rw [hjournal, Journal.record_fill_fills, List.append_assoc, List.singleton_append, hsame]

theorem Engine.absorb_journal {e e' : Engine R} {now : Timestamp} {ev : MarketEvent}
    (habsorb : e.absorb now ev = .ok e') : e'.journal.fills = e.journal.fills ++ e.fillsOf now ev := by
  obtain ⟨call, fs, e₁, hcall, hfills, -, -, hmatches, hbook⟩ | ⟨hnone, -, -, hmatches⟩ :=
    Engine.absorb_cases habsorb
  · rw [Engine.book_fills_journal hbook, hmatches.journal_eq, Engine.fillsOf_call hcall, hfills]
    rfl
  · rw [Engine.fillsOf_none hnone, hmatches.journal_eq, List.append_nil]

/-- What was sent rests on or is filled later than it was sent. -/
theorem Engine.absorb_causal {e e' : Engine R} {now : Timestamp} {ev : MarketEvent}
    {submissions : List Submission} (habsorb : e.absorb now ev = .ok e')
    (hpast : ∀ d ∈ submissions, d.event ≤ e.summary.events_processed)
    (hpending : ∀ p ∈ e.broker.pending, ∃ d ∈ submissions, d.Sends p) :
    (∀ q ∈ e'.broker.pending, ∃ d ∈ submissions, d.Sends q) ∧
      ∀ x ∈ e.executed now ev, ∃ d ∈ submissions, d.Causes x := by
  obtain ⟨call, fs, e₁, hcall, hfills, hbroker, -, -, hbook⟩ | ⟨hnone, hbroker, -, -⟩ :=
    Engine.absorb_cases habsorb
  · have hmatched := BrokerSimulator.on_market_matched hfills
    have hdispatched : e.fillsOf now ev = fs := by
      rw [Engine.fillsOf_call hcall, hfills]
      rfl
    refine ⟨fun q hq => ?_, fun x hx => ?_⟩
    · rw [Engine.book_fills_broker hbook, hbroker] at hq
      obtain ⟨p, hp, horder, harrival⟩ := hmatched.arrival_of_rest q hq
      obtain ⟨d, hd, hsends⟩ := hpending p hp
      refine ⟨d, hd, ?_⟩
      obtain ⟨hid, hinstrument, hside, hdecided, hsent, hstamped⟩ := hsends
      rw [← horder] at hid hinstrument hside hstamped
      rw [← harrival] at hsent hstamped
      exact ⟨hid, hinstrument, hside, hdecided, hsent, hstamped⟩
    · simp only [Engine.executed, hcall, hdispatched] at hx
      obtain ⟨f, hf, rfl⟩ := List.mem_map.mp hx
      obtain ⟨p, hp, harrived, hid, hinstrument, hside, htimes⟩ := hmatched.arrived_of_fill f hf
      obtain ⟨d, hd, hsends⟩ := hpending p hp
      have harrival : f.times.arrival_time = p.arrival_time := by
        rw [htimes]
        exact hsends.stamped
      exact ⟨d, hd, hid.trans hsends.id_eq, hinstrument.trans hsends.instrument_eq,
        hside.trans hsends.side_eq, Nat.lt_succ_of_le (hpast d hd), hsends.decided,
        harrival ▸ hsends.sent, harrival ▸ harrived, by rw [htimes]⟩
  · refine ⟨by rwa [hbroker], fun x hx => ?_⟩
    simp only [Engine.executed, hnone] at hx
    exact absurd hx List.not_mem_nil

/-- An order that is accepted is sent after it was decided. -/
theorem Engine.submit_sent {e : Engine R} {order : Order} {id : OrderId}
    (haccepted : (e.submit order).1 = .ok id) (event : Nat) :
    ∃ p, (e.submit order).2.broker.pending = e.broker.pending ++ [p] ∧
      Submission.Sends { order, event, now := e.clock } p := by
  obtain ⟨p, hpending, -⟩ := (Engine.submit_accepted haccepted).2.pending_eq
  have hgrows : (e.submit order).2.broker.pending ≠ e.broker.pending := by
    rw [hpending]
    simp
  obtain ⟨-, heq⟩ | ⟨-, -, heq⟩ | ⟨-, -, err, herror, heq⟩ | ⟨-, -, arrival, hok, heq⟩ := e.submit_cases order
  · exact absurd (by rw [heq]; rfl) hgrows
  · exact absurd (by rw [heq]) hgrows
  · exact absurd (by rw [heq]; exact BrokerSimulator.submit_error herror) hgrows
  · obtain ⟨stamped, hstamped, -, hsent⟩ := BrokerSimulator.submit_ok hok
    obtain ⟨hdecided, hlater⟩ := BrokerSimulator.submit_arrives hok
    obtain ⟨hid, hinstrument, hside, -, -, -, -, htimes⟩ := Order.with_arrival_ok hstamped
    obtain ⟨price, hpriced⟩ := e.priced_eq order
    rw [hpriced] at hid hinstrument hside hdecided
    rw [heq]
    exact ⟨_, hsent, hid, hinstrument, hside, hdecided, hlater, by rw [htimes]⟩

theorem Engine.submitted_error {e : Engine R} {order : Order} {err : Error}
    (hrefused : (e.submit order).1 = .error err) : e.submitted (.submit order) = [] := by
  simp only [Engine.submitted, hrefused]

theorem Engine.submitted_ok {e : Engine R} {order : Order} {id : OrderId}
    (haccepted : (e.submit order).1 = .ok id) :
    e.submitted (.submit order) = [{ order, event := e.summary.events_processed, now := e.clock }] := by
  simp only [Engine.submitted, haccepted]

theorem Engine.submit_journal (e : Engine R) (order : Order) :
    (e.submit order).2.journal.fills = e.journal.fills := (e.submit_fills order).1

theorem Engine.submit_processed (e : Engine R) (order : Order) :
    (e.submit order).2.summary.events_processed = e.summary.events_processed :=
  (e.submit_advances order).processed_eq

/-! ### Steps -/

/-- The record is of a run. -/
theorem Audited.session_reachable {s : Audited R Q} (hreach : (auditedMachine R source).Reachable s) :
    (engineMachine R source).Reachable s.session := by
  induction hreach with
  | init hinit => exact .init hinit.1
  | step _ _ hstep ih =>
    obtain ⟨session, hsession, rfl⟩ := Option.map_eq_some_iff.mp hstep
    exact ih.step trivial hsession

/-- Every run can be recorded. -/
theorem Session.audited {s : Session R Q} (hreach : (engineMachine R source).Reachable s) :
    ∃ t, (auditedMachine R source).Reachable t ∧ t.session = s := by
  induction hreach with
  | @init s hinit => exact ⟨{ session := s }, .init ⟨hinit, rfl, rfl⟩, rfl⟩
  | step _ _ hstep ih =>
    obtain ⟨t, ht, rfl⟩ := ih
    exact ⟨_, ht.step trivial (Option.map_eq_some_iff.mpr ⟨_, hstep, rfl⟩), rfl⟩

/-- An order that is handed in leaves the record causal. -/
theorem Audited.Causal.submit {s : Audited R Q} (hcausal : s.Causal) (order : Order) :
    Audited.Causal {
      session := { s.session with engine := (s.session.engine.submit order).2 }
      submissions := s.submissions ++ s.session.engine.submitted (.submit order)
      executions := s.executions } := by
  have hprocessed := s.session.engine.submit_processed order
  have hjournal := s.session.engine.submit_journal order
  cases hanswer : (s.session.engine.submit order).1 with
  | error err =>
    rw [Engine.submitted_error hanswer, List.append_nil]
    have hshrinks := Engine.submit_refused hanswer
    refine ⟨fun d hd => hprocessed ▸ hcausal.past d hd, fun d hd => hshrinks.known _ (hcausal.known d hd),
      hcausal.distinct, fun p hp => ?_, hjournal.trans hcausal.booked, hcausal.caused⟩
    obtain ⟨-, -, hpending⟩ | ⟨hok, -⟩ := s.session.engine.submit_enters order
    · exact hcausal.pending p (hpending ▸ hp)
    · cases hanswer.symm.trans hok
  | ok id =>
    obtain ⟨-, henters⟩ := Engine.submit_accepted hanswer
    obtain ⟨sent, hpending, hsends⟩ := Engine.submit_sent hanswer s.session.engine.summary.events_processed
    rw [Engine.submitted_ok hanswer]
    refine ⟨fun d hd => ?_, fun d hd => (henters.known _).mpr ?_, ?_, fun p hp => ?_,
      hjournal.trans hcausal.booked, fun x hx => ?_⟩
    · rw [hprocessed]
      rcases List.mem_append.mp hd with hd | hd
      · exact hcausal.past d hd
      · rw [List.mem_singleton.mp hd]
    · rcases List.mem_append.mp hd with hd | hd
      · exact .inr (hcausal.known d hd)
      · exact .inl (by rw [List.mem_singleton.mp hd])
    · rw [List.map_append, List.map_singleton, List.nodup_append]
      refine ⟨hcausal.distinct, List.nodup_singleton _, ?_⟩
      rintro _ hold _ hnew rfl
      obtain ⟨d, hd, hid⟩ := List.mem_map.mp hold
      refine henters.new ?_
      rw [← List.mem_singleton.mp hnew, ← hid]
      exact hcausal.known d hd
    · rw [hpending] at hp
      rcases List.mem_append.mp hp with hp | hp
      · obtain ⟨d, hd, hsame⟩ := hcausal.pending p hp
        exact ⟨d, List.mem_append_left _ hd, hsame⟩
      · rw [List.mem_singleton.mp hp]
        exact ⟨_, List.mem_append_right _ List.mem_cons_self, hsends⟩
    · obtain ⟨d, hd, hcauses⟩ := hcausal.caused x hx
      exact ⟨d, List.mem_append_left _ hd, hcauses⟩

/-- A move that hands in no order and books no fill leaves the record causal. -/
theorem Audited.Causal.quiet {s : Audited R Q} (hcausal : s.Causal) {session : Session R Q}
    (hprocessed : session.engine.summary.events_processed = s.session.engine.summary.events_processed)
    (hknown : ∀ id, s.session.engine.Known id → session.engine.Known id)
    (hpending : ∀ p ∈ session.engine.broker.pending, p ∈ s.session.engine.broker.pending)
    (hjournal : session.engine.journal = s.session.engine.journal) :
    Audited.Causal { session, submissions := s.submissions ++ [], executions := s.executions ++ [] } := by
  rw [List.append_nil, List.append_nil]
  refine ⟨fun d hd => ?_, fun d hd => hknown _ (hcausal.known d hd), hcausal.distinct,
    fun p hp => hcausal.pending p (hpending p hp), ?_, hcausal.caused⟩
  · rw [hprocessed]
    exact hcausal.past d hd
  · rw [hjournal]
    exact hcausal.booked

theorem Audited.Causal.step {s t : Audited R Q} {a : Action} (hcausal : s.Causal)
    (hagreed : s.session.engine.Agreed) (hstep : s.step source a = some t) : t.Causal := by
  obtain ⟨session, hsession, rfl⟩ := Option.map_eq_some_iff.mp hstep
  obtain ⟨ev, q, now, e, rfl, -, hnext, habsorb, rfl⟩ | ⟨order, rfl, rfl⟩ | ⟨id, rfl, rfl⟩ | ⟨rfl, rfl⟩ |
    ⟨ev, e, rfl, -, hsettle, rfl⟩ := Session.step_cases hsession
  · have hexecuted : s.session.executed source .arrive = s.session.engine.executed now ev := by
      simp only [Session.executed, hnext]
    have hadded : s.session.engine.submitted .arrive = [] := rfl
    have hprocessed := (Engine.absorb_advances habsorb).processed_eq
    obtain ⟨hpending, hcaused⟩ := Engine.absorb_causal habsorb hcausal.past hcausal.pending
    rw [hexecuted, hadded, List.append_nil]
    refine ⟨fun d hd => ?_, fun d hd => ?_, hcausal.distinct, hpending, ?_, fun x hx => ?_⟩
    · exact (hcausal.past d hd).trans (hprocessed ▸ Nat.le_succ _)
    · exact (Engine.absorb_shrinks hagreed habsorb).1.known _ (hcausal.known d hd)
    · rw [List.map_append, Engine.executed_fills, ← hcausal.booked]
      exact Engine.absorb_journal habsorb
    · rcases List.mem_append.mp hx with hx | hx
      · exact hcausal.caused x hx
      · exact hcaused x hx
  · have hnone : s.session.executed source (.submit order) = [] := rfl
    rw [hnone, List.append_nil]
    exact hcausal.submit order
  · obtain ⟨hshrinks, -, -⟩ := Engine.cancel_shrinks hagreed id
    refine hcausal.quiet (s.session.engine.cancel_advances id).processed_eq hshrinks.known ?_ ?_
    · obtain ⟨-, heq⟩ | ⟨-, heq⟩ := s.session.engine.cancel_cases id
      · rw [heq]
        exact fun p hp => hp
      · rw [heq]
        exact fun p hp => List.mem_of_mem_eraseP hp
    · obtain ⟨-, heq⟩ | ⟨-, heq⟩ := s.session.engine.cancel_cases id <;> rw [heq]
  · exact hcausal.quiet rfl s.session.engine.shrinks_next_order_id.known (fun p hp => hp) rfl
  · have hsettles := Engine.settle_settles hsettle
    refine hcausal.quiet (Engine.settle_advances hsettle).processed_eq (fun id hknown => ?_) (fun p hp => ?_)
      hsettles.journal_eq
    · rw [Engine.Known, hsettles.oms_eq]
      exact hknown
    · rw [← hsettles.broker_eq]
      exact hp

theorem auditedMachine_causal {s : Audited R Q} (hreach : (auditedMachine R source).Reachable s) : s.Causal := by
  refine hreach.invariant (I := Audited.Causal) ?_ ?_
  · rintro s ⟨hinitial, hsubmissions, hexecutions⟩
    refine ⟨?_, ?_, ?_, ?_, ?_, ?_⟩
    · simp [hsubmissions]
    · simp [hsubmissions]
    · simp [hsubmissions]
    · simp [hinitial.fresh.pending_empty]
    · rw [hinitial.fresh.journal_empty, hexecutions]
      rfl
    · simp [hexecutions]
  · exact fun s a t hreached hcausal _ hstep =>
      hcausal.step (engineMachine_agreed (Audited.session_reachable hreached)) hstep

/-- In every run, whatever the strategy hands in and whenever, every fill that was booked is
of exactly one order, which was accepted during an earlier event, at a clock no earlier than
its decision, and reached the venue after that clock and by the market's time of the fill. -/
theorem engineMachine_no_lookahead {s : Session R Q} (hreach : (engineMachine R source).Reachable s) :
    ∃ t, (auditedMachine R source).Reachable t ∧ t.session = s ∧
      s.engine.journal.fills = t.executions.map Execution.fill ∧
      (t.submissions.map fun d => d.order.id).Nodup ∧
      ∀ x ∈ t.executions, ∃ d ∈ t.submissions, d.Causes x := by
  obtain ⟨t, ht, rfl⟩ := Session.audited hreach
  have hcausal := auditedMachine_causal ht
  exact ⟨t, ht, rfl, hcausal.booked, hcausal.distinct, hcausal.caused⟩

/-- Ten shares are bought during the first bar and filled during the second. -/
theorem engineMachine_no_lookahead_buy :
    ∃ s, (engineMachine Unit replay).Reachable s ∧ s.engine.summary.fills = 1 ∧
      ∃ t, (auditedMachine Unit replay).Reachable t ∧ t.session = s ∧
        s.engine.journal.fills = t.executions.map Execution.fill ∧
        (t.submissions.map fun d => d.order.id).Nodup ∧
        ∀ x ∈ t.executions, ∃ d ∈ t.submissions, d.Causes x := by
  obtain ⟨s, hreach, hfills⟩ := (flatSession_reached [barOf 0 1000, barOf 2000000 1000] {} {}
    (by decide +kernel)).exec_map [.arrive, .submit dayBuy, .settle, .arrive]
    (fun s => s.engine.summary.fills) (b := 1) (Machine.along_of_forall (fun _ _ => trivial) _ _)
    (by decide +kernel)
  exact ⟨s, hreach, hfills, engineMachine_no_lookahead hreach⟩

end ptl.engine
