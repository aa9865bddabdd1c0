import TradingLab.Engine.Run
import TradingLab.Execution.Broker.Agreement
import TradingLab.Oms.OrderManager

open ptl.oms ptl.portfolio ptl.market ptl.risk ptl.execution ptl.accounting

namespace ptl.execution

variable {R : Type}

/-- An order the venue takes is put at the end of its list, to arrive strictly
after the clock that took it. -/
theorem BrokerSimulator.submit_ok {b : BrokerSimulator R} {now arrival : Timestamp} {order : Order}
    (hok : (b.submit now order).1 = .ok arrival) :
    ∃ stamped, order.with_arrival arrival = .ok stamped ∧ order.decision_time < arrival ∧
      (b.submit now order).2.pending =
        b.pending ++ [{ order := stamped, arrival_time := arrival }] := by
  simp only [BrokerSimulator.submit] at hok ⊢
  split at hok
  · cases hok
  · rename_i hset
    split at hok
    · cases hok
    · rename_i hfuture
      split at hok
      · cases hok
      · rename_i stamped hstamped
        cases hok
        refine ⟨stamped, hstamped, ?_, ?_⟩
        · have heffective : ∀ flight : Int, 0 < if flight > 0 then flight else 1 := by
            intro flight
            split <;> omega
          exact lt_of_le_of_lt (not_lt.mp hfuture) (lt_add_of_pos_right _ (heffective _))
        · rw [if_neg hset, if_neg hfuture]

theorem BrokerSimulator.submit_error {b : BrokerSimulator R} {now : Timestamp} {order : Order}
    {err : Error} (herror : (b.submit now order).1 = .error err) :
    (b.submit now order).2.pending = b.pending := by
  simp only [BrokerSimulator.submit] at herror ⊢
  split
  · rfl
  · rename_i hset
    rw [if_neg hset] at herror
    split
    · rfl
    · rename_i hfuture
      rw [if_neg hfuture] at herror
      split
      · rfl
      · rename_i hstamped
        rw [hstamped] at herror
        cases herror

end ptl.execution

set_option linter.dupNamespace false

namespace ptl.engine

variable {R : Type}

/-! ### The order sink -/

def Engine.decision (e : Engine R) (order : Order) : RiskDecision :=
  e.risk.check order e.pf e.oms (e.riskContext order)

/-- The engine after the risk gate refused an order. -/
def Engine.turnedDown (e : Engine R) (order : Order) : Engine R :=
  { e with
    risk := e.risk.record (e.decision order)
    summary := { e.summary with orders_rejected := e.summary.orders_rejected + 1 }
    journal := e.journal.record_risk_rejection e.clock order.instrument
      (e.decision order).describe }

/-- The engine after the venue took an order. -/
def Engine.accepted (e : Engine R) (order : Order) (broker : BrokerSimulator R) (oms : OrderManager) :
    Engine R :=
  { e with
    risk := e.risk.record (e.decision order)
    broker, oms
    journal := (e.journal.append (e.submittedEntry order)).2
    summary := { e.summary with orders_submitted := e.summary.orders_submitted + 1 } }

theorem Engine.riskContext_now (e : Engine R) (order : Order) : (e.riskContext order).now = e.clock := by
  unfold Engine.riskContext
  dsimp only
  split <;> rfl

theorem Engine.priced_eq (e : Engine R) (order : Order) :
    ∃ p, e.priced order = { order with arrival_price := p } := by
  by_cases hreference : (e.riskContext order).reference_price > 0
  · exact ⟨_, if_pos hreference⟩
  · exact ⟨_, if_neg hreference⟩

/-- The four ways a submission can end. -/
theorem Engine.submit_cases (e : Engine R) (order : Order) :
    ((e.decision order).approved = false ∧ (e.submit order).2 = e.turnedDown order) ∨
    ((e.decision order).approved = true ∧ (∃ err, e.oms.submitError (e.priced order) = some err) ∧
      (e.submit order).2 = { e with risk := e.risk.record (e.decision order) }) ∨
    ((e.decision order).approved = true ∧ e.oms.submitError (e.priced order) = none ∧
      ∃ err, (e.broker.submit e.clock (e.priced order)).1 = .error err ∧
        (e.submit order).2 = { e with
          risk := e.risk.record (e.decision order)
          broker := (e.broker.submit e.clock (e.priced order)).2
          oms := ((e.oms.submit (e.priced order)).2.transition (e.priced order).id .Rejected
            err.message).2 }) ∨
    ((e.decision order).approved = true ∧ e.oms.submitError (e.priced order) = none ∧
      ∃ arrival, (e.broker.submit e.clock (e.priced order)).1 = .ok arrival ∧
        (e.submit order).2 = e.accepted order (e.broker.submit e.clock (e.priced order)).2
          (((e.oms.submit (e.priced order)).2.transition (e.priced order).id .PendingNew).2.transition
            (e.priced order).id .Working).2) := by
  unfold Engine.submit
  by_cases happroved : (e.decision order).approved = true
  · have hgate : (e.risk.check order e.pf e.oms (e.riskContext order)).approved = true := happroved
    simp only [hgate, not_true_eq_false, if_false]
    cases hrefused : e.oms.submitError (e.priced order) with
    | some err =>
      refine .inr (.inl ⟨happroved, ⟨err, rfl⟩, ?_⟩)
      simp only [OrderManager.submit, hrefused]
      rfl
    | none =>
      have hsubmitted : (e.oms.submit (e.priced order)).1 = .ok (e.priced order).id := by
        simp only [OrderManager.submit, hrefused]
      revert hsubmitted
      rcases e.oms.submit (e.priced order) with ⟨result, oms⟩
      rintro rfl
      cases hbroker : e.broker.submit e.clock (e.priced order) with
      | mk result broker =>
        cases result with
        | error err => exact .inr (.inr (.inl ⟨happroved, rfl, err, rfl, rfl⟩))
        | ok arrival => exact .inr (.inr (.inr ⟨happroved, rfl, arrival, rfl, rfl⟩))
  · have hgate : ¬ (e.risk.check order e.pf e.oms (e.riskContext order)).approved = true := happroved
    refine .inl ⟨by simpa using happroved, ?_⟩
    rw [if_pos hgate, e.riskContext_now]
    rfl

/-- A cancellation is refused by the venue and changes nothing, or removes the
order there and cancels it in the order manager. -/
theorem Engine.cancel_cases (e : Engine R) (id : OrderId) :
    ((∀ p ∈ e.broker.pending, p.order.id ≠ id) ∧ (e.cancel id).2 = e) ∨
    ((∃ p ∈ e.broker.pending, p.order.id = id) ∧
      (e.cancel id).2 = { e with
        broker := { e.broker with pending := e.broker.pending.eraseP fun p => p.order.id = id }
        oms := (e.oms.transition id .Cancelled "strategy cancel").2 }) := by
  by_cases hworking : (e.broker.pending.any fun p => p.order.id = id) = true
  · refine .inr ⟨by simpa using hworking, ?_⟩
    simp only [Engine.cancel, BrokerSimulator.cancel, hworking, if_true]
  · refine .inl ⟨by simpa using hworking, ?_⟩
    simp only [Engine.cancel, BrokerSimulator.cancel, hworking, Bool.false_eq_true, if_false]

/-! ### Fills -/

/-- A fill that is booked was accepted by the order manager and by the
portfolio. -/
theorem Engine.book_fill_ok {e e' : Engine R} {f : Fill} (hbook : e.book_fill f = .ok e') :
    (∃ rec, e.oms.records[f.order_id]? = some rec ∧ rec.Accepts f ∧
      e'.oms = { e.oms with records := e.oms.records.insert f.order_id (rec.after_fill f) }) ∧
    (∃ done, e.pf.apply f = (.ok done, e'.pf)) ∧
    e' = { e with
      oms := e'.oms
      pf := e'.pf
      journal := e.journal.record_fill f
      turnover_today := e.turnover_today + |f.price * f.quantity|
      summary := { e.summary with fills := e.summary.fills + 1 } } := by
  unfold Engine.book_fill at hbook
  split at hbook
  · cases hbook
  · rename_i done oms happly
    split at hbook
    · cases hbook
    · rename_i done' pf hpf
      cases hbook
      obtain ⟨rec, hrec, haccepts⟩ := OrderManager.apply_fill_ok (congrArg Prod.fst happly)
      rw [OrderManager.apply_fill_accepted hrec haccepts] at happly
      cases happly
      exact ⟨⟨rec, hrec, haccepts, rfl⟩, ⟨done', hpf⟩, rfl⟩

/-- Whatever every booked fill preserves, booking fills preserves. -/
theorem Engine.book_fills_invariant {I : Engine R → List Fill → Prop}
    (hstep : ∀ e f fs e', I e (f :: fs) → e.book_fill f = .ok e' → I e' fs) {e e' : Engine R}
    {fs : List Fill} (hinit : I e fs) (hbook : e.book_fills fs = .ok e') : I e' [] := by
  induction fs generalizing e with
  | nil =>
    cases hbook
    exact hinit
  | cons f fs ih =>
    simp only [Engine.book_fills] at hbook
    cases hfirst : e.book_fill f with
    | error err => simp [hfirst] at hbook
    | ok e₁ =>
      simp only [hfirst] at hbook
      exact ih (hstep _ _ _ _ hinit hfirst) hbook

/-- Booking fills is none of the venue's business. -/
theorem Engine.book_fills_broker {e e' : Engine R} {fs : List Fill}
    (hbook : e.book_fills fs = .ok e') : e'.broker = e.broker := by
  refine Engine.book_fills_invariant (I := fun e₁ _ => e₁.broker = e.broker) ?_ rfl hbook
  intro e₁ f fs e₂ hsame hfirst
  obtain ⟨-, -, heq⟩ := Engine.book_fill_ok hfirst
  rw [heq]
  exact hsame

/-! ### Events -/

/-- A call of `on_market`. -/
structure MarketCall where
  instrument : InstrumentId
  state : MarketState
  now : Timestamp

/-- The call of the venue an event leads to: bars and quotes are matched. -/
def Engine.marketCall (e : Engine R) : MarketEvent → Option MarketCall
  | .bar bar => some ⟨bar.instrument, e.barState bar, bar.close_time⟩
  | .quote q => some ⟨q.instrument, e.quoteState q, q.time.exchange_time⟩
  | _ => none

/-- The portfolio when an event's fills are about to be booked. -/
def Engine.marked (e : Engine R) : MarketEvent → Portfolio
  | .bar bar => e.pf.mark_last bar.instrument bar.close
  | .quote q => e.pf.mark_from_quote q
  | .corporateAction c =>
    match c.kind with
    | .Split => (e.pf.apply_split c.instrument c.split_ratio).2
    | .CashDividend => (e.pf.apply_dividend c.instrument c.dividend_amount).2
  | _ => e.pf

/-- What an event leaves unchanged before its fills are booked. -/
structure Engine.Matches (e e₁ : Engine R) (ev : MarketEvent) : Prop where
  oms_eq : e₁.oms = e.oms
  journal_eq : e₁.journal = e.journal
  risk_eq : e₁.risk = e.risk
  pf_eq : e₁.pf = e.marked ev
  orders_submitted_eq : e₁.summary.orders_submitted = e.summary.orders_submitted
  orders_rejected_eq : e₁.summary.orders_rejected = e.summary.orders_rejected
  fills_eq : e₁.summary.fills = e.summary.fills

theorem eq_nil_of_map_ok {result : Result Bool} {fs : List Fill}
    (hok : result.map (fun _ => ([] : List Fill)) = .ok fs) : fs = [] := by
  cases result with
  | error err => cases hok
  | ok done =>
    cases hok
    rfl

/-- An event that is absorbed calls the venue and books the fills it returns,
or calls no venue and leaves the venue alone. -/
theorem Engine.absorb_cases {e e' : Engine R} {now : Timestamp} {ev : MarketEvent}
    (habsorb : e.absorb now ev = .ok e') :
    (∃ call fs e₁, e.marketCall ev = some call ∧
      (e.broker.on_market call.instrument call.state call.now).1 = .ok fs ∧
      e₁.broker = (e.broker.on_market call.instrument call.state call.now).2 ∧
      e₁.clock = now ∧ e.Matches e₁ ev ∧ e₁.book_fills fs = .ok e') ∨
    (e.marketCall ev = none ∧ e'.broker = e.broker ∧ e'.clock = now ∧ e.Matches e' ev) := by
  unfold Engine.absorb at habsorb
  cases ev with
  | bar bar =>
    have hmatch : (e.observe now (.bar bar)).match_event (.bar bar) =
        ((e.broker.on_market bar.instrument (e.barState bar) bar.close_time).1,
          ((e.observe now (.bar bar)).match_bar bar).2) := rfl
    rw [hmatch] at habsorb
    cases hfills : (e.broker.on_market bar.instrument (e.barState bar) bar.close_time).1 with
    | error err => simp [hfills] at habsorb
    | ok fs =>
      simp only [hfills] at habsorb
      exact .inl ⟨_, fs, ((e.observe now (.bar bar)).match_bar bar).2, rfl, hfills, rfl, rfl,
        ⟨rfl, rfl, rfl, rfl, rfl, rfl, rfl⟩, habsorb⟩
  | quote q =>
    have hmatch : (e.observe now (.quote q)).match_event (.quote q) =
        ((e.broker.on_market q.instrument (e.quoteState q) q.time.exchange_time).1,
          ((e.observe now (.quote q)).match_quote q).2) := rfl
    rw [hmatch] at habsorb
    cases hfills : (e.broker.on_market q.instrument (e.quoteState q) q.time.exchange_time).1 with
    | error err => simp [hfills] at habsorb
    | ok fs =>
      simp only [hfills] at habsorb
      exact .inl ⟨_, fs, ((e.observe now (.quote q)).match_quote q).2, rfl, hfills, rfl, rfl,
        ⟨rfl, rfl, rfl, rfl, rfl, rfl, rfl⟩, habsorb⟩
  | trade t =>
    cases habsorb
    exact .inr ⟨rfl, rfl, rfl, rfl, rfl, rfl, rfl, rfl, rfl, rfl⟩
  | corporateAction c =>
    refine .inr ⟨rfl, ?_⟩
    have hmarked : (e.observe now (.corporateAction c)).match_event (.corporateAction c) =
        (((e.observe now (.corporateAction c)).match_event (.corporateAction c)).1,
          { e.observe now (.corporateAction c) with pf := e.marked (.corporateAction c) }) := by
      cases hkind : c.kind <;> simp only [Engine.match_event, Engine.marked, hkind] <;> rfl
    rw [hmarked] at habsorb
    cases hresult : ((e.observe now (.corporateAction c)).match_event (.corporateAction c)).1 with
    | error err => simp [hresult] at habsorb
    | ok fs =>
      have hnone : fs = [] := by
        cases hkind : c.kind <;> simp only [Engine.match_event, hkind] at hresult <;>
          exact eq_nil_of_map_ok hresult
      simp only [hresult, hnone, Engine.book_fills, Except.ok.injEq] at habsorb
      rw [← habsorb]
      exact ⟨rfl, rfl, rfl, rfl, rfl, rfl, rfl, rfl, rfl⟩
  | session ev =>
    refine .inr ⟨rfl, ?_⟩
    simp only [Engine.match_event] at habsorb
    cases hkind : ev.kind with
    | Open =>
      simp only [hkind, Engine.book_fills, Except.ok.injEq] at habsorb
      rw [← habsorb]
      exact ⟨rfl, rfl, rfl, rfl, rfl, rfl, rfl, rfl, rfl⟩
    | Close =>
      simp only [hkind, Engine.book_fills, Except.ok.injEq] at habsorb
      rw [← habsorb]
      exact ⟨rfl, rfl, rfl, rfl, rfl, rfl, rfl, rfl, rfl⟩
  | timer t =>
    cases habsorb
    exact .inr ⟨rfl, rfl, rfl, rfl, rfl, rfl, rfl, rfl, rfl, rfl⟩

theorem Engine.snapshot_ok {e e' : Engine R} {ts : Timestamp} (hsnapshot : e.snapshot ts = .ok e') :
    ∃ curve, e' = { e with pf := { e.pf with curve } } := by
  unfold Engine.snapshot Portfolio.snapshot at hsnapshot
  dsimp only at hsnapshot
  split at hsnapshot
  · cases hsnapshot
  · rename_i hpoint
    cases hsnapshot
    split at hpoint
    · cases hpoint
    · split at hpoint
      · cases hpoint
      · split at hpoint
        · cases hpoint
        · cases hpoint
          exact ⟨_, rfl⟩

/-- What the end of an event leaves unchanged: all but the equity curve, the
peak and the counters of events. -/
structure Engine.Settles (e e' : Engine R) : Prop where
  oms_eq : e'.oms = e.oms
  broker_eq : e'.broker = e.broker
  journal_eq : e'.journal = e.journal
  clock_eq : e'.clock = e.clock
  risk_eq : e'.risk = e.risk
  pf_eq : ∃ curve, e'.pf = { e.pf with curve }
  orders_submitted_eq : e'.summary.orders_submitted = e.summary.orders_submitted
  orders_rejected_eq : e'.summary.orders_rejected = e.summary.orders_rejected
  fills_eq : e'.summary.fills = e.summary.fills

theorem Engine.close_event_settles {e e' : Engine R} {ev : MarketEvent}
    (hclose : e.close_event ev = .ok e') : e.Settles e' := by
  have hsnapshot : ∀ {e e' : Engine R} {ts : Timestamp}, e.snapshot ts = .ok e' → e.Settles e' := by
    intro e e' ts htaken
    obtain ⟨curve, heq⟩ := Engine.snapshot_ok htaken
    rw [heq]
    exact ⟨rfl, rfl, rfl, rfl, rfl, ⟨curve, rfl⟩, rfl, rfl, rfl⟩
  have hsame : ∀ e : Engine R, e.Settles e :=
    fun e => ⟨rfl, rfl, rfl, rfl, rfl, ⟨e.pf.curve, rfl⟩, rfl, rfl, rfl⟩
  cases ev with
  | bar bar =>
    simp only [Engine.close_event] at hclose
    split at hclose
    · obtain ⟨h₁, h₂, h₃, h₄, h₅, h₆, h₇, h₈, h₉⟩ := hsnapshot hclose
      exact ⟨h₁, h₂, h₃, h₄, h₅, h₆, h₇, h₈, h₉⟩
    · cases hclose
      exact ⟨rfl, rfl, rfl, rfl, rfl, ⟨e.pf.curve, rfl⟩, rfl, rfl, rfl⟩
  | quote q =>
    cases hclose
    exact ⟨rfl, rfl, rfl, rfl, rfl, ⟨e.pf.curve, rfl⟩, rfl, rfl, rfl⟩
  | session ev =>
    simp only [Engine.close_event] at hclose
    split at hclose
    · cases hclose
      exact hsame e
    · split at hclose
      · exact hsnapshot hclose
      · cases hclose
        exact hsame e
  | trade t =>
    cases hclose
    exact hsame e
  | corporateAction c =>
    cases hclose
    exact hsame e
  | timer t =>
    cases hclose
    exact hsame e

theorem Engine.settle_settles {e e' : Engine R} {ev : MarketEvent} (hsettle : e.settle ev = .ok e') :
    e.Settles e' := by
  unfold Engine.settle at hsettle
  cases hclose : e.close_event ev with
  | error err =>
    rw [hclose] at hsettle
    cases hsettle
  | ok closed =>
    rw [hclose] at hsettle
    cases hsettle
    obtain ⟨h₁, h₂, h₃, h₄, h₅, h₆, h₇, h₈, h₉⟩ := Engine.close_event_settles hclose
    unfold Engine.track_peak
    dsimp only
    split <;> exact ⟨h₁, h₂, h₃, h₄, h₅, h₆, h₇, h₈, h₉⟩

end ptl.engine

/-! How an order enters the venue's list: by a submission that nothing on its way
turns down, and not otherwise. -/

namespace ptl.execution

variable {R : Type}

/-- The venue's clock is set, the order was decided by now, and it can be stamped
with its arrival. -/
def BrokerSimulator.Takes (b : BrokerSimulator R) (now : Timestamp) (order : Order) : Prop :=
  is_set now = true ∧ order.decision_time ≤ now ∧
    let flight := (b.latency.decision_to_arrival b.latency_rng).1
    (order.with_arrival (now + if flight > 0 then flight else 1)).toOption.isSome = true

instance (b : BrokerSimulator R) (now : Timestamp) (order : Order) : Decidable (b.Takes now order) :=
  inferInstanceAs (Decidable (_ ∧ _ ∧ _))

theorem BrokerSimulator.takes_of_ok {b : BrokerSimulator R} {now arrival : Timestamp} {order : Order}
    (hok : (b.submit now order).1 = .ok arrival) : b.Takes now order := by
  unfold BrokerSimulator.submit at hok
  split at hok
  · cases hok
  · rename_i hset
    split at hok
    · cases hok
    · rename_i hdecided
      refine ⟨not_not.mp hset, not_lt.mp hdecided, ?_⟩
      dsimp only at hok ⊢
      split at hok
      · cases hok
      · rename_i stamped hstamped
        rw [hstamped]
        rfl

end ptl.execution

set_option linter.dupNamespace false

namespace ptl.engine

variable {R Q : Type} {source : IMarketDataSource Q}

/-- Risk gate, order manager and venue would all take the order. -/
def Engine.Admits (e : Engine R) (order : Order) : Prop :=
  (e.decision order).approved = true ∧ e.oms.submitError (e.priced order) = none ∧
    e.broker.Takes e.clock (e.priced order)

instance (e : Engine R) (order : Order) : Decidable (e.Admits order) :=
  inferInstanceAs (Decidable (_ ∧ _ ∧ _))

/-- An order that is turned down anywhere leaves the venue's list as it was. -/
theorem Engine.submit_pending {e : Engine R} {order : Order} (hturned : ¬ e.Admits order) :
    (e.submit order).2.broker.pending = e.broker.pending := by
  obtain ⟨-, heq⟩ | ⟨-, -, heq⟩ | ⟨-, -, err, herror, heq⟩ | ⟨happroved, hnew, arrival, hok, -⟩ :=
    e.submit_cases order
  · rw [heq]
    rfl
  · rw [heq]
  · rw [heq]
    exact BrokerSimulator.submit_error herror
  · exact absurd ⟨happroved, hnew, BrokerSimulator.takes_of_ok hok⟩ hturned

theorem Engine.cancel_pending (e : Engine R) (id : OrderId) :
    (idsOf (e.cancel id).2.broker.pending).Sublist (idsOf e.broker.pending) := by
  obtain ⟨-, heq⟩ | ⟨-, heq⟩ := e.cancel_cases id
  · rw [heq]
  · rw [heq]
    exact List.eraseP_sublist.map _

/-- An event takes orders off the list and puts none on it. -/
theorem Engine.absorb_pending {e e' : Engine R} {now : Timestamp} {ev : MarketEvent}
    (habsorb : e.absorb now ev = .ok e') : (idsOf e'.broker.pending).Sublist (idsOf e.broker.pending) := by
  obtain ⟨call, fs, e₁, -, hfills, hbroker, -, -, hbook⟩ | ⟨-, hbroker, -, -⟩ :=
    Engine.absorb_cases habsorb
  · rw [Engine.book_fills_broker hbook, hbroker]
    exact (BrokerSimulator.on_market_matched hfills).ids_sublist
  · rw [hbroker]

/-- No move of a run but a submission that is admitted adds to the list. -/
theorem Session.step_pending {s t : Session R Q} {a : Action} (hstep : s.step source a = some t)
    (hturned : ∀ order, a = .submit order → ¬ s.engine.Admits order) :
    (idsOf t.engine.broker.pending).Sublist (idsOf s.engine.broker.pending) := by
  obtain ⟨ev, q, now, e, -, -, -, habsorb, rfl⟩ | ⟨order, ha, rfl⟩ | ⟨id, -, rfl⟩ | ⟨-, rfl⟩ |
    ⟨ev, e, -, -, hsettle, rfl⟩ := Session.step_cases hstep
  · exact Engine.absorb_pending habsorb
  · dsimp only
    rw [Engine.submit_pending (hturned order ha)]
  · exact s.engine.cancel_pending id
  · exact List.Sublist.refl _
  · dsimp only
    rw [(Engine.settle_settles hsettle).broker_eq]

/-- A strategy that answers its start so, and does nothing of its own. -/
def starts (answer : Result Unit) : IStrategy Unit := { on_start := fun _ _ => answer }

/-- How a session's step began: whether it permits trading, and the orders then
pending at the venue. -/
structure Opening where
  permitted : Bool := true
  pending : List OrderId := []

/-- Where trading was not permitted, no order has been added. -/
def Opening.Respects (o : Opening) (pending : List PendingOrder) : Prop :=
  o.permitted = false → (idsOf pending).Sublist o.pending

theorem Opening.Respects.sublist {o : Opening} {ps ps' : List PendingOrder} (hrespects : o.Respects ps)
    (hfewer : (idsOf ps').Sublist (idsOf ps)) : o.Respects ps' :=
  fun hforbidden => hfewer.trans (hrespects hforbidden)

end ptl.engine
