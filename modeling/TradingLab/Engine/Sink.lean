import TradingLab.Engine.Agreement
import TradingLab.Execution.Broker.Remainders

/-! The order sink as an interface, and what the engine behind it does to one
order: only an accepted submission adds an order, and all else takes away. -/

open ptl.oms ptl.portfolio ptl.market ptl.risk ptl.execution ptl.accounting

set_option linter.dupNamespace false

namespace ptl.engine

/-- Where orders are sent, over the state of whatever stands behind it. -/
structure OrderSink (E : Type) where
  submit : E → Order → Result OrderId × E
  cancel : E → OrderId → Result Bool × E
  next_order_id : E → OrderId × E

variable {R Q : Type} {source : IMarketDataSource Q}

/-- The engine's own sink. -/
def engineSink : OrderSink (Engine R) where
  submit := Engine.submit
  cancel := Engine.cancel
  next_order_id := Engine.next_order_id

/-- The venue works an order of this id. -/
def Engine.Live (e : Engine R) (id : OrderId) : Prop := id ∈ idsOf e.broker.pending

instance (e : Engine R) (id : OrderId) : Decidable (e.Live id) :=
  inferInstanceAs (Decidable (id ∈ idsOf e.broker.pending))

/-- The order manager has a record of this id. -/
def Engine.Known (e : Engine R) (id : OrderId) : Prop := (e.oms.records[id]?).isSome = true

def Engine.filledOf (e : Engine R) (id : OrderId) : Qty :=
  (e.oms.records[id]?).elim 0 OrderRecord.filled_quantity

/-- What is filled of an order and what may still be. -/
def Engine.committed (e : Engine R) (id : OrderId) : Qty := e.filledOf id + restingOf e.broker.pending id

theorem Engine.Agreed.known {e : Engine R} (hagreed : e.Agreed) {id : OrderId} (hlive : e.Live id) :
    e.Known id := by
  obtain ⟨p, hp, rfl⟩ := List.mem_map.mp hlive
  obtain ⟨rec, hrec, -⟩ := hagreed.backed p hp
  rw [Engine.Known, hrec]
  rfl

theorem Engine.filledOf_of_not_known {e : Engine R} {id : OrderId} (hnew : ¬ e.Known id) :
    e.filledOf id = 0 := by
  have hnone : e.oms.records[id]? = none := by simpa [Engine.Known] using hnew
  rw [Engine.filledOf, hnone]
  rfl

theorem Engine.committed_of_not_live {e : Engine R} {id : OrderId} (hdead : ¬ e.Live id) :
    e.committed id = e.filledOf id := by
  rw [Engine.committed, restingOf_of_not_mem hdead, add_zero]

theorem Engine.filledOf_le_committed {e : Engine R} (hagreed : e.Agreed) (id : OrderId) :
    e.filledOf id ≤ e.committed id :=
  le_add_of_nonneg_right (restingOf_nonneg hagreed.withinOrders id)

/-- From one engine to another no order is added, and what these fills have is
taken from what was resting. -/
structure Engine.Shrinks (e e' : Engine R) (fs : List Fill) : Prop where
  known : ∀ id, e.Known id → e'.Known id
  filled_eq : ∀ id, e'.filledOf id = e.filledOf id + filledBy fs id
  resting_le : ∀ id, restingOf e'.broker.pending id + filledBy fs id ≤ restingOf e.broker.pending id
  order_of_rest : ∀ q ∈ e'.broker.pending, ∃ p ∈ e.broker.pending, q.order = p.order
  order_of_fill : ∀ f ∈ fs, 0 < f.quantity ∧ ∃ p ∈ e.broker.pending,
    f.order_id = p.order.id ∧ f.parent_id = p.order.parent_id

/-- From one engine to another this order is added. -/
structure Engine.Enters (e e' : Engine R) (order : Order) : Prop where
  new : ¬ e.Known order.id
  pending_eq : ∃ p, e'.broker.pending = e.broker.pending ++ [p] ∧ p.order.id = order.id ∧
    p.order.parent_id = order.parent_id ∧ p.order.quantity = order.quantity ∧ p.filled = 0
  filled_eq : ∀ id, e'.filledOf id = e.filledOf id
  known : ∀ id, e'.Known id ↔ id = order.id ∨ e.Known id

namespace Engine.Shrinks

variable {e e' : Engine R} {fs : List Fill}

theorem live (hshrinks : e.Shrinks e' fs) {id : OrderId} (hlive : e'.Live id) : e.Live id := by
  obtain ⟨q, hq, rfl⟩ := List.mem_map.mp hlive
  obtain ⟨p, hp, hsame⟩ := hshrinks.order_of_rest q hq
  rw [hsame]
  exact List.mem_map_of_mem hp

theorem filled_same (hshrinks : e.Shrinks e' []) (id : OrderId) : e'.filledOf id = e.filledOf id := by
  rw [hshrinks.filled_eq, filledBy_nil, add_zero]

theorem committed_le (hshrinks : e.Shrinks e' fs) (id : OrderId) : e'.committed id ≤ e.committed id := by
  have hresting := hshrinks.resting_le id
  rw [Engine.committed, Engine.committed, hshrinks.filled_eq id]
  linarith

/-- The same orders on both sides. -/
theorem of_same (hpending : e'.broker.pending = e.broker.pending)
    (hrecords : ∀ id : OrderId, e'.oms.records[id]? = e.oms.records[id]?) : e.Shrinks e' [] := by
  refine ⟨fun id hknown => ?_, fun id => ?_, fun id => ?_, fun q hq => ?_, ?_⟩
  · rw [Engine.Known, hrecords]
    exact hknown
  · rw [Engine.filledOf, hrecords, filledBy_nil, add_zero]
    rfl
  · rw [hpending, filledBy_nil, add_zero]
  · exact ⟨q, hpending ▸ hq, rfl⟩
  · exact fun f hf => absurd hf List.not_mem_nil

end Engine.Shrinks

namespace Engine.Enters

variable {e e' : Engine R} {order : Order}

theorem live_iff (henters : e.Enters e' order) {id : OrderId} : e'.Live id ↔ e.Live id ∨ id = order.id := by
  obtain ⟨p, hpending, hid, -⟩ := henters.pending_eq
  rw [Engine.Live, hpending, idsOf, List.map_append, List.mem_append, List.map_cons, List.map_nil,
    List.mem_singleton, hid]
  rfl

/-- Of the order that enters its whole quantity is committed, of others what
was. -/
theorem committed_eq (henters : e.Enters e' order) (hagreed : e.Agreed) (id : OrderId) :
    e'.committed id = if id = order.id then order.quantity else e.committed id := by
  obtain ⟨p, hpending, hid, -, hquantity, hfilled⟩ := henters.pending_eq
  rw [Engine.committed, henters.filled_eq, hpending, restingOf_append, restingOf_cons, restingOf_nil, hid]
  by_cases hnew : id = order.id
  · subst hnew
    have hunfilled : e.filledOf order.id = 0 := Engine.filledOf_of_not_known henters.new
    have hdead : ¬ e.Live order.id := fun hlive => henters.new (hagreed.known hlive)
    rw [if_pos rfl, if_pos rfl, hunfilled, restingOf_of_not_mem hdead, hquantity, hfilled]
    linarith
  · have hother : ¬ order.id = id := fun heq => hnew heq.symm
    rw [if_neg hother, if_neg hnew, Engine.committed]
    linarith

end Engine.Enters

/-! ### What the engine's moves do -/

/-- The fills an event is about to dispatch. -/
def Engine.fillsOf (e : Engine R) (now : Timestamp) (ev : MarketEvent) : List Fill :=
  (((e.observe now ev).match_event ev).1.toOption).getD []

/-- The orders an event is about to drop without a fill. -/
def Engine.killsOf (e : Engine R) (ev : MarketEvent) : List OrderId :=
  match e.marketCall ev with
  | none => []
  | some call =>
    (e.broker.visits call.instrument call.state call.now).filterMap fun v =>
      match v.decision with
      | .erase => some v.found.order.id
      | _ => none

theorem Engine.shrinks_next_order_id (e : Engine R) : e.Shrinks e.next_order_id.2 [] :=
  .of_same rfl fun _ => rfl

theorem Engine.agreed_next_order_id {e : Engine R} (hagreed : e.Agreed) : e.next_order_id.2.Agreed :=
  hagreed.congr fun _ _ => rfl

theorem Engine.priced_id (e : Engine R) (order : Order) : (e.priced order).id = order.id := by
  obtain ⟨p, hpriced⟩ := e.priced_eq order
  rw [hpriced]

/-- What a submission answers. -/
theorem Engine.submit_answer (e : Engine R) (order : Order) :
    (e.submit order).1 =
      if ¬ (e.decision order).approved = true then
        .error (make_error .ValidationFailed (e.decision order).describe)
      else
        match e.oms.submitError (e.priced order) with
        | some err => .error err
        | none => (e.broker.submit e.clock (e.priced order)).1.map fun _ => order.id := by
  unfold Engine.submit
  by_cases happroved : (e.decision order).approved = true
  · have hgate : (e.risk.check order e.pf e.oms (e.riskContext order)).approved = true := happroved
    simp only [hgate, happroved, not_true_eq_false, if_false]
    cases hrefused : e.oms.submitError (e.priced order) with
    | some err => simp only [OrderManager.submit, hrefused]
    | none =>
      have hsubmitted : (e.oms.submit (e.priced order)).1 = .ok (e.priced order).id := by
        simp only [OrderManager.submit, hrefused]
      revert hsubmitted
      rcases e.oms.submit (e.priced order) with ⟨result, oms⟩
      rintro rfl
      simp only
      cases hbroker : e.broker.submit e.clock (e.priced order) with
      | mk result broker =>
        cases result with
        | error err => rfl
        | ok arrival =>
          simp only [e.priced_id]
          rfl
  · have hgate : ¬ (e.risk.check order e.pf e.oms (e.riskContext order)).approved = true := happroved
    rw [if_pos hgate, if_pos happroved]
    rfl

/-- An order that the broker rejects stays on record and rests nowhere. -/
theorem Engine.shrinks_rejected (e : Engine R) {order : Order} {err : Error}
    (hnew : e.oms.submitError (e.priced order) = none)
    (herror : (e.broker.submit e.clock (e.priced order)).1 = .error err) :
    e.Shrinks { e with
      risk := e.risk.record (e.decision order)
      broker := (e.broker.submit e.clock (e.priced order)).2
      oms := ((e.oms.submit (e.priced order)).2.transition (e.priced order).id .Rejected
        err.message).2 } [] := by
  have hfresh := OrderManager.fresh_of_submitError hnew
  have hlookup := OrderManager.rejected_lookup hnew err.message
  refine ⟨fun id hknown => ?_, fun id => ?_, fun id => ?_, fun q hq => ?_, ?_⟩
  · rw [Engine.Known]
    dsimp only
    rw [hlookup]
    split
    · rfl
    · exact hknown
  · rw [Engine.filledOf, Engine.filledOf, filledBy_nil, add_zero]
    dsimp only
    rw [hlookup]
    split
    · rename_i hid
      rw [← hid, hfresh]
      rfl
    · rfl
  · dsimp only
    rw [BrokerSimulator.submit_error herror, filledBy_nil, add_zero]
  · dsimp only at hq
    rw [BrokerSimulator.submit_error herror] at hq
    exact ⟨q, hq, rfl⟩
  · exact fun f hf => absurd hf List.not_mem_nil

/-- A submission is refused and adds nothing, or adds the order. -/
theorem Engine.submit_enters (e : Engine R) (order : Order) :
    ((∃ err, (e.submit order).1 = .error err) ∧ e.Shrinks (e.submit order).2 [] ∧
        (e.submit order).2.broker.pending = e.broker.pending) ∨
      ((e.submit order).1 = .ok order.id ∧ e.Enters (e.submit order).2 order) := by
  have hanswer := e.submit_answer order
  obtain ⟨hturned, heq⟩ | ⟨happroved, ⟨err, hrefused⟩, heq⟩ | ⟨happroved, hnew, err, herror, heq⟩ |
    ⟨happroved, hnew, arrival, hok, heq⟩ := e.submit_cases order
  · rw [if_pos (by simp [hturned])] at hanswer
    refine .inl ⟨⟨_, hanswer⟩, ?_⟩
    rw [heq]
    exact ⟨.of_same rfl fun _ => rfl, rfl⟩
  · rw [if_neg (by simp [happroved]), hrefused] at hanswer
    refine .inl ⟨⟨_, hanswer⟩, ?_⟩
    rw [heq]
    exact ⟨.of_same rfl fun _ => rfl, rfl⟩
  · rw [if_neg (by simp [happroved]), hnew] at hanswer
    simp only [herror] at hanswer
    refine .inl ⟨⟨_, hanswer⟩, ?_⟩
    rw [heq]
    exact ⟨e.shrinks_rejected hnew herror, BrokerSimulator.submit_error herror⟩
  · rw [if_neg (by simp [happroved]), hnew] at hanswer
    simp only [hok] at hanswer
    refine .inr ⟨hanswer, ?_⟩
    have hfresh := OrderManager.fresh_of_submitError hnew
    have hlookup := OrderManager.working_lookup hnew
    obtain ⟨stamped, hstamped, -, hpending⟩ := BrokerSimulator.submit_ok hok
    obtain ⟨p, hpriced⟩ := e.priced_eq order
    obtain ⟨hid, -, -, hquantity, -⟩ := Order.with_arrival_ok hstamped
    have hparent := Order.with_arrival_parent hstamped
    rw [hpriced] at hid hquantity hparent
    rw [e.priced_id] at hfresh hlookup
    rw [heq]
    refine ⟨?_, ⟨_, hpending, hid, hparent, hquantity, rfl⟩, fun id => ?_, fun id => ?_⟩
    · rw [Engine.Known, hfresh]
      exact Bool.false_ne_true
    · rw [Engine.filledOf, Engine.filledOf, Engine.accepted]
      dsimp only
      rw [e.priced_id, hlookup]
      split
      · rename_i hsame
        rw [← hsame, hfresh]
        rfl
      · rfl
    · rw [Engine.Known, Engine.Known, Engine.accepted]
      dsimp only
      rw [e.priced_id, hlookup]
      split
      · rename_i hsame
        simp [hsame]
      · rename_i hother
        exact ⟨.inr, fun h => h.resolve_left fun heq => hother heq.symm⟩

/-- A cancellation takes its order off the venue's list, and no other. -/
theorem Engine.cancel_shrinks {e : Engine R} (hagreed : e.Agreed) (id : OrderId) :
    e.Shrinks (e.cancel id).2 [] ∧ ¬ (e.cancel id).2.Live id ∧
      ∀ other, other ≠ id → ((e.cancel id).2.Live other ↔ e.Live other) := by
  obtain ⟨hnone, heq⟩ | ⟨⟨p, hp, hid⟩, heq⟩ := e.cancel_cases id
  · rw [heq]
    refine ⟨.of_same rfl fun _ => rfl, fun hlive => ?_, fun _ _ => Iff.rfl⟩
    obtain ⟨p, hp, hid⟩ := List.mem_map.mp hlive
    exact hnone p hp hid
  · obtain ⟨rec, hrec, hbacks⟩ := hagreed.backed p hp
    rw [hid] at hrec
    have hlookup := OrderManager.cancel_lookup hrec hbacks.live
    rw [heq]
    refine ⟨⟨fun other hknown => ?_, fun other => ?_, fun other => ?_, fun q hq => ?_, ?_⟩, ?_, ?_⟩
    · rw [Engine.Known]
      dsimp only
      rw [hlookup]
      split
      · rfl
      · exact hknown
    · rw [Engine.filledOf, Engine.filledOf, filledBy_nil, add_zero]
      dsimp only
      rw [hlookup]
      split
      · rename_i hsame
        rw [← hsame, hrec]
        rfl
      · rfl
    · rw [filledBy_nil, add_zero]
      exact restingOf_sublist List.eraseP_sublist hagreed.withinOrders other
    · exact ⟨q, List.mem_of_mem_eraseP hq, rfl⟩
    · exact fun f hf => absurd hf List.not_mem_nil
    · intro hlive
      obtain ⟨q, hq, hqid⟩ := List.mem_map.mp hlive
      exact (mem_eraseP_ids hagreed.distinct q hq).2 hqid
    · intro other hne
      simp only [Engine.Live, idsOf, List.mem_map]
      refine exists_congr fun q => and_congr_left fun hq => ?_
      refine List.mem_eraseP_of_neg ?_
      simpa [hq] using hne

theorem Engine.fillsOf_call {e : Engine R} {now : Timestamp} {ev : MarketEvent} {call : MarketCall}
    (hcall : e.marketCall ev = some call) :
    e.fillsOf now ev = ((e.broker.on_market call.instrument call.state call.now).1.toOption).getD [] := by
  cases ev with
  | bar bar =>
    cases hcall
    rfl
  | quote q =>
    cases hcall
    rfl
  | trade t => cases hcall
  | corporateAction c => cases hcall
  | session ev => cases hcall
  | timer t => cases hcall

theorem Engine.fillsOf_none {e : Engine R} {now : Timestamp} {ev : MarketEvent}
    (hnone : e.marketCall ev = none) : e.fillsOf now ev = [] := by
  cases ev with
  | bar bar => cases hnone
  | quote q => cases hnone
  | trade t => rfl
  | corporateAction c =>
    unfold Engine.fillsOf Engine.match_event
    dsimp only
    cases c.kind with
    | Split =>
      dsimp only
      cases ((e.observe now (.corporateAction c)).pf.apply_split c.instrument c.split_ratio).1 <;> rfl
    | CashDividend =>
      dsimp only
      cases ((e.observe now (.corporateAction c)).pf.apply_dividend c.instrument c.dividend_amount).1 <;> rfl
  | session ev => rfl
  | timer t => rfl

/-- An event fills orders that were resting. Those that no longer rest have a
fill or were dropped without one. -/
theorem Engine.absorb_shrinks {e e' : Engine R} {now : Timestamp} {ev : MarketEvent} (hagreed : e.Agreed)
    (habsorb : e.absorb now ev = .ok e') :
    e.Shrinks e' (e.fillsOf now ev) ∧ ∀ id, e.Live id → e'.Live id ∨
      (∃ f ∈ e.fillsOf now ev, f.order_id = id) ∨ id ∈ e.killsOf ev := by
  obtain ⟨call, fs, e₁, hcall, hfills, hbroker, -, hmatches, hbook⟩ | ⟨hnone, hbroker, -, hmatches⟩ :=
    Engine.absorb_cases habsorb
  · have hmatched := BrokerSimulator.on_market_matched hfills
    have haccepts := (hmatched.agrees hagreed).1
    have hdispatched : e.fillsOf now ev = fs := by
      rw [Engine.fillsOf_call hcall, hfills]
      rfl
    have hpending : e'.broker.pending = (e.broker.on_market call.instrument call.state call.now).2.pending := by
      rw [Engine.book_fills_broker hbook, hbroker]
    have homs : e'.oms = applyAll e.oms fs := by
      rw [Engine.book_fills_oms hbook, hmatches.oms_eq]
    rw [hdispatched]
    refine ⟨⟨fun id hknown => ?_, fun id => ?_, fun id => ?_, ?_, hmatched.order_of_fill⟩, fun id hlive => ?_⟩
    · rw [Engine.Known, homs]
      exact known_applyAll haccepts hknown
    · rw [Engine.filledOf, homs]
      exact filled_applyAll haccepts id
    · rw [hpending]
      exact hmatched.resting_le hagreed.withinOrders id
    · rw [hpending]
      exact hmatched.order_of_rest
    · rw [Engine.Live, hpending]
      rcases hmatched.fate id hlive with hrests | hfilled | hdropped
      · exact .inl hrests
      · exact .inr (.inl hfilled)
      · obtain ⟨v, hv, hid, hdecision⟩ := hdropped
        refine .inr (.inr ?_)
        simp only [Engine.killsOf, hcall]
        exact List.mem_filterMap.mpr ⟨v, hv, by rw [hdecision, hid]⟩
  · rw [Engine.fillsOf_none hnone]
    refine ⟨.of_same (by rw [hbroker]) fun id => by rw [hmatches.oms_eq], fun id hlive => .inl ?_⟩
    rw [Engine.Live, hbroker]
    exact hlive

theorem Engine.settle_shrinks {e e' : Engine R} {ev : MarketEvent} (hsettle : e.settle ev = .ok e') :
    e.Shrinks e' [] := by
  have hsettles := Engine.settle_settles hsettle
  exact .of_same (by rw [hsettles.broker_eq]) fun id => by rw [hsettles.oms_eq]

end ptl.engine

/-! What handing over one order does to the exposure on its way and to the
counter of ids. -/

namespace ptl.engine

variable {R : Type} {e : Engine R} {order : Order} {bound : Nat}

@[simp] theorem Engine.submit_pf (e : Engine R) (order : Order) : (e.submit order).2.pf = e.pf := by
  obtain ⟨-, heq⟩ | ⟨-, -, heq⟩ | ⟨-, -, _, -, heq⟩ | ⟨-, -, _, -, heq⟩ := e.submit_cases order
  · rw [heq, Engine.turnedDown]
  · rw [heq]
  · rw [heq]
  · rw [heq, Engine.accepted]

/-- An order that the venue takes adds its signed quantity to what is on its
way. -/
theorem Engine.submit_exposure {id : OrderId} (hok : (e.submit order).1 = .ok id) (i : InstrumentId) :
    (e.submit order).2.oms.exposure_of i =
      e.oms.exposure_of i + if order.instrument = i then order.signed_quantity else 0 := by
  have hanswer := e.submit_answer order
  rw [hok] at hanswer
  obtain ⟨hturned, heq⟩ | ⟨happroved, ⟨err, hrefused⟩, heq⟩ | ⟨happroved, hnew, err, herror, heq⟩ |
    ⟨happroved, hnew, arrival, -, heq⟩ := e.submit_cases order
  · rw [if_pos (by simp [hturned])] at hanswer
    cases hanswer
  · rw [if_neg (by simp [happroved]), hrefused] at hanswer
    cases hanswer
  · rw [if_neg (by simp [happroved]), hnew] at hanswer
    simp only [herror] at hanswer
    cases hanswer
  · have hfresh := OrderManager.fresh_of_submitError hnew
    have hentered : ∀ id : OrderId, (((e.oms.submit (e.priced order)).2.transition (e.priced order).id
        .PendingNew).2.transition (e.priced order).id .Working).2.records[id]? =
        (e.oms.records.insert (e.priced order).id { order := e.priced order, state := .Working })[id]? := by
      intro id
      rw [OrderManager.working_lookup hnew, Table.getElem?_insert_eq_ite]
    have hadds : OrderRecord.exposure { order := e.priced order, state := .Working } i =
        if order.instrument = i then order.signed_quantity else 0 := by
      obtain ⟨price, hpriced⟩ := e.priced_eq order
      rw [hpriced]
      by_cases hi : order.instrument = i
      · simp [OrderRecord.exposure, OrderRecord.remaining, Order.signed_quantity, is_terminal, hi]
      · simp [OrderRecord.exposure, hi]
    rw [heq, Engine.accepted, OrderManager.exposure_of_eq_sum, OrderManager.exposure_of_eq_sum]
    dsimp only
    rw [Table.sum_eq_of_lookup _ hentered, Table.sum_insert_new _ _ hfresh, hadds]

/-- The next id is not zero, and no more than a bound. -/
structure Engine.Below (e : Engine R) (bound : Nat) : Prop where
  positive : 0 < e.oms.next.toNat
  below : e.oms.next.toNat ≤ bound

@[simp] theorem OrderManager.transition_next (m : OrderManager) (id : OrderId) (target : OrderState)
    (reason : String) : (m.transition id target reason).2.next = m.next := by
  unfold OrderManager.transition
  split
  · rfl
  · split <;> rfl

theorem OrderManager.submit_next (m : OrderManager) (order : Order) (hid : order.id.toNat < 2 ^ 64 - 1) :
    (m.submit order).2.next.toNat = m.next.toNat ∨
      (m.submit order).2.next.toNat = max m.next.toNat (order.id.toNat + 1) := by
  have hsucc : (order.id + 1).toNat = order.id.toNat + 1 := by
    rw [UInt64.toNat_add, UInt64.toNat_one, Nat.mod_eq_of_lt (by omega)]
  unfold OrderManager.submit
  split
  · exact .inl rfl
  · refine .inr ?_
    dsimp only
    change (if m.next ≤ order.id + 1 then order.id + 1 else m.next).toNat = _
    rw [← hsucc]
    split
    · rename_i hle
      rw [max_eq_right (UInt64.le_iff_toNat_le.mp hle)]
    · rename_i hle
      rw [UInt64.le_iff_toNat_le, not_le] at hle
      rw [max_eq_left hle.le]

/-- An order under an id below the bound keeps the next id within it. -/
theorem Engine.Below.submit (hbelow : e.Below bound) (hid : order.id.toNat < bound) (hbound : bound < 2 ^ 64) :
    (e.submit order).2.Below bound := by
  obtain ⟨hpositive, hwithin⟩ := hbelow
  have hentered : 0 < (e.oms.submit (e.priced order)).2.next.toNat ∧
      (e.oms.submit (e.priced order)).2.next.toNat ≤ bound := by
    have hpriced : (e.priced order).id.toNat = order.id.toNat := by rw [e.priced_id]
    have hnext := OrderManager.submit_next e.oms (e.priced order) (by omega)
    omega
  obtain ⟨-, heq⟩ | ⟨-, -, heq⟩ | ⟨-, -, _, -, heq⟩ | ⟨-, -, _, -, heq⟩ := e.submit_cases order
  · rw [heq]
    exact ⟨hpositive, hwithin⟩
  · rw [heq]
    exact ⟨hpositive, hwithin⟩
  · rw [heq]
    exact ⟨by simpa using hentered.1, by simpa using hentered.2⟩
  · rw [heq]
    exact ⟨by simpa [Engine.accepted] using hentered.1, by simpa [Engine.accepted] using hentered.2⟩

/-- An id is taken off the counter, which moves on by one. -/
theorem Engine.Below.next_order_id (hbelow : e.Below bound) (hbound : bound + 1 < 2 ^ 64) :
    e.next_order_id.1 ≠ kNoOrder ∧ e.next_order_id.1.toNat < bound + 1 ∧ e.next_order_id.2.Below (bound + 1) := by
  obtain ⟨hpositive, hwithin⟩ := hbelow
  have hid : e.next_order_id.1.toNat = e.oms.next.toNat := rfl
  have hsucc : e.next_order_id.2.oms.next.toNat = e.oms.next.toNat + 1 := by
    change (e.oms.next + 1).toNat = _
    rw [UInt64.toNat_add, UInt64.toNat_one, Nat.mod_eq_of_lt (by omega)]
  refine ⟨fun hzero => ?_, by omega, by omega, by omega⟩
  rw [hzero] at hid
  have hnone : kNoOrder.toNat = 0 := rfl
  omega

end ptl.engine
