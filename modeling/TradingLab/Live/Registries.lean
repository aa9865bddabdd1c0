import TradingLab.Engine.Moves
import TradingLab.Live.Broker
import TradingLab.Machine
import TradingLab.TableSum

open ptl.oms ptl.portfolio ptl.execution
open Std (TreeMap)

namespace ptl.live

/-! ### The listener's table -/

theorem LiveOrderListener.resolve_forget (l : LiveOrderListener) (c c' : String) :
    (l.forget c).resolve c' = if c = c' then none else l.resolve c' := by
  simp [LiveOrderListener.forget, LiveOrderListener.resolve, TreeMap.getElem?_erase]

/-- A client id that is not tracked yet can be tracked. -/
theorem LiveOrderListener.track_new {l : LiveOrderListener} {c : String} {id : OrderId}
    (hnamed : c ≠ "") (hid : id ≠ kNoOrder) (hfree : l.resolve c = none) :
    (l.track c id).1 = .ok true ∧
      ∀ c', (l.track c id).2.resolve c' = if c = c' then some id else l.resolve c' := by
  have hlookup : l.by_client_id[c]? = none := hfree
  have htrack : l.track c id = (.ok true, { by_client_id := l.by_client_id.insert c id }) := by
    rw [LiveOrderListener.track, if_neg hnamed, if_neg hid, hlookup]
  rw [htrack]
  exact ⟨rfl, fun c' => Table.getElem?_insert_eq_ite _ _ _ _⟩

/-- An update about an order is about the one its client id resolves to. -/
theorem LiveOrderListener.interpret_ok {l : LiveOrderListener} {m : BrokerMessage} {u : OrderUpdate}
    (hinterpret : l.interpret m = .ok u) :
    u.kind = updateKind m.kind ∧
      (u.kind ≠ .Ignored → l.resolve m.client_order_id = some u.order_id) := by
  unfold LiveOrderListener.interpret at hinterpret
  dsimp only at hinterpret
  split at hinterpret
  · rename_i hignored
    cases hinterpret
    exact ⟨rfl, fun hkind => absurd hignored hkind⟩
  · split at hinterpret
    · cases hinterpret
    · rename_i id hresolve
      split at hinterpret
      · split at hinterpret
        · cases hinterpret
        · split at hinterpret
          · cases hinterpret
          · cases hinterpret
            exact ⟨rfl, fun _ => hresolve⟩
      · cases hinterpret
        exact ⟨rfl, fun _ => hresolve⟩

variable {R T : Type} (transport : ILiveTransport T) (translator : IOrderTranslator)
  (num : Rat → String)

/-! ### What a message does to the registries -/

/-- The same orders in all three registries. -/
structure LiveBroker.SameOrders (b b' : LiveBroker R T) : Prop where
  working_eq : b'.working = b.working
  listener_eq : b'.listener = b.listener
  pending_eq : b'.simulator.pending = b.simulator.pending

/-- A fill message that the simulator books on the order `p`. -/
structure LiveBroker.Ingests (b : LiveBroker R T) (m : BrokerMessage) (u : OrderUpdate)
    (p : PendingOrder) (f : Fill) : Prop where
  interpreted : b.listener.interpret m = .ok u
  fills : u.is_fill = true
  working : b.simulator.working u.order_id = some p
  booked : externalFill p (b.report u) = .ok f

/-- What a booked fill leaves in the registries. -/
structure LiveBroker.Filled (b : LiveBroker R T) (u : OrderUpdate) (b' : LiveBroker R T) : Prop where
  pending_eq : b'.simulator.pending =
    updateFirst u.order_id (PendingOrder.after_external · u.filled_quantity) b.simulator.pending
  working_eq : b'.working = if u.kind = .Filled then b.working.erase u.order_id else b.working
  listener_eq : b'.listener =
    if u.kind = .Filled then b.listener.forget (translator.client_order_id u.order_id) else b.listener

theorem LiveBroker.ingest_cases (b : LiveBroker R T) (u : OrderUpdate) :
    (∃ e, (b.ingest translator u).1 = .error e) ∧ b.SameOrders (b.ingest translator u).2 ∨
    ∃ p f, b.simulator.working u.order_id = some p ∧ externalFill p (b.report u) = .ok f ∧
      (b.ingest translator u).1 = .ok (some f) ∧ b.Filled translator u (b.ingest translator u).2 := by
  unfold LiveBroker.ingest
  rcases b.simulator.ingest_cases (b.report u) with
    ⟨e, hrefused⟩ | ⟨p, f, hworking, hbooked, hok, hpending⟩
  · rw [hrefused]
    exact .inl ⟨⟨e, rfl⟩, rfl, rfl, rfl⟩
  · revert hok hpending
    rcases b.simulator.ingest_external_fill (b.report u) with ⟨result, simulator⟩
    rintro rfl hpending
    refine .inr ⟨p, f, hworking, hbooked, rfl, ?_⟩
    by_cases hkind : u.kind = .Filled
    · simp only [hkind, if_true]
      exact ⟨hpending, by rw [if_pos hkind]; rfl, by rw [if_pos hkind]; rfl⟩
    · simp only [hkind, if_false]
      exact ⟨hpending, by rw [if_neg hkind], by rw [if_neg hkind]⟩

/-- The ways a message changes the registries: not at all, by withdrawing an
order from all three, or by a fill. -/
theorem LiveBroker.apply_cases (b : LiveBroker R T) (m : BrokerMessage) :
    b.SameOrders (b.apply translator m).2 ∨
    (∃ id, b.listener.resolve m.client_order_id = some id ∧
      (b.apply translator m).2.working = b.working.erase id ∧
      (b.apply translator m).2.listener = b.listener.forget (translator.client_order_id id) ∧
      (b.apply translator m).2.simulator.pending = (b.simulator.cancel id).2.pending) ∨
    ∃ u p f, b.Ingests m u p f ∧ b.Filled translator u (b.apply translator m).2 := by
  unfold LiveBroker.apply
  split
  · exact .inl ⟨rfl, rfl, rfl⟩
  · cases hinterpret : b.listener.interpret m with
    | error e => exact .inl ⟨rfl, rfl, rfl⟩
    | ok u =>
      obtain ⟨-, hresolve⟩ := LiveOrderListener.interpret_ok hinterpret
      have hingest : u.is_fill = true → b.SameOrders (b.ingest translator u).2 ∨
          ∃ u' p f, b.Ingests m u' p f ∧ b.Filled translator u' (b.ingest translator u).2 := by
        intro hfills
        rcases b.ingest_cases translator u with ⟨-, hsame⟩ | ⟨p, f, hworking, hbooked, -, hfilled⟩
        · exact .inl hsame
        · exact .inr ⟨u, p, f, ⟨hinterpret, hfills, hworking, hbooked⟩, hfilled⟩
      cases hkind : u.kind with
      | Ignored => exact .inl (by simp only [hkind]; exact ⟨rfl, rfl, rfl⟩)
      | Accepted => exact .inl (by simp only [hkind]; split <;> exact ⟨rfl, rfl, rfl⟩)
      | Replaced => exact .inl (by simp only [hkind]; split <;> exact ⟨rfl, rfl, rfl⟩)
      | Cancelled =>
        exact .inr (.inl ⟨u.order_id, hresolve (by simp [hkind]), by simp only [hkind]; rfl,
          by simp only [hkind]; rfl, by simp only [hkind]⟩)
      | Rejected =>
        exact .inr (.inl ⟨u.order_id, hresolve (by simp [hkind]), by simp only [hkind]; rfl,
          by simp only [hkind]; rfl, by simp only [hkind]⟩)
      | PartiallyFilled =>
        simp only [hkind]
        exact (hingest (by simp [OrderUpdate.is_fill, hkind])).imp_right .inr
      | Filled =>
        simp only [hkind]
        exact (hingest (by simp [OrderUpdate.is_fill, hkind])).imp_right .inr

/-! ### What a submission does to the registries -/

/-- The request of an order that gets as far as the simulator's list. -/
def LiveBroker.admitted (b : LiveBroker R T) (order : Order) : Option EncodedRequest :=
  if (b.simulator.submit b.clock order).1.toOption.isSome then
    (b.screen translator num order).toOption
  else none

/-- The ways a submission changes the registries. -/
theorem LiveBroker.submit_cases (b : LiveBroker R T) (order : Order) :
    b.SameOrders (b.submit transport translator num order).2 ∨
    ∃ encoded, b.admitted translator num order = some encoded ∧
      (((∃ e, (b.listener.track encoded.client_order_id order.id).1 = .error e) ∧
        (b.submit transport translator num order).2.working = b.working ∧
        (b.submit transport translator num order).2.listener =
          (b.listener.track encoded.client_order_id order.id).2 ∧
        (b.submit transport translator num order).2.simulator.pending =
          (b.simulator.submit b.clock order).2.pending) ∨
      ((b.submit transport translator num order).2.working = b.working ∧
        (b.submit transport translator num order).2.listener =
          (b.listener.track encoded.client_order_id order.id).2.forget encoded.client_order_id ∧
        (b.submit transport translator num order).2.simulator.pending =
          ((b.simulator.submit b.clock order).2.cancel order.id).2.pending) ∨
      ((∃ done, (b.listener.track encoded.client_order_id order.id).1 = .ok done) ∧
        (b.submit transport translator num order).2.working = b.working.insert order.id true ∧
        (b.submit transport translator num order).2.listener =
          (b.listener.track encoded.client_order_id order.id).2 ∧
        (b.submit transport translator num order).2.simulator.pending =
          (b.simulator.submit b.clock order).2.pending)) := by
  unfold LiveBroker.submit
  dsimp only
  have hscreen : { b with
      stats := { b.stats with submitted := b.stats.submitted + 1 } }.screen translator num order =
        b.screen translator num order := rfl
  rw [hscreen]
  cases hscreened : b.screen translator num order with
  | error e => exact .inl ⟨rfl, rfl, rfl⟩
  | ok encoded =>
    cases hsubmit : b.simulator.submit b.clock order with
    | mk result simulator =>
      cases result with
      | error e =>
        have herror : (b.simulator.submit b.clock order).1 = .error e := by rw [hsubmit]
        have hpending := BrokerSimulator.submit_error herror
        rw [hsubmit] at hpending
        exact .inl ⟨rfl, rfl, hpending⟩
      | ok arrival =>
        refine .inr ⟨encoded, by simp [LiveBroker.admitted, hsubmit, hscreened, Except.toOption], ?_⟩
        dsimp only
        cases htrack : b.listener.track encoded.client_order_id order.id with
        | mk tracked listener =>
          cases tracked with
          | error e => exact .inl ⟨⟨e, rfl⟩, rfl, rfl, rfl⟩
          | ok done =>
            dsimp only
            cases hsend : b.connection.send transport b.transport encoded.payload with
            | mk sent t =>
              cases sent with
              | error e => exact .inr (.inl ⟨rfl, rfl, rfl⟩)
              | ok sent => exact .inr (.inr ⟨⟨done, rfl⟩, rfl, rfl, rfl⟩)

variable {translator num} in
theorem LiveBroker.admitted_pending {b : LiveBroker R T} {order : Order} {encoded : EncodedRequest}
    (hadmitted : b.admitted translator num order = some encoded) :
    ∃ stamped : PendingOrder, stamped.order.id = order.id ∧
      (b.simulator.submit b.clock order).2.pending = b.simulator.pending ++ [stamped] := by
  unfold LiveBroker.admitted at hadmitted
  split at hadmitted
  · rename_i htaken
    obtain ⟨arrival, harrival⟩ := Option.isSome_iff_exists.mp htaken
    obtain ⟨stamped, hstamped, -, hpending⟩ :=
      BrokerSimulator.submit_ok (Result.toOption_eq_some.mp harrival)
    exact ⟨_, (Order.with_arrival_ok hstamped).1, hpending⟩
  · cases hadmitted

/-! ### The broker between two calls -/

/-- The calls on the broker, and what happens elsewhere between two of them: the
    clock runs, the connection is lost and made again, the venue speaks. -/
inductive BrokerMove (T : Type) where
  | submit (order : Order)
  | cancel (id : OrderId)
  | replace (amended : Order)
  | poll
  | elsewhere (clock : Timestamp) (connection : LiveConnection) (t : T)

/-- The broker once a poll has drained the connection. -/
def LiveBroker.drained (b : LiveBroker R T) : LiveBroker R T :=
  { b with
    connection := (b.connection.poll transport b.transport b.clock).2.1
    transport := (b.connection.poll transport b.transport b.clock).2.2 }

def LiveBroker.batch (b : LiveBroker R T) : List BrokerMessage :=
  (b.connection.poll transport b.transport b.clock).1

theorem LiveBroker.poll_eq (b : LiveBroker R T) :
    b.poll transport translator = (b.drained transport).applyAll translator (b.batch transport) := rfl

def LiveBroker.step (b : LiveBroker R T) : BrokerMove T → LiveBroker R T
  | .submit order => (b.submit transport translator num order).2
  | .cancel id => (b.cancel transport translator id).2
  | .replace amended => (b.replace transport translator amended).2
  | .poll => (b.poll transport translator).2
  | .elsewhere clock connection t => { b with clock, connection, transport := t }

/-- Every sequence of calls on a broker that starts with no order anywhere. -/
def brokerMachine : Machine (LiveBroker R T) (BrokerMove T) where
  Init b := b.working = ∅ ∧ b.listener = {} ∧ b.simulator.pending = []
  step b l := some (b.step transport translator num l)

/-- The messages of a batch all meet a condition when their turn comes. -/
def LiveBroker.Every (P : LiveBroker R T → BrokerMessage → Prop) :
    LiveBroker R T → List BrokerMessage → Prop
  | _, [] => True
  | b, m :: rest =>
    P b m ∧ ((b.apply translator m).1.toOption.isSome = true →
      LiveBroker.Every P (b.apply translator m).2 rest)

/-! ### The registries agree -/

/-- An order is worked if and only if its client id is tracked, and if and only
    if the simulator holds it as pending. -/
structure LiveBroker.RegistriesAgree (b : LiveBroker R T) : Prop where
  tracked : ∀ id, id ∈ b.working ↔ b.listener.resolve (translator.client_order_id id) = some id
  pending : ∀ id, id ∈ b.working ↔ id ∈ idsOf b.simulator.pending

/-- An order that gets as far as the simulator's list is not on it yet, and the
    listener can track it under the client id of its own. -/
def LiveBroker.Fits (b : LiveBroker R T) (order : Order) : Prop :=
  ∀ encoded ∈ b.admitted translator num order,
    order.id ∉ idsOf b.simulator.pending ∧
      encoded.client_order_id = translator.client_order_id order.id ∧
      encoded.client_order_id ≠ "" ∧ b.listener.resolve encoded.client_order_id = none

/-- A fill that the simulator would book is called a complete fill exactly when
    it completes the order. -/
def LiveBroker.Completes (b : LiveBroker R T) (m : BrokerMessage) : Prop :=
  ∀ u ∈ (b.listener.interpret m).toOption, u.is_fill = true →
    ∀ p ∈ b.simulator.working u.order_id,
      (externalFill p (b.report u)).toOption.isSome = true →
        (p.completedBy u.filled_quantity = true ↔ u.kind = .Filled)

def LiveBroker.Regular (b : LiveBroker R T) : BrokerMove T → Prop
  | .submit order => b.Fits translator num order
  | .poll => (b.drained transport).Every translator LiveBroker.Completes (b.batch transport)
  | _ => True

/-- The agreement with what carries it: no id is pending twice, and what is
tracked is tracked under its own client id. -/
structure LiveBroker.Registered (b : LiveBroker R T) : Prop extends b.RegistriesAgree translator where
  distinct : (idsOf b.simulator.pending).Nodup
  named : ∀ c id, b.listener.resolve c = some id → c = translator.client_order_id id

variable {transport translator num}

/-- Only the ids matter. -/
theorem LiveBroker.Registered.of_ids {b b' : LiveBroker R T} (hregistered : b.Registered translator)
    (hworking : b'.working = b.working) (hlistener : b'.listener = b.listener)
    (hids : idsOf b'.simulator.pending = idsOf b.simulator.pending) : b'.Registered translator := by
  refine ⟨⟨?_, ?_⟩, ?_, ?_⟩
  · rw [hworking, hlistener]; exact hregistered.tracked
  · rw [hworking, hids]; exact hregistered.pending
  · rw [hids]; exact hregistered.distinct
  · rw [hlistener]; exact hregistered.named

theorem LiveBroker.Registered.congr {b b' : LiveBroker R T} (hregistered : b.Registered translator)
    (hsame : b.SameOrders b') : b'.Registered translator :=
  hregistered.of_ids hsame.working_eq hsame.listener_eq (congrArg idsOf hsame.pending_eq)

/-- An order that leaves all three registries leaves them in agreement. -/
theorem LiveBroker.Registered.withdraw {b b' : LiveBroker R T} (hregistered : b.Registered translator)
    {id : OrderId} (hworking : b'.working = b.working.erase id)
    (hlistener : b'.listener = b.listener.forget (translator.client_order_id id))
    (hdistinct : (idsOf b'.simulator.pending).Nodup)
    (hpending : ∀ id', id' ∈ idsOf b'.simulator.pending ↔ id' ∈ idsOf b.simulator.pending ∧ id' ≠ id)
    (htracked : b.listener.resolve (translator.client_order_id id) = some id) :
    b'.Registered translator := by
  have hmem : ∀ id', id' ∈ b'.working ↔ id' ∈ b.working ∧ id' ≠ id := by
    intro id'
    rw [hworking, Table.mem_erase_iff]
  refine ⟨⟨fun id' => ?_, fun id' => ?_⟩, hdistinct, fun c id' hresolve => ?_⟩
  · rw [hmem, hregistered.tracked id', hlistener, LiveOrderListener.resolve_forget]
    by_cases hname : translator.client_order_id id = translator.client_order_id id'
    · rw [if_pos hname, ← hname, htracked]
      simp [eq_comm]
    · rw [if_neg hname]
      exact and_iff_left fun heq => hname (by rw [heq])
  · rw [hmem, hpending, hregistered.pending id']
  · rw [hlistener, LiveOrderListener.resolve_forget] at hresolve
    split at hresolve
    · cases hresolve
    · exact hregistered.named c id' hresolve

/-- The simulator's cancellation takes an id off its list. -/
theorem BrokerSimulator.mem_idsOf_cancel {b : BrokerSimulator R} (hdistinct : (idsOf b.pending).Nodup)
    (id id' : OrderId) :
    id' ∈ idsOf (b.cancel id).2.pending ↔ id' ∈ idsOf b.pending ∧ id' ≠ id := by
  unfold BrokerSimulator.cancel
  split
  · exact mem_idsOf_eraseP hdistinct id id'
  · rename_i hnone
    refine (and_iff_left_of_imp fun hmem heq => hnone ?_).symm
    simpa [idsOf, heq] using hmem

theorem BrokerSimulator.nodup_idsOf_cancel {b : BrokerSimulator R}
    (hdistinct : (idsOf b.pending).Nodup) (id : OrderId) : (idsOf (b.cancel id).2.pending).Nodup := by
  unfold BrokerSimulator.cancel
  split
  · exact nodup_idsOf_eraseP hdistinct id
  · exact hdistinct

/-- What a submission that fits does: the order is in no registry or in all
three. -/
theorem LiveBroker.Registered.submit {b : LiveBroker R T} (hregistered : b.Registered translator)
    {order : Order} (hfits : b.Fits translator num order) :
    (b.submit transport translator num order).2.Registered translator := by
  rcases b.submit_cases transport translator num order with hsame | ⟨encoded, hadmitted, hends⟩
  · exact hregistered.congr hsame
  obtain ⟨hfresh, hname, hnamed, hfree⟩ := hfits encoded hadmitted
  obtain ⟨htrack, hresolve⟩ := LiveOrderListener.track_new hnamed order.id_valid hfree
  obtain ⟨stamped, hid, happended⟩ := LiveBroker.admitted_pending hadmitted
  have hids : idsOf (b.simulator.submit b.clock order).2.pending =
      idsOf b.simulator.pending ++ [order.id] := by
    rw [happended]
    simp [idsOf, hid]
  have hdistinct : (idsOf (b.simulator.submit b.clock order).2.pending).Nodup := by
    rw [hids]
    exact hregistered.distinct.append (List.nodup_singleton _) (by simpa using hfresh)
  rcases hends with ⟨⟨e, hrefused⟩, -⟩ | ⟨hworking, hlistener, hpending⟩ |
      ⟨-, hworking, hlistener, hpending⟩
  · rw [htrack] at hrefused
    cases hrefused
  · -- The venue never saw the order, which leaves every registry as it was.
    have hforgot : ∀ c, (b.submit transport translator num order).2.listener.resolve c =
        b.listener.resolve c := by
      intro c
      rw [hlistener, LiveOrderListener.resolve_forget, hresolve]
      by_cases hc : encoded.client_order_id = c
      · rw [if_pos hc, ← hc, hfree]
      · rw [if_neg hc, if_neg hc]
    have hmem : ∀ id, id ∈ idsOf ((b.simulator.submit b.clock order).2.cancel order.id).2.pending ↔
        id ∈ idsOf b.simulator.pending := by
      intro id
      rw [BrokerSimulator.mem_idsOf_cancel hdistinct, hids, List.mem_append, List.mem_singleton,
        or_and_right]
      constructor
      · rintro (⟨hmem, -⟩ | ⟨heq, hne⟩)
        · exact hmem
        · exact absurd heq hne
      · exact fun hmem => .inl ⟨hmem, fun heq => hfresh (heq ▸ hmem)⟩
    refine ⟨⟨fun id => ?_, fun id => ?_⟩, ?_, fun c id => ?_⟩
    · rw [hworking, hforgot]; exact hregistered.tracked id
    · rw [hworking, hpending, hmem]; exact hregistered.pending id
    · rw [hpending]; exact BrokerSimulator.nodup_idsOf_cancel hdistinct _
    · rw [hforgot]; exact hregistered.named c id
  · have hmem : ∀ id, id ∈ (b.submit transport translator num order).2.working ↔
        id = order.id ∨ id ∈ b.working := by
      intro id
      rw [hworking, Table.mem_insert_iff]
    refine ⟨⟨fun id => ?_, fun id => ?_⟩, ?_, fun c id htracked => ?_⟩
    · rw [hmem, hlistener, hresolve, hregistered.tracked id]
      by_cases hc : encoded.client_order_id = translator.client_order_id id
      · rw [if_pos hc, ← hc, hfree]
        simp [eq_comm]
      · rw [if_neg hc]
        exact or_iff_right fun heq => hc (by rw [hname, heq])
    · rw [hmem, hpending, hids, hregistered.pending id, List.mem_append, List.mem_singleton,
        or_comm]
    · rw [hpending]; exact hdistinct
    · rw [hlistener, hresolve] at htracked
      split at htracked
      · rename_i hc
        cases htracked
        rw [← hc, hname]
      · exact hregistered.named c id htracked

theorem LiveBroker.Registered.apply {b : LiveBroker R T} (hregistered : b.Registered translator)
    {m : BrokerMessage} (hcompletes : b.Completes m) :
    (b.apply translator m).2.Registered translator := by
  rcases b.apply_cases translator m with
    hsame | ⟨id, hresolve, hworking, hlistener, hpending⟩ | ⟨u, p, f, hingests, hfilled⟩
  · exact hregistered.congr hsame
  · have htracked : b.listener.resolve (translator.client_order_id id) = some id := by
      rw [← hregistered.named _ _ hresolve]
      exact hresolve
    refine hregistered.withdraw hworking hlistener ?_ ?_ htracked
    · rw [hpending]; exact BrokerSimulator.nodup_idsOf_cancel hregistered.distinct id
    · rw [hpending]; exact BrokerSimulator.mem_idsOf_cancel hregistered.distinct id
  · obtain ⟨hinterpret, hisfill, hfound, hbooked⟩ := hingests
    obtain ⟨hpending, hworking, hlistener⟩ := hfilled
    have hids := @BrokerSimulator.idsOf_ingest _ _ (b.report u) _ hfound
    have hcomplete : p.completedBy u.filled_quantity = true ↔ u.kind = .Filled :=
      hcompletes u (by simp [hinterpret, Except.toOption]) hisfill p hfound
        (by simp [hbooked, Except.toOption])
    by_cases hkind : u.kind = .Filled
    · have hleft : idsOf (b.apply translator m).2.simulator.pending =
          idsOf (b.simulator.pending.eraseP fun p => p.order.id = u.order_id) := by
        rw [hpending]
        exact hids.trans (if_pos (hcomplete.mpr hkind))
      have htracked : b.listener.resolve (translator.client_order_id u.order_id) = some u.order_id := by
        have hresolve := (LiveOrderListener.interpret_ok hinterpret).2 (by simp [hkind])
        rw [← hregistered.named _ _ hresolve]
        exact hresolve
      rw [if_pos hkind] at hworking hlistener
      refine hregistered.withdraw hworking hlistener ?_ ?_ htracked
      · rw [hleft]; exact nodup_idsOf_eraseP hregistered.distinct _
      · rw [hleft]; exact mem_idsOf_eraseP hregistered.distinct _
    · rw [if_neg hkind] at hworking hlistener
      refine hregistered.of_ids hworking hlistener ?_
      rw [hpending]
      exact hids.trans (if_neg fun hdone => hkind (hcomplete.mp hdone))

theorem LiveBroker.Registered.applyAll {b : LiveBroker R T} {batch : List BrokerMessage}
    (hregistered : b.Registered translator) (hevery : b.Every translator LiveBroker.Completes batch) :
    (b.applyAll translator batch).2.Registered translator := by
  induction batch generalizing b with
  | nil => exact hregistered
  | cons m rest ih =>
    obtain ⟨hcompletes, hrest⟩ := hevery
    have hnext := hregistered.apply hcompletes
    simp only [LiveBroker.applyAll]
    revert hrest hnext
    rcases b.apply translator m with ⟨result, b'⟩
    intro hrest hnext
    cases result with
    | error e => exact hnext
    | ok fill => exact ih hnext (hrest rfl)

/-- A request that is only sent changes no registry. -/
theorem LiveBroker.cancel_same (b : LiveBroker R T) (id : OrderId) :
    b.SameOrders (b.cancel transport translator id).2 := by
  unfold LiveBroker.cancel
  split
  · exact ⟨rfl, rfl, rfl⟩
  · split <;> exact ⟨rfl, rfl, rfl⟩

theorem LiveBroker.replace_same (b : LiveBroker R T) (amended : Order) :
    b.SameOrders (b.replace transport translator amended).2 := by
  unfold LiveBroker.replace
  split
  · exact ⟨rfl, rfl, rfl⟩
  · split <;> exact ⟨rfl, rfl, rfl⟩

theorem LiveBroker.Registered.step {b : LiveBroker R T} (hregistered : b.Registered translator)
    {l : BrokerMove T} (hregular : b.Regular transport translator num l) :
    (b.step transport translator num l).Registered translator := by
  cases l with
  | submit order => exact hregistered.submit hregular
  | cancel id => exact hregistered.congr (b.cancel_same id)
  | replace amended => exact hregistered.congr (b.replace_same amended)
  | poll =>
    have hdrained : (b.drained transport).Registered translator := hregistered.congr ⟨rfl, rfl, rfl⟩
    exact hdrained.applyAll hregular
  | elsewhere clock connection t => exact hregistered.congr ⟨rfl, rfl, rfl⟩

/-- In every run in which no order is submitted while it is pending, each can be
tracked, and fills are called complete exactly when they are, the three
registries hold the same orders. -/
theorem brokerMachine_registries_agree {b : LiveBroker R T}
    (hreach : (brokerMachine transport translator num).Reaches
      (LiveBroker.Regular transport translator num) b) : b.RegistriesAgree translator := by
  refine LiveBroker.Registered.toRegistriesAgree (hreach.invariant ?_ ?_)
  · rintro b ⟨hworking, hlistener, hpending⟩
    refine ⟨⟨fun id => ?_, fun id => ?_⟩, ?_, fun c id htracked => ?_⟩
    · rw [hworking, hlistener]
      simp [LiveOrderListener.resolve]
    · rw [hworking, hpending]
      simp [idsOf]
    · rw [hpending]
      exact List.nodup_nil
    · rw [hlistener] at htracked
      simp [LiveOrderListener.resolve] at htracked
  · intro b l b' _ hregistered hregular hstep
    cases hstep
    exact hregistered.step hregular

/-! ### Concrete runs -/

instance (b : LiveBroker R T) (order : Order) : Decidable (b.Fits translator num order) :=
  inferInstanceAs (Decidable (∀ encoded ∈ b.admitted translator num order,
    order.id ∉ idsOf b.simulator.pending ∧
      encoded.client_order_id = translator.client_order_id order.id ∧
      encoded.client_order_id ≠ "" ∧ b.listener.resolve encoded.client_order_id = none))

instance (b : LiveBroker R T) (m : BrokerMessage) : Decidable (b.Completes m) :=
  inferInstanceAs (Decidable (∀ u ∈ (b.listener.interpret m).toOption, u.is_fill = true →
    ∀ p ∈ b.simulator.working u.order_id, (externalFill p (b.report u)).toOption.isSome = true →
      (p.completedBy u.filled_quantity = true ↔ u.kind = .Filled)))

instance decidableBrokerEvery (P : LiveBroker R T → BrokerMessage → Prop)
    [hdecidable : ∀ b m, Decidable (P b m)] :
    (b : LiveBroker R T) → (batch : List BrokerMessage) → Decidable (b.Every translator P batch)
  | _, [] => isTrue trivial
  | b, m :: rest =>
    have := decidableBrokerEvery P (b.apply translator m).2 rest
    inferInstanceAs (Decidable (P b m ∧ ((b.apply translator m).1.toOption.isSome = true →
      LiveBroker.Every translator P (b.apply translator m).2 rest)))

instance (b : LiveBroker R T) (l : BrokerMove T) :
    Decidable (b.Regular transport translator num l) :=
  match l with
  | .submit order => inferInstanceAs (Decidable (b.Fits translator num order))
  | .poll => inferInstanceAs (Decidable
      ((b.drained transport).Every translator LiveBroker.Completes (b.batch transport)))
  | .cancel _ | .replace _ | .elsewhere _ _ _ => inferInstanceAs (Decidable True)

def sampleTranslator : IOrderTranslator :=
  AlpacaOrderTranslator (fun _ => "10") {} (some fun _ => "ABC")

abbrev SampleBroker := LiveBroker Unit ScriptedTransport

/-- A broker whose connection has opened and been synchronised. -/
def readyBroker : SampleBroker where
  clock := 0
  connection := (LiveConnection.connect scripted {} {} 0).2.1.mark_synchronized.2
  transport := (LiveConnection.connect scripted {} {} 0).2.2
  simulator := {
    costs := flatCosts, latency := flatLatency, latency_rng := (), slippage_rng := (), fill_cfg := {} }
  portfolio := Portfolio.new {}

theorem readyBroker_reaches {G : SampleBroker → BrokerMove ScriptedTransport → Prop} :
    (brokerMachine scripted sampleTranslator fun _ => "").Reaches G readyBroker :=
  .init ⟨rfl, rfl, rfl⟩

/-- The venue says something about the first order, and the broker polls. -/
def say (m : BrokerMessage) : List (BrokerMove ScriptedTransport) :=
  [.elsewhere 10000000 readyBroker.connection { opened := true, inbound := [m] }, .poll]

def partFill (quantity : Qty) : BrokerMessage :=
  { kind := .PartialFill, venue_time := 5000000, client_order_id := "ptl-1", quantity, price := 100 }

theorem brokerMachine_registries_agree_filled :
    ∃ b : SampleBroker, b.stats.fills_ingested = 2 ∧ b.stats.cancelled = 1 ∧
      b.RegistriesAgree sampleTranslator := by
  obtain ⟨b, hreach, hcounts⟩ := readyBroker_reaches.exec_map
    (G := LiveBroker.Regular scripted sampleTranslator fun _ => "")
    ([.submit dayBuy] ++ say { kind := .OrderAccepted, client_order_id := "ptl-1", venue_order_id := "v" } ++
      say (partFill 4) ++ [.cancel 1] ++ say { partFill 6 with kind := .Fill })
    (fun b => (b.stats.fills_ingested, b.stats.cancelled)) (b := (2, 1))
    (by decide +kernel) (by decide +kernel)
  simp only [Prod.mk.injEq] at hcounts
  exact ⟨b, hcounts.1, hcounts.2, brokerMachine_registries_agree hreach⟩

/-- A partial fill of the whole order leaves it worked and tracked when the
simulator has it no longer; a complete fill of a part of it leaves it pending
with nobody listening. -/
theorem brokerMachine_registries_part :
    (∃ b : SampleBroker, (brokerMachine scripted sampleTranslator fun _ => "").Reachable b ∧
      (1 ∈ b.working ∧ b.listener.resolve "ptl-1" = some 1 ∧ 1 ∉ idsOf b.simulator.pending) ∧
      ¬ b.RegistriesAgree sampleTranslator) ∧
    ∃ b : SampleBroker, (brokerMachine scripted sampleTranslator fun _ => "").Reachable b ∧
      (1 ∉ b.working ∧ b.listener.resolve "ptl-1" = none ∧ 1 ∈ idsOf b.simulator.pending) ∧
      ¬ b.RegistriesAgree sampleTranslator := by
  constructor
  · obtain ⟨b, hreach, hholds⟩ := readyBroker_reaches.exec_map (G := fun _ _ => True)
      ([.submit dayBuy] ++ say (partFill 10))
      (fun b => (b.working.contains 1, b.listener.resolve "ptl-1", idsOf b.simulator.pending))
      (b := (true, some 1, [])) (by decide +kernel) (by decide +kernel)
    simp only [Prod.mk.injEq] at hholds
    obtain ⟨hworking, htracked, hpending⟩ := hholds
    have hmem : (1 : OrderId) ∈ b.working := hworking
    have hgone : (1 : OrderId) ∉ idsOf b.simulator.pending := by simp [hpending]
    exact ⟨b, hreach, ⟨hmem, htracked, hgone⟩, fun hagree => hgone ((hagree.pending 1).mp hmem)⟩
  · obtain ⟨b, hreach, hholds⟩ := readyBroker_reaches.exec_map (G := fun _ _ => True)
      ([.submit dayBuy] ++ say { partFill 4 with kind := .Fill })
      (fun b => (b.working.contains 1, b.listener.resolve "ptl-1", idsOf b.simulator.pending))
      (b := (false, none, [1])) (by decide +kernel) (by decide +kernel)
    simp only [Prod.mk.injEq] at hholds
    obtain ⟨hworking, htracked, hpending⟩ := hholds
    have hgone : (1 : OrderId) ∉ b.working := by
      rw [← TreeMap.contains_iff_mem]
      simp [hworking]
    have hmem : (1 : OrderId) ∈ idsOf b.simulator.pending := by simp [hpending]
    exact ⟨b, hreach, ⟨hgone, htracked, hmem⟩, fun hagree => hgone ((hagree.pending 1).mpr hmem)⟩

end ptl.live
