import TradingLab.Live.Registries

open ptl.oms ptl.portfolio ptl.execution
open Std (TreeMap)

namespace ptl.live

variable {R T : Type}

/-- A broker over the sessions that recover one after another, with the orders
    last captured, the ids of the orders placed in this session, and the session
    whose order each client id was created for. -/
structure Lifetime (R T : Type) where
  broker : LiveBroker R T
  captured : List (String × OrderId) := []
  session : Nat := 0
  placed : List OrderId := []
  owner : TreeMap String Nat := ∅

inductive LifeMove (R T : Type) where
  | call (l : BrokerMove T)
  | capture
  | restart (simulator : BrokerSimulator R)

variable (transport : ILiveTransport T) (translator : IOrderTranslator) (num : Rat → String)

/-- A call on the broker. A submission that gets as far as the simulator's list
    places the order; its client id is created for it unless it is tracked. -/
def Lifetime.call (s : Lifetime R T) (l : BrokerMove T) : Lifetime R T :=
  let after := { s with broker := s.broker.step transport translator num l }
  match l with
  | .submit order =>
    match s.broker.admitted translator num order with
    | none => after
    | some encoded =>
      { after with
        placed := s.placed ++ [order.id]
        owner := if (s.broker.listener.resolve encoded.client_order_id).isSome then s.owner
          else s.owner.insert encoded.client_order_id s.session }
  | _ => after

/-- A new session has a new order manager, simulator, portfolio and broker; the
    listener is restored from the captured orders. -/
def Lifetime.restarted (s : Lifetime R T) (simulator : BrokerSimulator R) (listener : LiveOrderListener) :
    Lifetime R T :=
  { s with
    broker := {
      config := s.broker.config
      listener
      clock := s.broker.clock
      connection := s.broker.connection
      transport := s.broker.transport
      simulator := { simulator with pending := [], stats := {} }
      portfolio := Portfolio.new s.broker.portfolio.cfg }
    session := s.session + 1
    placed := [] }

def Lifetime.step (s : Lifetime R T) : LifeMove R T → Option (Lifetime R T)
  | .call l => some (s.call transport translator num l)
  | .capture => some { s with captured := s.broker.listener.snapshot }
  | .restart simulator =>
    match LiveOrderListener.restore s.captured with
    | (.error _, _) => none
    | (.ok _, listener) => some (s.restarted simulator listener)

/-- Every history of the broker, across any number of restarts. -/
def lifeMachine : Machine (Lifetime R T) (LifeMove R T) where
  Init s := ∃ b, (brokerMachine transport translator num).Init b ∧ s = { broker := b }
  step := Lifetime.step transport translator num

/-- A venue message is never resolved to an order of this session when its
    client id was created for an order of an earlier one, and no fill of such an
    order is booked. -/
structure Lifetime.Attributed (s : Lifetime R T) : Prop where
  resolved : ∀ c id, s.broker.listener.resolve c = some id → id ∈ s.placed → s.owner[c]? = some s.session
  booked : ∀ m u p f, s.broker.Ingests m u p f → s.owner[m.client_order_id]? = some s.session

/-- An order that gets as far as the simulator's list has an id under which no
    order of an earlier session is still tracked. -/
def Lifetime.Unused (s : Lifetime R T) : LifeMove R T → Prop
  | .call (.submit order) => (s.broker.admitted translator num order).isSome = true →
    ∀ e ∈ s.broker.listener.snapshot, e.2 = order.id → s.owner[e.1]? = some s.session
  | _ => True

/-- The attribution with what carries it: what is pending was placed in this
session. -/
structure Lifetime.Owned (s : Lifetime R T) : Prop where
  resolved : ∀ c id, s.broker.listener.resolve c = some id → id ∈ s.placed → s.owner[c]? = some s.session
  pending : ∀ id ∈ idsOf s.broker.simulator.pending, id ∈ s.placed

theorem Lifetime.Owned.attributed {s : Lifetime R T} (howned : s.Owned) : s.Attributed := by
  refine ⟨howned.resolved, fun m u p f hingests => ?_⟩
  obtain ⟨hinterpret, hisfill, hworking, -⟩ := hingests
  have hkind : u.kind ≠ .Ignored := by
    intro hignored
    simp [OrderUpdate.is_fill, hignored] at hisfill
  have hpending : u.order_id ∈ idsOf s.broker.simulator.pending := by
    rw [← BrokerSimulator.working_isSome_iff, hworking]
    rfl
  exact howned.resolved _ _ ((LiveOrderListener.interpret_ok hinterpret).2 hkind)
    (howned.pending _ hpending)

/-! ### What messages do -/

/-- Nothing new is tracked or pending. -/
structure LiveBroker.Fewer (b b' : LiveBroker R T) : Prop where
  resolved : ∀ c id, b'.listener.resolve c = some id → b.listener.resolve c = some id
  pending : ∀ id ∈ idsOf b'.simulator.pending, id ∈ idsOf b.simulator.pending

theorem LiveBroker.SameOrders.fewer {b b' : LiveBroker R T} (hsame : b.SameOrders b') : b.Fewer b' := by
  refine ⟨fun c id hresolve => ?_, fun id hmem => ?_⟩
  · rw [← hsame.listener_eq]
    exact hresolve
  · rw [← hsame.pending_eq]
    exact hmem

theorem LiveBroker.Fewer.trans {b b₁ b₂ : LiveBroker R T} (hfirst : b.Fewer b₁) (hsecond : b₁.Fewer b₂) :
    b.Fewer b₂ :=
  ⟨fun c id hresolve => hfirst.resolved c id (hsecond.resolved c id hresolve),
    fun id hmem => hfirst.pending id (hsecond.pending id hmem)⟩

theorem LiveOrderListener.resolve_of_forget {l : LiveOrderListener} {c c' : String} {id : OrderId}
    (hresolve : (l.forget c).resolve c' = some id) : l.resolve c' = some id := by
  rw [LiveOrderListener.resolve_forget] at hresolve
  split at hresolve
  · cases hresolve
  · exact hresolve

theorem idsOf_eraseP_subset (ps : List PendingOrder) (P : PendingOrder → Bool) :
    ∀ id ∈ idsOf (ps.eraseP P), id ∈ idsOf ps :=
  fun _ hmem => List.map_subset _ (List.eraseP_subset) hmem

theorem BrokerSimulator.idsOf_cancel_subset (b : BrokerSimulator R) (id : OrderId) :
    ∀ id' ∈ idsOf (b.cancel id).2.pending, id' ∈ idsOf b.pending := by
  unfold BrokerSimulator.cancel
  split
  · exact idsOf_eraseP_subset _ _
  · exact fun _ hmem => hmem

theorem LiveBroker.apply_fewer (b : LiveBroker R T) (m : BrokerMessage) :
    b.Fewer (b.apply translator m).2 := by
  rcases b.apply_cases translator m with
    hsame | ⟨id, -, -, hlistener, hpending⟩ | ⟨u, p, f, hingests, hfilled⟩
  · exact hsame.fewer
  · refine ⟨fun c id' hresolve => ?_, ?_⟩
    · rw [hlistener] at hresolve
      exact LiveOrderListener.resolve_of_forget hresolve
    · rw [hpending]
      exact BrokerSimulator.idsOf_cancel_subset _ _
  · refine ⟨fun c id hresolve => ?_, fun id hmem => ?_⟩
    · rw [hfilled.listener_eq] at hresolve
      split at hresolve
      · exact LiveOrderListener.resolve_of_forget hresolve
      · exact hresolve
    · have hids := @BrokerSimulator.idsOf_ingest _ _ (b.report u) _ hingests.working
      rw [hfilled.pending_eq] at hmem
      have hmem' := hids ▸ hmem
      split at hmem'
      · exact idsOf_eraseP_subset _ _ id hmem'
      · exact hmem'

theorem LiveBroker.applyAll_fewer (b : LiveBroker R T) (batch : List BrokerMessage) :
    b.Fewer (b.applyAll translator batch).2 := by
  induction batch generalizing b with
  | nil => exact LiveBroker.SameOrders.fewer ⟨rfl, rfl, rfl⟩
  | cons m rest ih =>
    have hfirst := b.apply_fewer translator m
    simp only [LiveBroker.applyAll]
    revert hfirst
    rcases b.apply translator m with ⟨result, b'⟩
    intro hfirst
    cases result with
    | error e => exact hfirst
    | ok fill => exact hfirst.trans (ih b')

/-! ### What a submission does -/

/-- A client id that the listener takes was free, or stood for the same order. -/
theorem LiveOrderListener.track_cases (l : LiveOrderListener) (c : String) (id : OrderId) :
    ((∃ e, (l.track c id).1 = .error e) ∧ (l.track c id).2 = l) ∨
    ((∃ done, (l.track c id).1 = .ok done) ∧ (l.resolve c = none ∨ l.resolve c = some id) ∧
      ∀ c', (l.track c id).2.resolve c' = if c = c' then some id else l.resolve c') := by
  unfold LiveOrderListener.track
  split
  · exact .inl ⟨⟨_, rfl⟩, rfl⟩
  · split
    · exact .inl ⟨⟨_, rfl⟩, rfl⟩
    · split
      · rename_i existing hexisting
        split
        · rename_i hsame
          have hresolve : l.resolve c = some id := by rw [← hsame]; exact hexisting
          refine .inr ⟨⟨_, rfl⟩, .inr hresolve, fun c' => ?_⟩
          by_cases hc : c = c'
          · rw [if_pos hc, ← hc]; exact hresolve
          · rw [if_neg hc]
        · exact .inl ⟨⟨_, rfl⟩, rfl⟩
      · rename_i hnone
        exact .inr ⟨⟨_, rfl⟩, .inl hnone, fun c' => Table.getElem?_insert_eq_ite _ _ _ _⟩

/-- An order that does not get as far as the simulator's list changes no
registry. -/
theorem LiveBroker.submit_unadmitted {b : LiveBroker R T} {order : Order}
    (hnone : b.admitted translator num order = none) :
    b.SameOrders (b.submit transport translator num order).2 := by
  rcases b.submit_cases transport translator num order with hsame | ⟨encoded, hadmitted, -⟩
  · exact hsame
  · rw [hnone] at hadmitted
    cases hadmitted

/-- What a submission can add: its own client id, and its own order. -/
theorem LiveBroker.submit_adds {b : LiveBroker R T} {order : Order} {encoded : EncodedRequest}
    (hadmitted : b.admitted translator num order = some encoded) :
    (∀ c id, (b.submit transport translator num order).2.listener.resolve c = some id →
      b.listener.resolve c = some id ∨
        c = encoded.client_order_id ∧ id = order.id ∧ b.listener.resolve c = none) ∧
    ∀ id ∈ idsOf (b.submit transport translator num order).2.simulator.pending,
      id ∈ idsOf b.simulator.pending ∨ id = order.id := by
  obtain ⟨stamped, hid, happended⟩ := LiveBroker.admitted_pending hadmitted
  have hids : ∀ id ∈ idsOf (b.simulator.submit b.clock order).2.pending,
      id ∈ idsOf b.simulator.pending ∨ id = order.id := by
    intro id hmem
    simpa [happended, idsOf, hid] using hmem
  have htracked : ∀ c id,
      (b.listener.track encoded.client_order_id order.id).2.resolve c = some id →
        b.listener.resolve c = some id ∨
          c = encoded.client_order_id ∧ id = order.id ∧ b.listener.resolve c = none := by
    intro c id hresolve
    rcases b.listener.track_cases encoded.client_order_id order.id with
      ⟨-, hsame⟩ | ⟨-, hfree, hlookup⟩
    · rw [hsame] at hresolve
      exact .inl hresolve
    · rw [hlookup] at hresolve
      split at hresolve
      · rename_i hc
        cases hresolve
        rw [← hc]
        exact hfree.symm.imp_right fun hnone => ⟨rfl, rfl, hnone⟩
      · exact .inl hresolve
  rcases b.submit_cases transport translator num order with hsame | ⟨encoded', hadmitted', hends⟩
  · refine ⟨fun c id hresolve => .inl ?_, fun id hmem => .inl ?_⟩
    · rw [← hsame.listener_eq]; exact hresolve
    · rw [← hsame.pending_eq]; exact hmem
  rw [hadmitted] at hadmitted'
  cases hadmitted'
  rcases hends with ⟨-, -, hlistener, hpending⟩ | ⟨-, hlistener, hpending⟩ |
      ⟨-, -, hlistener, hpending⟩
  · rw [hlistener, hpending]
    exact ⟨htracked, hids⟩
  · rw [hlistener, hpending]
    exact ⟨fun c id hresolve => htracked c id (LiveOrderListener.resolve_of_forget hresolve),
      fun id hmem => hids id (BrokerSimulator.idsOf_cancel_subset _ _ id hmem)⟩
  · rw [hlistener, hpending]
    exact ⟨htracked, hids⟩

variable {transport translator num}

/-- Calls that place no order. -/
theorem Lifetime.Owned.fewer {s : Lifetime R T} (howned : s.Owned) {b : LiveBroker R T}
    (hfewer : s.broker.Fewer b) : { s with broker := b }.Owned :=
  ⟨fun c id hresolve hplaced => howned.resolved c id (hfewer.resolved c id hresolve) hplaced,
    fun id hmem => howned.pending id (hfewer.pending id hmem)⟩

theorem LiveOrderListener.mem_snapshot {l : LiveOrderListener} {c : String} {id : OrderId}
    (hresolve : l.resolve c = some id) : (c, id) ∈ l.snapshot :=
  TreeMap.mem_toList_iff_getElem?_eq_some.mpr hresolve

/-- A submission under an id that is not used by an earlier session. -/
theorem Lifetime.Owned.submit {s : Lifetime R T} (howned : s.Owned) {order : Order}
    (hunused : s.Unused translator num (.call (.submit order))) :
    (s.call transport translator num (.submit order)).Owned := by
  cases hadmitted : s.broker.admitted translator num order with
  | none =>
    have hcall : s.call transport translator num (.submit order) =
        { s with broker := (s.broker.submit transport translator num order).2 } := by
      simp only [Lifetime.call, hadmitted]
      rfl
    rw [hcall]
    exact howned.fewer (s.broker.submit_unadmitted transport translator num hadmitted).fewer
  | some encoded =>
    have hmine : ∀ e ∈ s.broker.listener.snapshot, e.2 = order.id → s.owner[e.1]? = some s.session :=
      hunused (by rw [hadmitted]; rfl)
    obtain ⟨htracked, hpending⟩ := s.broker.submit_adds transport translator num hadmitted
    simp only [Lifetime.call, hadmitted]
    refine ⟨fun c id hresolve hplaced => ?_, fun id hmem => ?_⟩
    · have hplaced : id ∈ s.placed ∨ id = order.id := by simpa using hplaced
      dsimp only
      rcases htracked c id hresolve with hold | ⟨rfl, rfl, hnone⟩
      · -- The owner of a client id that was tracked before does not change.
        have howner : s.owner[c]? = some s.session := by
          rcases hplaced with hplaced | rfl
          · exact howned.resolved c id hold hplaced
          · exact hmine _ (LiveOrderListener.mem_snapshot hold) rfl
        split
        · exact howner
        · rename_i hfree
          have hne : encoded.client_order_id ≠ c := by
            rintro rfl
            simp [hold] at hfree
          rw [Table.getElem?_insert_of_ne _ _ hne]
          exact howner
      · rw [hnone]
        exact Table.getElem?_insert_self _ _ _
    · rcases hpending id hmem with hold | rfl
      · exact List.mem_append_left _ (howned.pending id hold)
      · simp

theorem Lifetime.Owned.step {s t : Lifetime R T} (howned : s.Owned) {l : LifeMove R T}
    (hunused : s.Unused translator num l) (hstep : s.step transport translator num l = some t) :
    t.Owned := by
  cases l with
  | call l =>
    cases hstep
    cases l with
    | submit order => exact howned.submit hunused
    | cancel id => exact howned.fewer (s.broker.cancel_same id).fewer
    | replace amended => exact howned.fewer (s.broker.replace_same amended).fewer
    | poll =>
      have hdrained : s.broker.Fewer (s.broker.drained transport) :=
        LiveBroker.SameOrders.fewer ⟨rfl, rfl, rfl⟩
      exact howned.fewer (hdrained.trans (LiveBroker.applyAll_fewer translator _ _))
    | elsewhere clock connection t => exact howned.fewer (LiveBroker.SameOrders.fewer ⟨rfl, rfl, rfl⟩)
  | capture =>
    cases hstep
    exact ⟨howned.resolved, howned.pending⟩
  | restart simulator =>
    simp only [Lifetime.step] at hstep
    split at hstep
    · cases hstep
    · cases hstep
      exact ⟨fun c id _ hplaced => absurd hplaced List.not_mem_nil,
        fun id hmem => absurd hmem List.not_mem_nil⟩

instance (s : Lifetime R T) (l : LifeMove R T) : Decidable (s.Unused translator num l) :=
  match l with
  | .call (.submit order) => inferInstanceAs (Decidable
      ((s.broker.admitted translator num order).isSome = true →
        ∀ e ∈ s.broker.listener.snapshot, e.2 = order.id → s.owner[e.1]? = some s.session))
  | .call (.cancel _) | .call (.replace _) | .call .poll | .call (.elsewhere _ _ _) | .capture
  | .restart _ => inferInstanceAs (Decidable True)

abbrev SampleLifetime := Lifetime Unit ScriptedTransport

def firstLife : SampleLifetime := { broker := readyBroker }

theorem firstLife_reaches {G : SampleLifetime → LifeMove Unit ScriptedTransport → Prop} :
    (lifeMachine scripted sampleTranslator fun _ => "").Reaches G firstLife :=
  .init ⟨readyBroker, ⟨rfl, rfl, rfl⟩, rfl⟩

/-- An order is placed and captured, and the next session goes on from there. -/
def placeAndRestart (order : Order) : List (LifeMove Unit ScriptedTransport) :=
  [.call (.submit order), .capture, .restart readyBroker.simulator]

/-- The first order of the next session, as its order manager numbers it. -/
def firstSell : Order := tenShares 1 .Sell

end ptl.live
