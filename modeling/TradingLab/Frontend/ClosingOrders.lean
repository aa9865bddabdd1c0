import TradingLab.Frontend.Requests
import TradingLab.Oms.Order

/-! The book under the callbacks of the host's strategy, and what is known of a
closing order at every moment between a flatten and its last fill. -/

open ptl ptl.oms ptl.portfolio ptl.market ptl.risk ptl.execution ptl.accounting ptl.engine

namespace ptl_host

variable {R F : Type}

/-- The ids of the requests that became orders and of those that wait. -/
def HostStrategy.ids (h : HostStrategy) : List Nat :=
  h.placed.map Prod.fst ++ h.inbox.map Request.request_id

/-- Positions are those of the fills booked, now and after each of them. -/
structure Accounts (e : Engine R) (h : HostStrategy) : Prop where
  settled_eq : ∀ i, e.pf.settledQuantity i = net (h.booked.map Prod.fst) i
  seen : ∀ before b after, h.booked = before ++ b :: after →
    b.2 = net (before.map Prod.fst ++ [b.1]) b.1.instrument

/-- The engine's orders and positions are those of the fills booked, and no two
requests share an id. -/
structure Ledger (e : Engine R) (h : HostStrategy) (next : Nat) : Prop extends Accounts e h where
  agreed : e.Agreed
  known : ∀ b ∈ h.booked, e.Known b.1.order_id
  filled_eq : ∀ id, e.filledOf id = filledBy (h.booked.map Prod.fst) id
  distinct : h.ids.Nodup
  numbered : ∀ id ∈ h.ids, id < next

/-- What is known of the order that a closing request became. -/
structure Flattening.Works (c : Flattening) (e : Engine R) (h : HostStrategy) (id : OrderId) : Prop where
  known : e.Known id
  committed_le : e.committed id ≤ c.request.quantity
  resting : ∀ p ∈ e.broker.pending, p.order.id = id →
    p.order.instrument = c.request.instrument ∧ p.order.side = c.request.side
  booked : ∀ b ∈ h.booked, b.1.order_id = id →
    b.1.instrument = c.request.instrument ∧ b.1.side = c.request.side
  none_before : ∀ b ∈ h.booked.take c.since, b.1.order_id ≠ id

/-- What is known of a closing order, queued or placed. -/
structure Flattening.Tracked (c : Flattening) (e : Engine R) (h : HostStrategy) (next : Nat) : Prop where
  closes_held : c.request.ClosesHeld c.held
  since_le : c.since ≤ h.booked.length
  requested_le : c.requested ≤ h.requested
  held_eq : c.held = net ((h.booked.take c.since).map Prod.fst) c.request.instrument
  numbered : c.request.request_id < next
  queued : ∀ request ∈ h.inbox, request.request_id = c.request.request_id → request = c.request
  works : ∀ id, c.Closes h id → c.Works e h id

theorem Ledger.one_order {e : Engine R} {h : HostStrategy} {next : Nat} (hledger : Ledger e h next)
    {c : Flattening} {id id' : OrderId} (hcloses : c.Closes h id) (hcloses' : c.Closes h id') : id = id' := by
  have hdistinct : (h.placed.map Prod.fst).Nodup := (List.nodup_append.mp hledger.distinct).1
  exact congrArg Prod.snd (List.inj_on_of_nodup_map hdistinct hcloses hcloses' rfl)

/-- A request that still waits has become no order. -/
theorem Ledger.not_placed {e : Engine R} {h : HostStrategy} {next : Nat} (hledger : Ledger e h next)
    {request : Request} (hmem : request ∈ h.inbox) {id : OrderId} : (request.request_id, id) ∉ h.placed :=
  fun hplaced => (List.nodup_append.mp hledger.distinct).2.2 _ (List.mem_map_of_mem hplaced) _
    (List.mem_map_of_mem hmem) rfl

/-! ### Steps of a callback -/

/-- What every step of a callback leaves alone. -/
structure Steps (e : Engine R) (h : HostStrategy) (e' : Engine R) (h' : HostStrategy) : Prop where
  agreed : e.Agreed → e'.Agreed
  settled_eq : ∀ i, e'.pf.settledQuantity i = e.pf.settledQuantity i
  booked_eq : h'.booked = h.booked
  inbox_subset : h'.inbox ⊆ h.inbox
  ids_sublist : h'.ids.Sublist h.ids
  requested_le : h.requested ≤ h'.requested

/-- A step that adds no order. -/
structure Idles (e : Engine R) (h : HostStrategy) (e' : Engine R) (h' : HostStrategy) : Prop
    extends Steps e h e' h' where
  shrinks : e.Shrinks e' []
  placed_eq : h'.placed = h.placed

/-- A step that sends an order, the strategy's own or that of a request. -/
structure Sends (order : Order) (served : Option Request) (e : Engine R) (h : HostStrategy) (e' : Engine R)
    (h' : HostStrategy) : Prop extends Steps e h e' h' where
  enters : e.Enters e' order
  sent : ∃ p, e'.broker.pending = e.broker.pending ++ [p] ∧ p.order.id = order.id ∧
    p.order.instrument = order.instrument ∧ p.order.side = order.side
  placed_eq : h'.placed = h.placed ++ served.toList.map fun request => (request.request_id, order.id)
  serves : ∀ request ∈ served, request ∈ h.inbox ∧ order.instrument = request.instrument ∧
    order.side = request.side ∧ order.quantity = request.quantity

section Steps

variable {e e' : Engine R} {h h' : HostStrategy} {next : Nat} {c : Flattening}

/-- The books of the engine changed by nothing that a ledger shows. -/
theorem Idles.of_same (hagreed : e.Agreed → e'.Agreed) (hshrinks : e.Shrinks e' [])
    (hsettled : ∀ i, e'.pf.settledQuantity i = e.pf.settledQuantity i) : Idles e h e' h where
  agreed := hagreed
  settled_eq := hsettled
  booked_eq := rfl
  inbox_subset := List.Subset.refl _
  ids_sublist := List.Sublist.refl _
  requested_le := le_rfl
  shrinks := hshrinks
  placed_eq := rfl

theorem Steps.ledger (hsteps : Steps e h e' h') (hledger : Ledger e h next)
    (hknown : ∀ id, e.Known id → e'.Known id) (hfilled : ∀ id, e'.filledOf id = e.filledOf id) :
    Ledger e' h' next where
  agreed := hsteps.agreed hledger.agreed
  known b hb := hknown _ (hledger.known b (hsteps.booked_eq ▸ hb))
  filled_eq id := by rw [hfilled, hledger.filled_eq, hsteps.booked_eq]
  settled_eq i := by rw [hsteps.settled_eq, hledger.settled_eq, hsteps.booked_eq]
  seen := by
    rw [hsteps.booked_eq]
    exact hledger.seen
  distinct := hledger.distinct.sublist hsteps.ids_sublist
  numbered id hid := hledger.numbered id (hsteps.ids_sublist.subset hid)

theorem Idles.ledger (hidles : Idles e h e' h') (hledger : Ledger e h next) : Ledger e' h' next :=
  hidles.toSteps.ledger hledger hidles.shrinks.known hidles.shrinks.filled_same

theorem Sends.ledger {order : Order} {served : Option Request} (hsends : Sends order served e h e' h')
    (hledger : Ledger e h next) : Ledger e' h' next :=
  hsends.toSteps.ledger hledger (fun id hknown => (hsends.enters.known id).mpr (.inr hknown))
    hsends.enters.filled_eq

/-- All but the order itself, a step leaves a closing order as it was. -/
theorem Steps.tracked (hsteps : Steps e h e' h') (htracked : c.Tracked e h next)
    (hworks : ∀ id, c.Closes h' id → c.Works e' h' id) : c.Tracked e' h' next where
  closes_held := htracked.closes_held
  since_le := by
    rw [hsteps.booked_eq]
    exact htracked.since_le
  requested_le := htracked.requested_le.trans hsteps.requested_le
  held_eq := by
    rw [hsteps.booked_eq]
    exact htracked.held_eq
  numbered := htracked.numbered
  queued request hmem := htracked.queued request (hsteps.inbox_subset hmem)
  works := hworks

theorem Idles.tracked (hidles : Idles e h e' h') (htracked : c.Tracked e h next) : c.Tracked e' h' next := by
  refine hidles.toSteps.tracked htracked fun id hcloses => ?_
  have hworks := htracked.works id (by rwa [Flattening.Closes, hidles.placed_eq] at hcloses)
  refine ⟨hidles.shrinks.known id hworks.known, (hidles.shrinks.committed_le id).trans hworks.committed_le,
    fun q hq hid => ?_, ?_, ?_⟩
  · obtain ⟨p, hp, hsame⟩ := hidles.shrinks.order_of_rest q hq
    rw [hsame] at hid ⊢
    exact hworks.resting p hp hid
  · rw [hidles.booked_eq]
    exact hworks.booked
  · rw [hidles.booked_eq]
    exact hworks.none_before

/-- An order of the request that is served is the one the request asked for; any
other leaves the closing order alone. -/
theorem Sends.tracked {order : Order} {served : Option Request} (hsends : Sends order served e h e' h')
    (hledger : Ledger e h next) (htracked : c.Tracked e h next) : c.Tracked e' h' next := by
  refine hsends.toSteps.tracked htracked fun id hcloses => ?_
  obtain ⟨p, hpending, hid, hinstrument, hside⟩ := hsends.sent
  rw [Flattening.Closes, hsends.placed_eq, List.mem_append] at hcloses
  rcases hcloses with hcloses | hcloses
  · have hworks := htracked.works id hcloses
    have hother : id ≠ order.id := fun heq => hsends.enters.new (heq ▸ hworks.known)
    refine ⟨(hsends.enters.known id).mpr (.inr hworks.known), ?_, fun q hq hqid => ?_, ?_, ?_⟩
    · rw [hsends.enters.committed_eq hledger.agreed, if_neg hother]
      exact hworks.committed_le
    · rw [hpending, List.mem_append, List.mem_singleton] at hq
      rcases hq with hq | rfl
      · exact hworks.resting q hq hqid
      · exact absurd (hqid.symm.trans hid) hother
    · rw [hsends.booked_eq]
      exact hworks.booked
    · rw [hsends.booked_eq]
      exact hworks.none_before
  · obtain ⟨request, hserved, hpair⟩ := List.mem_map.mp hcloses
    obtain ⟨hmem, hreqInstrument, hreqSide, hreqQuantity⟩ := hsends.serves request (Option.mem_toList.mp hserved)
    obtain ⟨hrequest, rfl⟩ := Prod.mk.inj hpair
    have hsame := htracked.queued request hmem hrequest
    rw [hsame] at hreqInstrument hreqSide hreqQuantity
    have hfresh : ∀ b ∈ h.booked, b.1.order_id ≠ order.id :=
      fun b hb heq => hsends.enters.new (heq ▸ hledger.known b hb)
    refine ⟨(hsends.enters.known order.id).mpr (.inl rfl), ?_, fun q hq hqid => ?_, ?_, ?_⟩
    · rw [hsends.enters.committed_eq hledger.agreed, if_pos rfl, hreqQuantity]
    · rw [hpending, List.mem_append, List.mem_singleton] at hq
      rcases hq with hq | rfl
      · exact absurd (hledger.agreed.known (hqid ▸ List.mem_map_of_mem hq)) hsends.enters.new
      · exact ⟨hinstrument.trans hreqInstrument, hside.trans hreqSide⟩
    · rw [hsends.booked_eq]
      exact fun b hb heq => absurd heq (hfresh b hb)
    · rw [hsends.booked_eq]
      exact fun b hb => hfresh b (List.mem_of_mem_take hb)

/-- A step that books nothing keeps what a flatten is for, if the order of a
request that it serves has no fill yet. -/
theorem Steps.kept (hsteps : Steps e h e' h') (htracked : c.Tracked e h next) (hkept : c.Kept e h)
    (hfilled : ∀ id, e'.filledOf id = e.filledOf id)
    (hplaced : ∀ id, c.Closes h' id → c.Closes h id ∨ ¬ e.Known id)
    (hledger : Ledger e h next) : c.Kept e' h' where
  never_reversed b hb hcloses := by
    rw [Flattening.later, hsteps.booked_eq] at hb
    rcases hplaced _ hcloses with hclosed | hnew
    · exact hkept.never_reversed b hb hclosed
    · exact absurd (hledger.known b (List.mem_of_mem_drop hb)) hnew
  flat id hcloses hdone hrequested := by
    rw [hfilled] at hdone
    rw [hsteps.settled_eq]
    rcases hplaced id hcloses with hclosed | hnew
    · refine hkept.flat id hclosed hdone (le_antisymm ?_ htracked.requested_le)
      exact hrequested ▸ hsteps.requested_le
    · rw [Engine.filledOf_of_not_known hnew, htracked.closes_held.quantity_eq] at hdone
      exact absurd (abs_nonpos_iff.mp hdone) htracked.closes_held.held_ne

/-- The ledger, and every closing order tracked and kept. -/
structure Keeps (e : Engine R) (h : HostStrategy) (next : Nat) (cs : List Flattening) : Prop where
  ledger : Ledger e h next
  tracked : ∀ c ∈ cs, c.Tracked e h next
  kept : ∀ c ∈ cs, c.Kept e h

theorem Idles.keeps {cs : List Flattening} (hidles : Idles e h e' h') (hkeeps : Keeps e h next cs) :
    Keeps e' h' next cs where
  ledger := hidles.ledger hkeeps.ledger
  tracked c hc := hidles.tracked (hkeeps.tracked c hc)
  kept c hc := by
    refine hidles.toSteps.kept (hkeeps.tracked c hc) (hkeeps.kept c hc) hidles.shrinks.filled_same
      (fun id hcloses => .inl ?_) hkeeps.ledger
    rwa [Flattening.Closes, hidles.placed_eq] at hcloses

theorem Sends.keeps {order : Order} {served : Option Request} {cs : List Flattening}
    (hsends : Sends order served e h e' h') (hkeeps : Keeps e h next cs) : Keeps e' h' next cs where
  ledger := hsends.ledger hkeeps.ledger
  tracked c hc := hsends.tracked hkeeps.ledger (hkeeps.tracked c hc)
  kept c hc := by
    refine hsends.toSteps.kept (hkeeps.tracked c hc) (hkeeps.kept c hc) hsends.enters.filled_eq
      (fun id hcloses => ?_) hkeeps.ledger
    rw [Flattening.Closes, hsends.placed_eq, List.mem_append] at hcloses
    refine hcloses.imp_right fun hnew => ?_
    obtain ⟨request, -, hpair⟩ := List.mem_map.mp hnew
    rw [← (Prod.mk.inj hpair).2]
    exact hsends.enters.new

end Steps

/-! ### The callback -/

/-- Serving one request: what it does to the engine, and to the strategy that has
popped it. -/
inductive Serves (bar : Bar) (request : Request) (e : Engine R) (h : HostStrategy) :
    Engine R → HostStrategy → Prop where
  | cancelled : Serves bar request e h (e.cancel request.cancel_target).2
      (h.on_cancelled request (e.cancel request.cancel_target).1)
  | unbuilt {err : Error} : Serves bar request e h e.next_order_id.2 (h.on_refused request err)
  | submitted {order : Order}
      (hbuilt : request.build e.next_order_id.1 { decision_time := bar.close_time } = .ok order) :
      Serves bar request e h (e.next_order_id.2.submit (order.with_arrival_price bar.close)).2
        (h.on_submitted request (e.next_order_id.2.submit (order.with_arrival_price bar.close)).1)

/-- What serving every request preserves, draining preserves. What follows begins
with an empty inbox. -/
theorem callback_drain (bar : Bar) {k : HostStrategy → SinkProgram HostStrategy}
    {I : Engine R → HostStrategy → Prop}
    (hserves : ∀ e h request rest e' h', I e h → h.inbox = request :: rest →
      Serves bar request e { h with inbox := rest } e' h' → I e' h')
    {requests : List Request} {e : Engine R} {h : HostStrategy} (hinbox : h.inbox = requests) (hinit : I e h) :
    ∃ e' h', e.callback (h.drain bar k requests) = e'.callback (k h') ∧ I e' h' ∧ h'.inbox = [] := by
  induction requests generalizing e h with
  | nil => exact ⟨e, h, rfl, hinit, hinbox⟩
  | cons request rest ih =>
    rw [HostStrategy.drain]
    split
    · cases hresult : (e.cancel request.cancel_target).1 with
      | error err =>
        have hserved := hserves _ _ _ _ _ _ hinit hinbox Serves.cancelled
        rw [Engine.callback]
        rw [hresult] at hserved ⊢
        exact ih rfl hserved
      | ok done =>
        have hserved := hserves _ _ _ _ _ _ hinit hinbox Serves.cancelled
        rw [Engine.callback]
        rw [hresult] at hserved ⊢
        exact ih rfl hserved
    · rw [Engine.callback]
      cases hbuilt : request.build e.next_order_id.1 { decision_time := bar.close_time } with
      | error err => exact ih rfl (hserves _ _ _ _ _ _ hinit hinbox Serves.unbuilt)
      | ok order =>
        have hserved := hserves _ _ _ _ _ _ hinit hinbox (Serves.submitted hbuilt)
        dsimp only
        rw [Engine.callback]
        cases hresult : (e.next_order_id.2.submit (order.with_arrival_price bar.close)).1 with
        | error err =>
          rw [hresult] at hserved
          exact ih rfl hserved
        | ok id =>
          rw [hresult] at hserved
          exact ih rfl hserved

section Callback

variable {bar : Bar} {request : Request} {rest : List Request} {e e' : Engine R} {h h' : HostStrategy}
  {next : Nat} {cs : List Flattening}

theorem Request.build_ok {id : OrderId} {times : LifecycleTimes} {order : Order}
    (hbuilt : request.build id times = .ok order) :
    order.instrument = request.instrument ∧ order.side = request.side ∧ order.quantity = request.quantity := by
  unfold Request.build at hbuilt
  cases htype : request.type with
  | Market =>
    rw [htype] at hbuilt
    exact (Order.make_ok hbuilt).2.2
  | Limit =>
    rw [htype] at hbuilt
    exact (Order.make_ok hbuilt).2.2
  | Stop =>
    rw [htype] at hbuilt
    exact (Order.make_ok hbuilt).2.2
  | StopLimit =>
    rw [htype] at hbuilt
    exact (Order.make_ok hbuilt).2.2

/-- A request is popped and answered, and no order comes of it. -/
theorem Idles.of_popped (hsame : Idles e h e' h) (hinbox : h.inbox = request :: rest)
    (hbooked : h'.booked = h.booked) (hplaced : h'.placed = h.placed) (hrest : h'.inbox = rest)
    (hrequested : h'.requested = h.requested) : Idles e h e' h' where
  agreed := hsame.agreed
  settled_eq := hsame.settled_eq
  booked_eq := hbooked
  inbox_subset := by
    rw [hrest, hinbox]
    exact List.subset_cons_self _ _
  ids_sublist := by
    rw [HostStrategy.ids, HostStrategy.ids, hplaced, hrest, hinbox]
    exact ((List.sublist_cons_self request rest).map _).append_left _
  requested_le := hrequested.ge
  shrinks := hsame.shrinks
  placed_eq := hplaced

theorem Idles.cancel (hagreed : e.Agreed) (id : OrderId) : Idles e h (e.cancel id).2 h :=
  .of_same (fun hagreed => Engine.agreed_cancel hagreed id) (Engine.cancel_shrinks hagreed id).1
    fun i => by rw [e.cancel_pf]

theorem Idles.next_order_id (e : Engine R) (h : HostStrategy) : Idles e h e.next_order_id.2 h :=
  .of_same Engine.agreed_next_order_id e.shrinks_next_order_id fun _ => rfl

/-- An order that is turned down. -/
theorem Idles.refused {order : Order} {err : Error} (hrefused : (e.submit order).1 = .error err) :
    Idles e h (e.submit order).2 h :=
  .of_same (fun hagreed => Engine.agreed_submit hagreed order) (Engine.submit_refused hrefused)
    fun i => by rw [(e.submit_fills order).2]

/-- An order that is accepted, whoever asked for it. -/
theorem Sends.accepted {order : Order} {id : OrderId} {served : Option Request}
    (haccepted : (e.submit order).1 = .ok id) (hbooked : h'.booked = h.booked)
    (hinbox : h'.inbox ⊆ h.inbox) (hids : h'.ids.Sublist h.ids) (hrequested : h.requested ≤ h'.requested)
    (hplaced : h'.placed = h.placed ++ served.toList.map fun request => (request.request_id, order.id))
    (hserves : ∀ request ∈ served, request ∈ h.inbox ∧ order.instrument = request.instrument ∧
      order.side = request.side ∧ order.quantity = request.quantity) :
    Sends order served e h (e.submit order).2 h' where
  agreed hagreed := Engine.agreed_submit hagreed order
  settled_eq i := by rw [(e.submit_fills order).2]
  booked_eq := hbooked
  inbox_subset := hinbox
  ids_sublist := hids
  requested_le := hrequested
  enters := (Engine.submit_accepted haccepted).2
  sent := Engine.submit_sends haccepted
  placed_eq := hplaced
  serves := hserves

/-- The request that is served becomes the order it asked for, or none. -/
theorem Serves.keeps (hserves : Serves bar request e { h with inbox := rest } e' h')
    (hinbox : h.inbox = request :: rest) (hkeeps : Keeps e h next cs) : Keeps e' h' next cs := by
  have hnumbered := (Idles.next_order_id e h).keeps hkeeps
  cases hserves with
  | cancelled =>
    refine Idles.keeps (Idles.of_popped (.cancel hkeeps.ledger.agreed _) hinbox ?_ ?_ ?_ ?_) hkeeps
    all_goals
      unfold HostStrategy.on_cancelled
      split <;> rfl
  | unbuilt => exact Idles.keeps (Idles.of_popped (.next_order_id e h) hinbox rfl rfl rfl rfl) hkeeps
  | @submitted order hbuilt =>
    cases hresult : (e.next_order_id.2.submit (order.with_arrival_price bar.close)).1 with
    | error err => exact Idles.keeps (Idles.of_popped (.refused hresult) hinbox rfl rfl rfl rfl) hnumbered
    | ok id =>
      have hid : id = order.id := (Engine.submit_accepted hresult).1
      have hsends : Sends (order.with_arrival_price bar.close) (some request) e.next_order_id.2 h
          (e.next_order_id.2.submit (order.with_arrival_price bar.close)).2
          ({ h with inbox := rest }.on_submitted request (.ok id)) := by
        refine Sends.accepted hresult rfl ?_ ?_ le_rfl ?_ ?_
        · rw [hinbox]
          exact List.subset_cons_self _ _
        · rw [HostStrategy.ids, HostStrategy.ids, hinbox]
          simp [HostStrategy.on_submitted, HostStrategy.record]
        · rw [hid]
          rfl
        · rintro _ ⟨⟩
          rw [hinbox]
          obtain ⟨hinstrument, hside, hquantity⟩ := Request.build_ok hbuilt
          exact ⟨List.mem_cons_self, hinstrument, hside, hquantity⟩
      exact hsends.keeps hnumbered

/-- What the ledger does not show of the strategy may change. -/
theorem Keeps.of_strategy (hkeeps : Keeps e h next cs) (hinbox : h'.inbox = h.inbox)
    (hplaced : h'.placed = h.placed) (hbooked : h'.booked = h.booked) (hrequested : h.requested ≤ h'.requested) :
    Keeps e h' next cs := by
  refine Idles.keeps ⟨⟨id, fun _ => rfl, hbooked, ?_, ?_, hrequested⟩, .of_same rfl fun _ => rfl, hplaced⟩ hkeeps
  · rw [hinbox]
    exact List.Subset.refl _
  · rw [HostStrategy.ids, HostStrategy.ids, hplaced, hinbox]

/-- The strategy's own orders are nobody's closing order. -/
theorem Keeps.generate (hkeeps : Keeps e h next cs) :
    Keeps (e.callback (h.generate bar)).1 (e.callback (h.generate bar)).2 next cs := by
  have hcounted : Keeps e { h with bars := h.bars + 1 } next cs := hkeeps.of_strategy rfl rfl rfl le_rfl
  have hnumbered := (Idles.next_order_id e _).keeps hcounted
  unfold HostStrategy.generate
  dsimp only
  split
  · exact hcounted
  · split
    · exact hcounted
    · rw [Engine.callback, Engine.callback]
      split
      · exact hnumbered
      · rename_i order hbuilt
        simp only [Engine.callback]
        cases hresult : (e.next_order_id.2.submit (order.with_arrival_price bar.close)).1 with
        | error err =>
          exact ((Idles.refused hresult).keeps hnumbered).of_strategy rfl rfl rfl (Nat.le_succ _)
        | ok id =>
          have hsends : Sends (order.with_arrival_price bar.close) none e.next_order_id.2
              { h with bars := h.bars + 1 } (e.next_order_id.2.submit (order.with_arrival_price bar.close)).2
              { h with
                bars := h.bars + 1
                submitted := h.submitted ++ [id]
                requested := h.requested + 1 } :=
            Sends.accepted hresult rfl (List.Subset.refl _) (List.Sublist.refl _) (Nat.le_succ _)
              (List.append_nil _).symm (by simp)
          exact hsends.keeps hnumbered

/-- What is kept is kept through the callback of a bar. -/
theorem Keeps.on_bar (hkeeps : Keeps e h next cs) :
    Keeps (e.callback (h.on_bar bar)).1 (e.callback (h.on_bar bar)).2 next cs := by
  obtain ⟨e₁, h₁, hdrained, hkeeps₁, -⟩ := callback_drain bar (k := HostStrategy.generate bar)
    (I := fun e h => Keeps e h next cs)
    (fun e h request rest e' h' hbefore hinbox hserves => hserves.keeps hinbox hbefore) rfl hkeeps
  rw [HostStrategy.on_bar, hdrained]
  exact hkeeps₁.generate

end Callback

end ptl_host
