import TradingLab.Core.Numbers
import TradingLab.Frontend.ClosingOrders

/-! Whole runs of a session whose callers flatten it. -/

open ptl ptl.oms ptl.portfolio ptl.market ptl.risk ptl.execution ptl.accounting ptl.engine
open ptl.storage (IFileSystem memoryFiles)

namespace ptl_host

variable {R F : Type}

/-! ### An event's fills -/

/-- The fills were booked one by one, and nothing else was done. -/
structure Books (h : HostStrategy) (fills : List Fill) (h' : HostStrategy) : Prop where
  inbox_eq : h'.inbox = h.inbox
  placed_eq : h'.placed = h.placed
  requested_eq : h'.requested = h.requested
  booked_eq : ∃ new, h'.booked = h.booked ++ new ∧ new.map Prod.fst = fills

section Fills

variable {e e' matched : Engine R} {h h' : HostStrategy} {f : Fill} {fills : List Fill} {next : Nat}
  {now : Timestamp} {ev : MarketEvent} {c : Flattening}

theorem Books.on_fill (hbooks : Books h fills h') (ctx : StrategyContext) :
    Books h (fills ++ [f]) (h'.on_fill f ctx) := by
  obtain ⟨new, hnew, hfills⟩ := hbooks.booked_eq
  refine ⟨hbooks.inbox_eq, hbooks.placed_eq, hbooks.requested_eq,
    new ++ [(f, ctx.portfolio.settledQuantity f.instrument)], ?_, ?_⟩
  · rw [← List.append_assoc, ← hnew]
    rfl
  · rw [List.map_append, hfills]
    rfl

theorem Accounts.on_fill (haccounts : Accounts e h) (hbook : e.book_fill f = .ok e') :
    Accounts e' (h.on_fill f e'.context) := by
  have hmoved : ∀ i, e'.pf.settledQuantity i = net (h.booked.map Prod.fst ++ [f]) i := by
    intro i
    rw [Engine.book_fill_settled hbook, haccounts.settled_eq, net_concat]
  have hbooked : (h.on_fill f e'.context).booked =
      h.booked ++ [(f, e'.pf.settledQuantity f.instrument)] := rfl
  refine ⟨fun i => ?_, fun before b after hsplit => ?_⟩
  · rw [hmoved, hbooked, List.map_append]
    rfl
  · rw [hbooked] at hsplit
    rcases List.eq_nil_or_concat after with rfl | ⟨after, last, rfl⟩
    · obtain ⟨hbefore, hlast⟩ := List.append_inj' hsplit rfl
      cases hlast
      rw [← hbefore]
      exact hmoved f.instrument
    · rw [List.concat_eq_append, ← List.cons_append, ← List.append_assoc] at hsplit
      exact haccounts.seen before b after (List.append_inj' hsplit rfl).1

/-- Dispatching books every fill with the position it leaves. -/
theorem dispatch_books (haccounts : Accounts e h) (hdispatch : e.dispatch_fills hostStrategy h fills = .ok (e', h')) :
    Books h fills h' ∧ Accounts e' h' := by
  have hinvariant := Engine.dispatch_fills_invariant
    (I := fun e₁ h₁ rest => ∃ done, fills = done ++ rest ∧ Books h done h₁ ∧ Accounts e₁ h₁) ?_
    ⟨[], rfl, ⟨rfl, rfl, rfl, [], (List.append_nil _).symm, rfl⟩, haccounts⟩ hdispatch
  · obtain ⟨done, hdone, hbooks, hafter⟩ := hinvariant
    rw [hdone, List.append_nil]
    exact ⟨hbooks, hafter⟩
  · rintro e₁ h₁ f rest e₂ ⟨done, hdone, hbooks, hbefore⟩ hbook
    refine ⟨done ++ [f], ?_, hbooks.on_fill _, hbefore.on_fill hbook⟩
    rw [hdone, List.append_assoc]
    rfl

/-- The ledger after an event's fills. -/
theorem Ledger.absorbed (hledger : Ledger e h next) (habsorb : e.absorb now ev = .ok e')
    (hbooks : Books h (e.fillsOf now ev) h') (haccounts : Accounts e' h') : Ledger e' h' next := by
  obtain ⟨new, hnew, hfills⟩ := hbooks.booked_eq
  obtain ⟨hshrinks, -⟩ := Engine.absorb_shrinks hledger.agreed habsorb
  have hids : h'.ids = h.ids := by
    rw [HostStrategy.ids, HostStrategy.ids, hbooks.placed_eq, hbooks.inbox_eq]
  refine ⟨haccounts, Engine.agreed_absorb hledger.agreed habsorb, fun b hb => hshrinks.known _ ?_,
    fun id => ?_, hids ▸ hledger.distinct, hids ▸ hledger.numbered⟩
  · rw [hnew, List.mem_append] at hb
    rcases hb with hb | hb
    · exact hledger.known b hb
    · have hmade : b.1 ∈ e.fillsOf now ev := by
        rw [← hfills]
        exact List.mem_map_of_mem hb
      obtain ⟨p, hp, hid, -⟩ := Engine.fillsOf_made habsorb b.1 hmade
      rw [hid]
      exact hledger.agreed.known (List.mem_map_of_mem hp)
  · rw [hshrinks.filled_eq, hledger.filled_eq, hnew, List.map_append, hfills, filledBy_append]

/-- A closing order after an event's fills. -/
theorem Flattening.Tracked.absorbed (htracked : c.Tracked e h next) (hledger : Ledger e h next)
    (habsorb : e.absorb now ev = .ok e') (hbooks : Books h (e.fillsOf now ev) h') : c.Tracked e' h' next := by
  obtain ⟨new, hnew, hfills⟩ := hbooks.booked_eq
  obtain ⟨hshrinks, -⟩ := Engine.absorb_shrinks hledger.agreed habsorb
  have htake : h'.booked.take c.since = h.booked.take c.since := by
    rw [hnew, List.take_append_of_le_length htracked.since_le]
  refine ⟨htracked.closes_held, ?_, hbooks.requested_eq ▸ htracked.requested_le, htake ▸ htracked.held_eq,
    htracked.numbered, hbooks.inbox_eq ▸ htracked.queued, fun id hcloses => ?_⟩
  · have hsince := htracked.since_le
    rw [hnew, List.length_append]
    omega
  · have hworks := htracked.works id (by rwa [Flattening.Closes, hbooks.placed_eq] at hcloses)
    refine ⟨hshrinks.known id hworks.known, (hshrinks.committed_le id).trans hworks.committed_le,
      fun q hq hid => ?_, fun b hb hid => ?_, htake ▸ hworks.none_before⟩
    · obtain ⟨p, hp, hsame⟩ := hshrinks.order_of_rest q hq
      rw [hsame] at hid ⊢
      exact hworks.resting p hp hid
    · rw [hnew, List.mem_append] at hb
      rcases hb with hb | hb
      · exact hworks.booked b hb hid
      · have hmade : b.1 ∈ e.fillsOf now ev := by
          rw [← hfills]
          exact List.mem_map_of_mem hb
        obtain ⟨p, hp, hpid, hinstrument, hside⟩ := Engine.fillsOf_made habsorb b.1 hmade
        rw [hinstrument, hside]
        exact hworks.resting p hp (hpid.symm.trans hid)

/-- What an order that is alone leaves of the position it is to close. -/
theorem Flattening.kept_of_alone (hledger : Ledger e h next) (htracked : c.Tracked e h next)
    (halone : c.Alone h ((c.later h).map Prod.fst)) : c.Kept e h := by
  have hsplit : h.booked = h.booked.take c.since ++ c.later h := (List.take_append_drop _ _).symm
  have hclosing : ∀ id, c.Closes h id → ∀ b ∈ c.later h, b.1.order_id = id →
      b.1.instrument = c.request.instrument ∧ b.1.side = closingSide c.held := by
    intro id hcloses b hb hid
    rw [← htracked.closes_held.side_eq]
    exact (htracked.works id hcloses).booked b (List.mem_of_mem_drop hb) hid
  have hbound : ∀ id, c.Closes h id → filledBy (h.booked.map Prod.fst) id ≤ |c.held| := by
    intro id hcloses
    rw [← hledger.filled_eq, ← htracked.closes_held.quantity_eq]
    exact (Engine.filledOf_le_committed hledger.agreed id).trans (htracked.works id hcloses).committed_le
  refine ⟨fun b hb hcloses => ?_, fun id hcloses hdone hrequested => ?_⟩
  · -- The fills between the flatten and this one are the closing order's own, or add to the position.
    obtain ⟨before, after, hlater⟩ := List.append_of_mem hb
    have huntil : c.later h = (before ++ [b]) ++ after := by
      rw [hlater, List.append_assoc]
      rfl
    have hmem : ∀ x ∈ before ++ [b], x ∈ c.later h := fun x hx => huntil ▸ List.mem_append_left _ hx
    obtain ⟨hinstrument, -⟩ := hclosing _ hcloses b hb rfl
    have hseen := hledger.seen (h.booked.take c.since ++ before) b after (by
      rw [List.append_assoc, ← hlater]
      exact hsplit)
    have hposition : b.2 = c.held + net ((before ++ [b]).map Prod.fst) c.request.instrument := by
      rw [hseen, hinstrument, List.map_append, List.map_append, List.append_assoc, net_append,
        ← htracked.held_eq]
      rfl
    rw [hposition]
    refine held_not_reversed (c := b.1.order_id) (fun f hf hid => ?_) (fun f hf hinstr hother hside => ?_) ?_
    · obtain ⟨x, hx, rfl⟩ := List.mem_map.mp hf
      exact hclosing _ hcloses x (hmem x hx) hid
    · obtain ⟨x, hx, rfl⟩ := List.mem_map.mp hf
      rcases List.mem_append.mp hx with hx | hx
      · have hpairs := halone.1
        rw [hlater, List.map_append, List.pairwise_append] at hpairs
        refine hpairs.2.2 x.1 (List.mem_map_of_mem hx) b.1 (List.mem_map_of_mem List.mem_cons_self) hcloses ?_
        refine ⟨hinstr, hside.trans htracked.closes_held.side_eq.symm, fun hsame => hother ?_⟩
        exact hledger.one_order hsame hcloses
      · rw [List.mem_singleton.mp hx] at hother
        exact hother rfl
    · have hparts := hbound _ hcloses
      rw [hsplit, huntil, List.map_append, List.map_append, filledBy_append, filledBy_append] at hparts
      have hfirst := filledBy_nonneg ((h.booked.take c.since).map Prod.fst) b.1.order_id
      have hlast := filledBy_nonneg (after.map Prod.fst) b.1.order_id
      linarith
  · have hnone : filledBy ((h.booked.take c.since).map Prod.fst) id = 0 := by
      refine filledBy_of_forall_ne fun f hf => ?_
      obtain ⟨b, hb, rfl⟩ := List.mem_map.mp hf
      exact (htracked.works id hcloses).none_before b hb
    have hmost := hbound id hcloses
    rw [hledger.filled_eq] at hdone
    rw [hsplit, List.map_append, filledBy_append, hnone, zero_add] at hdone hmost
    have honly := halone.2 hrequested ⟨_, hcloses, rfl, hdone⟩
    rw [htracked.closes_held.quantity_eq] at hdone
    rw [hledger.settled_eq, hsplit, List.map_append, net_append, ← htracked.held_eq]
    refine held_closed (c := id) (fun f hf hid => ?_) (fun f hf hinstr => ?_) (le_antisymm hmost hdone)
      htracked.closes_held.held_ne
    · obtain ⟨b, hb, rfl⟩ := List.mem_map.mp hf
      exact hclosing id hcloses b hb hid
    · exact hledger.one_order (honly f hf hinstr) hcloses

end Fills

/-! ### Calls and events -/

/-- What is kept of a session and its closing orders between calls. -/
structure Watched.Sound (s : Watched R F) : Prop where
  keeps : Keeps s.impl.session.engine s.impl.strategy s.impl.next_request_id s.flattenings
  data : ∀ ev ∈ s.impl.session.source.events, hosted ev = true
  instruments_eq : s.impl.instruments = hostInstruments

section Queueing

variable {w w' : Impl R F} {requests : List Request} {cs : List Flattening}

theorem Impl.Queues.ids_eq_append (hqueues : w.Queues requests w') :
    w'.strategy.ids = w.strategy.ids ++ requests.map Request.request_id := by
  rw [hqueues.strategy_eq, HostStrategy.ids, HostStrategy.ids, List.map_append, List.append_assoc]

theorem Impl.Queues.ledger (hqueues : w.Queues requests w')
    (hledger : Ledger w.session.engine w.strategy w.next_request_id) :
    Ledger w'.session.engine w'.strategy w'.next_request_id := by
  have hids := hqueues.ids_eq_append
  have hbooked : w'.strategy.booked = w.strategy.booked := by rw [hqueues.strategy_eq]
  rw [hqueues.session_eq]
  refine ⟨⟨?_, ?_⟩, hledger.agreed, ?_, ?_, ?_, ?_⟩
  · rw [hbooked]
    exact hledger.settled_eq
  · rw [hbooked]
    exact hledger.seen
  · rw [hbooked]
    exact hledger.known
  · rw [hbooked]
    exact hledger.filled_eq
  · rw [hids]
    refine List.nodup_append.mpr ⟨hledger.distinct, hqueues.ids_nodup, fun old hold new hnew heq => ?_⟩
    obtain ⟨request, hmem, rfl⟩ := List.mem_map.mp hnew
    have hbefore := hledger.numbered old hold
    have hafter := (hqueues.id_bounds hmem).1
    omega
  · intro id hid
    rw [hids, List.mem_append] at hid
    rcases hid with hid | hid
    · have hbefore := hledger.numbered id hid
      have hnext := hqueues.next_eq
      omega
    · obtain ⟨request, hmem, rfl⟩ := List.mem_map.mp hid
      exact (hqueues.id_bounds hmem).2

/-- Requests that are queued are none of an earlier flatten's. -/
theorem Impl.Queues.keeps (hqueues : w.Queues requests w')
    (hkeeps : Keeps w.session.engine w.strategy w.next_request_id cs) :
    Keeps w'.session.engine w'.strategy w'.next_request_id cs := by
  have hledger := hqueues.ledger hkeeps.ledger
  have hnext := hqueues.next_eq
  have hsession := hqueues.session_eq
  have hstrategy := hqueues.strategy_eq
  refine ⟨hledger, fun c hc => ?_, fun c hc => ?_⟩
  · have htracked := hkeeps.tracked c hc
    rw [hsession]
    rw [hstrategy]
    refine ⟨htracked.closes_held, htracked.since_le, htracked.requested_le.trans (Nat.le_add_right _ _),
      htracked.held_eq, ?_, fun request hmem hid => ?_, fun id hcloses => ?_⟩
    · have hnumbered := htracked.numbered
      omega
    · rcases List.mem_append.mp hmem with hmem | hmem
      · exact htracked.queued request hmem hid
      · have hnumbered := htracked.numbered
        have hnew := (hqueues.id_bounds hmem).1
        omega
    · obtain ⟨hknown, hcommitted, hresting, hbooked, hnone⟩ := htracked.works id hcloses
      exact ⟨hknown, hcommitted, hresting, hbooked, hnone⟩
  · have hkept := hkeeps.kept c hc
    rw [hsession]
    rw [hstrategy]
    refine ⟨hkept.never_reversed, fun id hcloses hdone hrequested => ?_⟩
    refine hkept.flat id hcloses hdone (le_antisymm ?_ (hkeeps.tracked c hc).requested_le)
    rw [← hrequested]
    exact Nat.le_add_right _ _

/-- A closing order that was just queued. -/
theorem Impl.Queues.tracked_new (hqueues : w.Queues requests w')
    (hledger : Ledger w.session.engine w.strategy w.next_request_id) {request : Request}
    (hmem : request ∈ requests)
    (hcloses : request.ClosesHeld (w.session.engine.pf.settledQuantity request.instrument)) {c : Flattening}
    (hnew : c = {
      request
      held := w.session.engine.pf.settledQuantity request.instrument
      since := w.strategy.booked.length
      requested := w'.strategy.requested }) :
    c.Tracked w'.session.engine w'.strategy w'.next_request_id ∧ c.Kept w'.session.engine w'.strategy := by
  have hledger' := hqueues.ledger hledger
  have hbooked : w'.strategy.booked = w.strategy.booked := by rw [hqueues.strategy_eq]
  have hwaits : request ∈ w'.strategy.inbox := by
    rw [hqueues.strategy_eq]
    exact List.mem_append_right _ hmem
  have hunplaced : ∀ id, ¬ c.Closes w'.strategy id := fun id => by
    rw [hnew]
    exact hledger'.not_placed hwaits
  refine ⟨⟨?_, ?_, ?_, ?_, ?_, fun other hother hid => ?_, fun id hplaced => absurd hplaced (hunplaced id)⟩,
    fun b _ hplaced => absurd hplaced (hunplaced _), fun id hplaced => absurd hplaced (hunplaced id)⟩
  · rw [hnew]
    exact hcloses
  · rw [hnew, hbooked]
  · rw [hnew]
  · rw [hnew, hbooked, List.take_length]
    exact hledger.settled_eq _
  · rw [hnew]
    exact (hqueues.id_bounds hmem).2
  · rw [hnew] at hid ⊢
    have hdistinct := (List.nodup_append.mp hledger'.distinct).2.1
    exact List.inj_on_of_nodup_map hdistinct hother hwaits hid

/-- A flatten adds its closing orders to those that are kept. -/
theorem Keeps.flatten (hkeeps : Keeps w.session.engine w.strategy w.next_request_id cs)
    (hinstruments : w.instruments = hostInstruments) :
    Keeps w.enqueue_flatten.2.session.engine w.enqueue_flatten.2.strategy
      w.enqueue_flatten.2.next_request_id (cs ++ w.flattened w.enqueue_flatten.2) := by
  obtain ⟨requests, hqueues, hclosing⟩ := Impl.enqueue_flatten_only hinstruments
  have hold := hqueues.keeps hkeeps
  have hnew : ∀ c ∈ w.flattened w.enqueue_flatten.2,
      c.Tracked w.enqueue_flatten.2.session.engine w.enqueue_flatten.2.strategy
          w.enqueue_flatten.2.next_request_id ∧
        c.Kept w.enqueue_flatten.2.session.engine w.enqueue_flatten.2.strategy := by
    intro c hc
    obtain ⟨request, hmem, hflattened⟩ := List.mem_map.mp hc
    rw [hqueues.strategy_eq, List.drop_left, List.mem_filter] at hmem
    exact hqueues.tracked_new hkeeps.ledger hmem.1 (hclosing request hmem.1 (by simpa using hmem.2))
      hflattened.symm
  refine ⟨hold.ledger, fun c hc => ?_, fun c hc => ?_⟩
  · rcases List.mem_append.mp hc with hc | hc
    · exact hold.tracked c hc
    · exact (hnew c hc).1
  · rcases List.mem_append.mp hc with hc | hc
    · exact hold.kept c hc
    · exact (hnew c hc).2

end Queueing

section Events

variable {fmt : DoubleFormat Rat} {fs : IFileSystem F} {w w' : Impl R F} {s t : Watched R F}

/-- A replay delivers the events it was built over. -/
theorem next_event_mem {source q : ReplaySource} {clock now : Timestamp} {ev : MarketEvent}
    (hnext : source.next_event clock = .ok (some (ev, q, now))) :
    ev ∈ source.events ∧ q.events = source.events := by
  unfold ReplaySource.next_event at hnext
  split at hnext
  · cases hnext
  · rename_i hevent
    split at hnext
    · cases hnext
    · cases hnext
      exact ⟨List.mem_of_getElem? hevent, rfl⟩

/-- An event of a session is one event of the replay through the engine. -/
theorem Impl.event_ok (hevent : w.event fmt fs = some w') :
    ∃ ev q now e risk, w.session.source.next_event w.session.engine.clock = .ok (some (ev, q, now)) ∧
      w.session.engine.handle hostStrategy w.strategy now ev = .ok (e, w'.strategy) ∧
      w'.session.engine = { e with risk } ∧ w'.session.source = q ∧ w'.instruments = w.instruments ∧
      w'.next_request_id = w.next_request_id := by
  unfold Impl.event paper.PaperSession.next at hevent
  split at hevent
  · rename_i session strategy hnext
    cases hevent
    split at hnext
    · cases hnext
    · split at hnext
      · cases hnext
      · cases hnext
      · rename_i made world hstep
        have hworld := World.next_of_step hstep
        split at hnext
        · cases hnext
        · rename_i hbetween
          cases hnext
          have hrests := paper.PaperSession.between_rests hbetween
          obtain ⟨risk, hengine⟩ := hrests.engine_eq
          unfold World.next at hworld
          split at hworld
          · cases hworld
          · cases hworld
          · rename_i ev q now harrived
            split at hworld
            · cases hworld
            · rename_i hhandle
              cases hworld
              exact ⟨ev, q, now, _, risk, harrived, hhandle, hengine, hrests.source_eq, rfl, rfl⟩
  · cases hevent

theorem hosted_plain {ev : MarketEvent} (hhosted : hosted ev = true) :
    MarketEvent.isCorporateAction ev = false := by
  cases ev with
  | corporateAction c => cases hhosted
  | bar bar => rfl
  | quote q => cases hhosted
  | trade t => cases hhosted
  | session ev => rfl
  | timer t => cases hhosted

/-- Only a bar calls the strategy back. -/
theorem Keeps.respond {e : Engine R} {h : HostStrategy} {next : Nat} {cs : List Flattening} {ev : MarketEvent}
    (hkeeps : Keeps e h next cs) (hhosted : hosted ev = true) :
    Keeps (e.callback (hostStrategy.respond h ev)).1 (e.callback (hostStrategy.respond h ev)).2 next cs := by
  cases ev with
  | bar bar => exact hkeeps.on_bar
  | session ev =>
    simp only [IStrategy.respond, hostStrategy]
    cases ev.kind <;> exact hkeeps
  | quote q => cases hhosted
  | trade t => cases hhosted
  | corporateAction c => cases hhosted
  | timer t => cases hhosted

/-- Closing orders that are alone in the fills of an event are kept when those are
booked. -/
theorem Keeps.absorbed {e e' : Engine R} {h h' : HostStrategy} {next : Nat} {cs : List Flattening}
    {now : Timestamp} {ev : MarketEvent} (hkeeps : Keeps e h next cs)
    (halone : ∀ c ∈ cs, c.Alone h ((c.later h).map Prod.fst ++ e.fillsOf now ev))
    (habsorb : e.absorb now ev = .ok e') (hbooks : Books h (e.fillsOf now ev) h')
    (haccounts : Accounts e' h') : Keeps e' h' next cs := by
  have hledger := hkeeps.ledger.absorbed habsorb hbooks haccounts
  have htracked : ∀ c ∈ cs, c.Tracked e' h' next :=
    fun c hc => (hkeeps.tracked c hc).absorbed hkeeps.ledger habsorb hbooks
  refine ⟨hledger, htracked, fun c hc => Flattening.kept_of_alone hledger (htracked c hc) ?_⟩
  obtain ⟨new, hnew, hmade⟩ := hbooks.booked_eq
  have hlater : (c.later h').map Prod.fst = (c.later h).map Prod.fst ++ e.fillsOf now ev := by
    rw [Flattening.later, hnew, List.drop_append_of_le_length (hkeeps.tracked c hc).since_le, List.map_append,
      hmade]
    rfl
  have hsame := halone c hc
  rw [← hlater] at hsame
  unfold Flattening.Alone Flattening.Opposes Flattening.Closes at hsame ⊢
  rw [hbooks.placed_eq, hbooks.requested_eq]
  exact hsame

/-- What is kept is kept through an event at which every closing order is alone. -/
theorem Keeps.handle {e e' : Engine R} {h h' : HostStrategy} {next : Nat} {cs : List Flattening}
    {now : Timestamp} {ev : MarketEvent} (hkeeps : Keeps e h next cs) (hhosted : hosted ev = true)
    (halone : ∀ c ∈ cs, c.Alone h ((c.later h).map Prod.fst ++ e.fillsOf now ev))
    (hhandle : e.handle hostStrategy h now ev = .ok (e', h')) : Keeps e' h' next cs := by
  obtain ⟨fills, matched, e₁, h₁, hmatch, hdispatch, hsettle, hcallback⟩ := Engine.handle_dispatches hhandle
  have hfills : e.fillsOf now ev = fills := by
    rw [Engine.fillsOf, hmatch]
    rfl
  have hmatched : Accounts matched h := by
    refine ⟨fun i => ?_, hkeeps.ledger.seen⟩
    exact (Engine.matched_settled hmatch (hosted_plain hhosted) i).trans (hkeeps.ledger.settled_eq i)
  obtain ⟨hbooks, haccounts⟩ := dispatch_books hmatched hdispatch
  rw [← hfills] at hbooks
  have hbooked := hkeeps.absorbed halone (Engine.absorb_of_dispatch hmatch hdispatch) hbooks haccounts
  have hcalled := hbooked.respond hhosted
  have hsettles := Engine.settle_settles hsettle
  rw [hcallback] at hcalled
  refine (Idles.of_same (fun hagreed => ?_) (Engine.settle_shrinks hsettle)
    (Engine.settle_settled hsettle)).keeps hcalled
  rw [Engine.Agreed, hsettles.oms_eq, hsettles.broker_eq]
  exact hagreed

theorem Watched.Sound.queued (hsound : s.Sound) {requests : List Request}
    (hqueues : s.impl.Queues requests w') : Watched.Sound { s with impl := w' } where
  keeps := hqueues.keeps hsound.keeps
  data := by
    rw [hqueues.session_eq]
    exact hsound.data
  instruments_eq := hqueues.instruments_eq.trans hsound.instruments_eq

theorem Watched.Sound.step {call : HostCall} (hsound : s.Sound) (hguard : s.ClosesAlone call)
    (hstep : s.step fmt fs call = some t) : t.Sound := by
  cases call with
  | submit_order request =>
    cases hstep
    obtain ⟨requests, hqueues, -⟩ := s.impl.enqueue_order_only request
    exact hsound.queued hqueues
  | cancel_order order_id =>
    cases hstep
    obtain ⟨requests, hqueues, -⟩ := s.impl.enqueue_cancel_only order_id
    exact hsound.queued hqueues
  | cancel_all =>
    cases hstep
    obtain ⟨requests, hqueues, -⟩ := s.impl.enqueue_cancel_all_only
    exact hsound.queued hqueues
  | flatten =>
    cases hstep
    obtain ⟨requests, hqueues, -⟩ := Impl.enqueue_flatten_only hsound.instruments_eq
    obtain ⟨-, hdata, hinstruments⟩ := hsound.queued hqueues
    exact ⟨hsound.keeps.flatten hsound.instruments_eq, hdata, hinstruments⟩
  | set_halted halted =>
    cases hstep
    exact ⟨hsound.keeps.of_strategy rfl rfl rfl le_rfl, hsound.data, hsound.instruments_eq⟩
  | event =>
    obtain ⟨w', hevent, rfl⟩ := Option.map_eq_some_iff.mp hstep
    obtain ⟨ev, q, now, e, risk, hnext, hhandle, hengine, hsource, hinstruments, hnumber⟩ := Impl.event_ok hevent
    obtain ⟨hmem, hevents⟩ := next_event_mem hnext
    have halone : ∀ c ∈ s.flattenings, c.Alone s.impl.strategy
        ((c.later s.impl.strategy).map Prod.fst ++ s.impl.session.engine.fillsOf now ev) := by
      intro c hc
      have hcalm := hguard c hc
      rwa [Impl.upcoming_fills, hnext] at hcalm
    have hkeeps := hsound.keeps.handle (hsound.data ev hmem) halone hhandle
    refine ⟨?_, ?_, hinstruments.trans hsound.instruments_eq⟩
    · dsimp only
      rw [hnumber, hengine]
      have hrested : Idles e w'.strategy { e with risk } w'.strategy :=
        .of_same id (.of_same rfl fun _ => rfl) fun _ => rfl
      exact hrested.keeps hkeeps
    · dsimp only
      rw [hsource, hevents]
      exact hsound.data

theorem Watched.Initial.sound (hinitial : s.Initial) : s.Sound := by
  obtain ⟨⟨e, hfresh, hengine⟩, hdata, hstrategy, hinstruments, hnone⟩ := hinitial
  refine ⟨⟨?_, ?_, ?_⟩, hdata, hinstruments⟩
  · rw [hengine, hstrategy]
    refine ⟨⟨fun i => ?_, fun before b after hsplit => ?_⟩, ?_, fun b hb => absurd hb List.not_mem_nil,
      fun id => ?_, List.nodup_nil, fun id hid => absurd hid List.not_mem_nil⟩
    · rw [Engine.begun, hfresh.portfolio_new]
      rfl
    · exact absurd hsplit.symm (by simp)
    · rw [Engine.Agreed, Engine.begun, hfresh.pending_empty]
      exact ⟨List.nodup_nil, fun p hp => absurd hp List.not_mem_nil⟩
    · rw [Engine.filledOf, Engine.begun, hfresh.oms_empty]
      rfl
  · rw [hnone]
    exact fun c hc => absurd hc List.not_mem_nil
  · rw [hnone]
    exact fun c hc => absurd hc List.not_mem_nil

end Events

/-- In a run whose events find every closing order alone, no flatten ever reverses
a position, and what it closes is flat when its order has filled. -/
theorem flattenMachine_flattens {fmt : DoubleFormat Rat} {fs : IFileSystem F} {s : Watched R F}
    (hreach : (flattenMachine fmt fs R).Reaches Watched.ClosesAlone s) : s.Flattens := by
  have hsound : s.Sound := hreach.invariant (I := Watched.Sound) (fun s hinitial => Watched.Initial.sound hinitial)
    fun s call t _ hsound hguard hstep => hsound.step hguard hstep
  exact hsound.keeps.kept

/-! ### One flatten, and two -/

instance (c : Flattening) (h : HostStrategy) (id : OrderId) : Decidable (c.Closes h id) :=
  inferInstanceAs (Decidable (_ ∈ h.placed))

instance (c : Flattening) (h : HostStrategy) (f : Fill) : Decidable (c.Opposes h f) :=
  inferInstanceAs (Decidable (_ ∧ _ ∧ _))

instance (c : Flattening) (h : HostStrategy) (fills : List Fill) : Decidable (c.Alone h fills) :=
  inferInstanceAs (Decidable (fills.Pairwise (fun g f => c.Closes h f.order_id → ¬ c.Opposes h g) ∧
    (h.requested = c.requested →
      (∃ x ∈ h.placed, x.1 = c.request.request_id ∧ c.request.quantity ≤ filledBy fills x.2) →
        ∀ f ∈ fills, f.instrument = c.request.instrument → c.Closes h f.order_id)))

instance (s : Watched R F) : (call : HostCall) → Decidable (s.ClosesAlone call)
  | .event => inferInstanceAs (Decidable (∀ c ∈ s.flattenings,
      c.Alone s.impl.strategy ((c.later s.impl.strategy).map Prod.fst ++ s.impl.upcoming_fills)))
  | .submit_order _ | .cancel_order _ | .cancel_all | .flatten | .set_halted _ => isTrue trivial

/-- Bars of a thousand shares, one after another. -/
def fiveBars : List MarketEvent :=
  [0, 2000000, 4000000, 6000000, 8000000].filterMap fun time =>
    ((flatBar 0 time 100 1000).toOption).map MarketEvent.bar

theorem fiveBars_replay : (ReplaySource.create fiveBars (some 0)).toOption.isSome = true := by
  decide +kernel

/-- A session in memory over those bars, just started. -/
def barSession : Watched Unit (List (String × String)) where
  impl := {
    session := paper.flatPaper fiveBars { persist_every_events := 0, daily_reset := false } fiveBars_replay
    instruments := hostInstruments }

/-- The runs of that session. -/
abbrev barMachine : Machine (Watched Unit (List (String × String))) HostCall :=
  flattenMachine wholeDoubles memoryFiles Unit

theorem barSession_reached {G : Watched Unit (List (String × String)) → HostCall → Prop} :
    barMachine.Reaches G barSession := by
  refine .init ⟨⟨_, ⟨rfl, rfl, rfl, rfl⟩, rfl⟩, ?_, rfl, rfl, rfl⟩
  decide +kernel

/-- An order of the user. -/
def userOrder (side : Int) (quantity : Rat) : HostCall := .submit_order { symbol := "SPY", side, quantity }

/-- What was held when each flatten was asked for, and what is held now. -/
def heldBy (s : Watched Unit (List (String × String))) : List Qty × Qty :=
  (s.flattenings.map Flattening.held, s.impl.session.engine.pf.settledQuantity 0)

/-- Ten shares are bought and flattened. -/
theorem flattenMachine_flattens_once :
    ∃ s, barMachine.Reachable s ∧ heldBy s = ([10], 0) ∧ s.Flattens := by
  obtain ⟨s, hreach, hheld⟩ := barSession_reached.exec_map (G := Watched.ClosesAlone)
    [userOrder 1 10, .event, .event, .flatten, .event, .event] heldBy (b := ([10], 0))
    (by decide +kernel) (by decide +kernel)
  exact ⟨s, hreach.reachable, hheld, flattenMachine_flattens hreach⟩

/-- Some fill of a closing order left a position on the other side. -/
def Watched.reversed (s : Watched Unit (List (String × String))) : Bool :=
  s.flattenings.any fun c => (c.later s.impl.strategy).any fun b =>
    decide (c.Closes s.impl.strategy b.1.order_id) && decide (c.held * b.2 < 0)

/-- A closing order has filled, nothing was asked for after its flatten, and
something is held. -/
def Watched.unflat (s : Watched Unit (List (String × String))) : Bool :=
  s.flattenings.any fun c => s.impl.strategy.placed.any fun x =>
    decide (c.Closes s.impl.strategy x.2) &&
      decide (c.request.quantity ≤ s.impl.session.engine.filledOf x.2 ∧
        s.impl.strategy.requested = c.requested ∧
          s.impl.session.engine.pf.settledQuantity c.request.instrument ≠ 0)

/-- Two flattens before the next bar read the same ten shares, and the second
sells ten that are gone. A buy that was queued when the flatten was asked for
fills all the same, and is still held when the closing order has filled. -/
theorem flattenMachine_reverses :
    (∃ s, barMachine.Reachable s ∧ s.reversed = true ∧ heldBy s = ([10, 10], -10) ∧ ¬ s.Flattens) ∧
      ∃ s, barMachine.Reachable s ∧ s.unflat = true ∧ heldBy s = ([10], 5) ∧ ¬ s.Flattens := by
  have htrivial := Machine.along_of_forall (M := barMachine) (G := fun _ _ => True) (fun _ _ => trivial)
  constructor
  · obtain ⟨s, hreach, hshown⟩ := barSession_reached.exec_map
      [userOrder 1 10, .event, .event, .flatten, .flatten, .event, .event]
      (fun s => (s.reversed, heldBy s)) (b := (true, [10, 10], -10)) (htrivial _ _) (by decide +kernel)
    obtain ⟨hreversed, hheld⟩ := Prod.mk.inj hshown
    refine ⟨s, hreach, hreversed, hheld, fun hflattens => ?_⟩
    simp only [Watched.reversed, List.any_eq_true, Bool.and_eq_true, decide_eq_true_eq] at hreversed
    obtain ⟨c, hc, b, hb, hcloses, hnegative⟩ := hreversed
    exact absurd ((hflattens c hc).never_reversed b hb hcloses) (not_le.mpr hnegative)
  · obtain ⟨s, hreach, hshown⟩ := barSession_reached.exec_map
      [userOrder 1 10, .event, .event, userOrder 1 5, .flatten, .event, .event]
      (fun s => (s.unflat, heldBy s)) (b := (true, [10], 5)) (htrivial _ _) (by decide +kernel)
    obtain ⟨hunflat, hheld⟩ := Prod.mk.inj hshown
    refine ⟨s, hreach, hunflat, hheld, fun hflattens => ?_⟩
    simp only [Watched.unflat, List.any_eq_true, Bool.and_eq_true, decide_eq_true_eq] at hunflat
    obtain ⟨c, hc, x, -, hcloses, hdone, hrequested, hopen⟩ := hunflat
    exact hopen ((hflattens c hc).flat x.2 hcloses hdone hrequested)

end ptl_host
