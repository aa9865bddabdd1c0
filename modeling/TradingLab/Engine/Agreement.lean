import TradingLab.Engine.Moves
import TradingLab.Execution.Broker.Agreement

open ptl.oms ptl.portfolio ptl.market ptl.risk ptl.execution ptl.accounting

set_option linter.dupNamespace false

namespace ptl.engine

variable {R Q : Type} {source : IMarketDataSource Q}

/-- Booked fills leave the order manager as applying them does. -/
theorem Engine.book_fills_oms {e e' : Engine R} {fs : List Fill} (hbook : e.book_fills fs = .ok e') :
    e'.oms = applyAll e.oms fs := by
  have hinvariant := Engine.book_fills_invariant
    (I := fun e₁ rest => applyAll e₁.oms rest = applyAll e.oms fs) ?_ rfl hbook
  · exact hinvariant
  · intro e₁ f rest e₂ hsame hfirst
    obtain ⟨⟨rec, hrec, haccepts, homs⟩, -, -⟩ := Engine.book_fill_ok hfirst
    rw [← hsame, homs]
    simp only [applyAll, List.foldl_cons, OrderManager.apply_fill_accepted hrec haccepts]

/-- An event that reaches the venue leaves the two books as the loop and its
fills do; any other leaves them alone. -/
theorem Engine.absorb_books {e e' : Engine R} {now : Timestamp} {ev : MarketEvent}
    (habsorb : e.absorb now ev = .ok e') :
    (∃ call fs, e.marketCall ev = some call ∧
      Matched e.broker.costs e.broker.fill_cfg call.instrument call.state call.now
        (call.state.interval_volume * e.broker.fill_cfg.max_participation_rate) e.broker.slippage_rng
        e.broker.pending fs e'.broker.pending ∧
      e'.oms = applyAll e.oms fs) ∨
    (e'.oms = e.oms ∧ e'.broker = e.broker) := by
  obtain ⟨call, fs, e₁, hcall, hfills, hbroker, -, hmatches, hbook⟩ | ⟨-, hbroker, -, hmatches⟩ :=
    Engine.absorb_cases habsorb
  · refine .inl ⟨call, fs, hcall, ?_, ?_⟩
    · rw [Engine.book_fills_broker hbook, hbroker]
      exact BrokerSimulator.on_market_matched hfills
    · rw [Engine.book_fills_oms hbook, hmatches.oms_eq]
  · exact .inr ⟨hmatches.oms_eq, hbroker⟩

def Engine.Agreed (e : Engine R) : Prop := Agrees e.oms e.broker.pending

theorem Engine.agreed_absorb {e e' : Engine R} {now : Timestamp} {ev : MarketEvent} (hagreed : e.Agreed)
    (habsorb : e.absorb now ev = .ok e') : e'.Agreed := by
  obtain ⟨call, fs, -, hmatched, homs⟩ | ⟨homs, hbroker⟩ := Engine.absorb_books habsorb
  · rw [Engine.Agreed, homs]
    exact (hmatched.agrees hagreed).2.1
  · rw [Engine.Agreed, homs, hbroker]
    exact hagreed

theorem Engine.agreed_submit {e : Engine R} (hagreed : e.Agreed) (order : Order) :
    (e.submit order).2.Agreed := by
  have hfresh : e.oms.submitError (e.priced order) = none →
      (e.priced order).id ∉ idsOf e.broker.pending := by
    intro hnew hmem
    obtain ⟨p, hp, hid⟩ := List.mem_map.mp hmem
    obtain ⟨rec, hrec, -⟩ := hagreed.backed p hp
    rw [hid, OrderManager.fresh_of_submitError hnew] at hrec
    cases hrec
  obtain ⟨-, heq⟩ | ⟨-, -, heq⟩ | ⟨-, hnew, err, herror, heq⟩ | ⟨-, hnew, arrival, hok, heq⟩ :=
    e.submit_cases order
  · rw [heq]
    exact hagreed
  · rw [heq]
    exact hagreed
  · rw [heq]
    simp only [Engine.Agreed, BrokerSimulator.submit_error herror]
    refine hagreed.congr fun id hid => ?_
    rw [OrderManager.rejected_lookup hnew, if_neg]
    rintro rfl
    exact hfresh hnew hid
  · rw [heq]
    obtain ⟨stamped, hstamped, hdecision, hpending⟩ := BrokerSimulator.submit_ok hok
    have hid : stamped.id = (e.priced order).id := (Order.with_arrival_ok hstamped).1
    simp only [Engine.Agreed, Engine.accepted, hpending]
    refine ⟨?_, fun p hp => ?_⟩
    · simp only [idsOf, List.map_append, List.map_cons, List.map_nil, hid]
      refine List.nodup_append.mpr ⟨hagreed.distinct, List.nodup_singleton _, fun a ha b hb heq => ?_⟩
      rw [heq, List.mem_singleton.mp hb] at ha
      exact hfresh hnew ha
    · rw [OrderManager.working_lookup hnew]
      rcases List.mem_append.mp hp with hp | hp
      · have hother : (e.priced order).id ≠ p.order.id := fun heq => by
          rw [heq] at hfresh
          exact hfresh hnew (List.mem_map_of_mem hp)
        rw [if_neg hother]
        exact hagreed.backed p hp
      · rw [List.mem_singleton.mp hp, if_pos hid.symm]
        exact ⟨_, rfl, backs_new hstamped hdecision⟩

theorem Engine.agreed_cancel {e : Engine R} (hagreed : e.Agreed) (id : OrderId) :
    (e.cancel id).2.Agreed := by
  obtain ⟨-, heq⟩ | ⟨⟨p, hp, hid⟩, heq⟩ := e.cancel_cases id
  · rw [heq]
    exact hagreed
  · rw [heq]
    obtain ⟨rec, hrec, hbacks⟩ := hagreed.backed p hp
    rw [hid] at hrec
    refine ⟨hagreed.distinct.sublist ((List.eraseP_sublist).map _), fun q hq => ?_⟩
    obtain ⟨hmem, hne⟩ := mem_eraseP_ids hagreed.distinct q hq
    rw [OrderManager.cancel_lookup hrec hbacks.live, if_neg (Ne.symm hne)]
    exact hagreed.backed q hmem

/-- In every reachable state the manager agrees on the orders the venue
works. -/
theorem engineMachine_agreed {s : Session R Q}
    (hreach : (engineMachine R source).Reachable s) :
    s.engine.Agreed := by
  refine hreach.invariant (I := fun s => s.engine.Agreed) ?_ ?_
  · intro s hinitial
    rw [Engine.Agreed, hinitial.fresh.pending_empty]
    exact ⟨List.nodup_nil, fun p hp => absurd hp List.not_mem_nil⟩
  · intro s a t _ hagreed _ hstep
    obtain ⟨ev, q, now, e, -, -, -, habsorb, rfl⟩ | ⟨order, -, rfl⟩ | ⟨id, -, rfl⟩ | ⟨-, rfl⟩ |
      ⟨ev, e, -, -, hsettle, rfl⟩ := Session.step_cases hstep
    · exact Engine.agreed_absorb hagreed habsorb
    · exact Engine.agreed_submit hagreed order
    · exact Engine.agreed_cancel hagreed id
    · exact hagreed.congr fun id _ => rfl
    · have hsettles := Engine.settle_settles hsettle
      rw [Engine.Agreed, hsettles.oms_eq, hsettles.broker_eq]
      exact hagreed

/-- Every live order of the manager is one the venue works. -/
def Engine.Covered (e : Engine R) : Prop :=
  ∀ id rec, e.oms.records[id]? = some rec → is_terminal rec.state = false →
    id ∈ idsOf e.broker.pending

/-- The event about to arrive makes the venue drop no order early. -/
def Session.KeepsUnfinished (source : IMarketDataSource Q) (s : Session R Q) : Action → Prop
  | .arrive => ∀ ev ∈ s.upcoming source, ∀ call ∈ s.engine.marketCall ev,
      ∀ v ∈ s.engine.broker.visits call.instrument call.state call.now, ¬ v.DropsEarly
  | _ => True

theorem Engine.covered_absorb {e e' : Engine R} {now : Timestamp} {ev : MarketEvent}
    (hagreed : e.Agreed) (hcovered : e.Covered)
    (hkeeps : ∀ call ∈ e.marketCall ev,
      ∀ v ∈ e.broker.visits call.instrument call.state call.now, ¬ v.DropsEarly)
    (habsorb : e.absorb now ev = .ok e') : e'.Covered := by
  obtain ⟨call, fs, hcall, hmatched, homs⟩ | ⟨homs, hbroker⟩ := Engine.absorb_books habsorb
  · intro id rec hrec hlive
    rw [homs] at hrec
    by_cases hworking : id ∈ idsOf e.broker.pending
    · exact hmatched.live_kept hagreed (hkeeps call hcall) id hworking rec hrec hlive
    · rw [(hmatched.agrees hagreed).2.2 id hworking] at hrec
      exact absurd (hcovered id rec hrec hlive) hworking
  · rw [Engine.Covered, homs, hbroker]
    exact hcovered

theorem Engine.covered_submit {e : Engine R} (hcovered : e.Covered) (order : Order) :
    (e.submit order).2.Covered := by
  obtain ⟨-, heq⟩ | ⟨-, -, heq⟩ | ⟨-, hnew, err, herror, heq⟩ | ⟨-, hnew, arrival, hok, heq⟩ :=
    e.submit_cases order
  · rw [heq]
    exact hcovered
  · rw [heq]
    exact hcovered
  · rw [heq]
    simp only [Engine.Covered, BrokerSimulator.submit_error herror]
    intro id rec hrec hlive
    rw [OrderManager.rejected_lookup hnew] at hrec
    split at hrec
    · cases hrec
      cases hlive
    · exact hcovered id rec hrec hlive
  · rw [heq]
    obtain ⟨stamped, hstamped, -, hpending⟩ := BrokerSimulator.submit_ok hok
    have hid : stamped.id = (e.priced order).id := (Order.with_arrival_ok hstamped).1
    simp only [Engine.Covered, Engine.accepted, hpending, idsOf, List.map_append, List.mem_append]
    intro id rec hrec hlive
    rw [OrderManager.working_lookup hnew] at hrec
    split at hrec
    · rename_i hsame
      refine .inr ?_
      rw [← hsame, ← hid]
      exact List.mem_singleton_self _
    · exact .inl (hcovered id rec hrec hlive)

theorem Engine.covered_cancel {e : Engine R} (hagreed : e.Agreed) (hcovered : e.Covered) (id : OrderId) :
    (e.cancel id).2.Covered := by
  obtain ⟨-, heq⟩ | ⟨⟨p, hp, hid⟩, heq⟩ := e.cancel_cases id
  · rw [heq]
    exact hcovered
  · rw [heq]
    obtain ⟨rec, hrec, hbacks⟩ := hagreed.backed p hp
    rw [hid] at hrec
    intro other rec' hrec' hlive
    dsimp only at hrec' ⊢
    rw [OrderManager.cancel_lookup hrec hbacks.live] at hrec'
    split at hrec'
    · cases hrec'
      cases hlive
    · rename_i hne
      obtain ⟨q, hq, hother⟩ := List.mem_map.mp (hcovered other rec' hrec' hlive)
      refine List.mem_map.mpr ⟨q, ?_, hother⟩
      refine (List.mem_eraseP_of_neg (p := fun p : PendingOrder => p.order.id = id) ?_).mpr hq
      simpa [hother] using Ne.symm hne

theorem engineMachine_covered {s : Session R Q}
    (hreach : (engineMachine R source).Reaches (Session.KeepsUnfinished source) s) : s.engine.Covered := by
  refine hreach.invariant (I := fun s => s.engine.Covered) ?_ ?_
  · intro s hinitial id rec hrec
    rw [hinitial.fresh.oms_empty] at hrec
    cases hrec
  · intro s a t hreached hcovered hkeeps hstep
    have hagreed := engineMachine_agreed hreached.reachable
    obtain ⟨ev, q, now, e, rfl, -, hnext, habsorb, rfl⟩ | ⟨order, -, rfl⟩ | ⟨id, -, rfl⟩ | ⟨-, rfl⟩ |
      ⟨ev, e, -, -, hsettle, rfl⟩ := Session.step_cases hstep
    · exact Engine.covered_absorb hagreed hcovered (hkeeps ev (Session.upcoming_of_next hnext)) habsorb
    · exact Engine.covered_submit hcovered order
    · exact Engine.covered_cancel hagreed hcovered id
    · exact hcovered
    · have hsettles := Engine.settle_settles hsettle
      rw [Engine.Covered, hsettles.oms_eq, hsettles.broker_eq]
      exact hcovered

/-- In a run where no event makes the venue drop an order early, the two books
agree: an order of the manager is live exactly when the venue works it, and
then both have filled as much of it. -/
theorem engineMachine_books_agree {s : Session R Q}
    (hreach : (engineMachine R source).Reaches (Session.KeepsUnfinished source) s)
    {id : OrderId} {rec : OrderRecord} (hrec : s.engine.oms.records[id]? = some rec) :
    (is_terminal rec.state = false ↔ ∃ p ∈ s.engine.broker.pending, p.order.id = id) ∧
      ∀ p ∈ s.engine.broker.pending, p.order.id = id → rec.filled_quantity = p.filled := by
  have hagreed := engineMachine_agreed hreach.reachable
  have hbacked : ∀ p ∈ s.engine.broker.pending, p.order.id = id → Backs rec p := by
    rintro p hp rfl
    obtain ⟨rec', hrec', hbacks⟩ := hagreed.backed p hp
    rw [hrec] at hrec'
    cases hrec'
    exact hbacks
  refine ⟨⟨fun hlive => ?_, ?_⟩, fun p hp hid => (hbacked p hp hid).filled_eq⟩
  · exact List.mem_map.mp (engineMachine_covered hreach id rec hrec hlive)
  · rintro ⟨p, hp, hid⟩
    exact (hbacked p hp hid).live

/-- The state of the first order, and the ids the venue works. -/
def firstOrder (s : Session Unit Q) : Option OrderState × List OrderId :=
  ((s.engine.oms.records[(1 : OrderId)]?).map OrderRecord.state, idsOf s.engine.broker.pending)

instance (s : Session R Q) : (a : Action) → Decidable (s.KeepsUnfinished source a)
  | .arrive => inferInstanceAs (Decidable (∀ ev ∈ s.upcoming source, ∀ call ∈ s.engine.marketCall ev,
      ∀ v ∈ s.engine.broker.visits call.instrument call.state call.now, ¬ v.DropsEarly))
  | .submit _ | .cancel _ | .next_order_id | .settle => isTrue trivial

/-- Five of ten shares are filled and the rest keeps working on both sides. -/
theorem engineMachine_books_agree_partial :
    ∃ s, (engineMachine Unit replay).Reachable s ∧
      ∃ rec, s.engine.oms.records[(1 : OrderId)]? = some rec ∧ rec.state = .PartiallyFilled ∧
      (is_terminal rec.state = false ↔ ∃ p ∈ s.engine.broker.pending, p.order.id = 1) ∧
      ∀ p ∈ s.engine.broker.pending, p.order.id = 1 → rec.filled_quantity = p.filled := by
  obtain ⟨s, hreach, hfirst⟩ := (flatSession_reached (G := Session.KeepsUnfinished replay)
    [barOf 0 1000, barOf 2000000 100] {} {} (by decide +kernel)).exec_map
    [.arrive, .submit dayBuy, .settle, .arrive] firstOrder (b := (some .PartiallyFilled, [1]))
    (by decide +kernel) (by decide +kernel)
  obtain ⟨rec, hrec, hstate⟩ := Option.map_eq_some_iff.mp (congrArg Prod.fst hfirst)
  exact ⟨s, hreach.reachable, rec, hrec, hstate, engineMachine_books_agree hreach hrec⟩

/-- A dead order that stays live in the manager: half of an
immediate-or-cancel order is filled, the venue drops the rest, and nobody tells
the manager. -/
theorem engineMachine_dead_order :
    ∃ s, (engineMachine Unit replay).Reachable s ∧
      ∃ rec, s.engine.oms.records[(1 : OrderId)]? = some rec ∧ is_terminal rec.state = false ∧
        ¬ ∃ p ∈ s.engine.broker.pending, p.order.id = 1 := by
  obtain ⟨s, hreach, hfirst⟩ := (flatSession_reached
    [barOf 0 1000, barOf 2000000 100] {} {} (by decide +kernel)).exec_map
    [.arrive, .submit immediateBuy, .settle, .arrive] firstOrder (b := (some .PartiallyFilled, []))
    (Machine.along_of_forall (fun _ _ => trivial) _ _) (by decide +kernel)
  obtain ⟨rec, hrec, hstate⟩ := Option.map_eq_some_iff.mp (congrArg Prod.fst hfirst)
  have hnone : idsOf s.engine.broker.pending = [] := congrArg Prod.snd hfirst
  refine ⟨s, hreach, rec, hrec, by rw [hstate]; rfl, ?_⟩
  rintro ⟨p, hp, -⟩
  have hmem : p.order.id ∈ idsOf s.engine.broker.pending := List.mem_map_of_mem hp
  rw [hnone] at hmem
  cases hmem

end ptl.engine
