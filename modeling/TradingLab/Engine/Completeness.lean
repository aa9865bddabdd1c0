import TradingLab.Engine.Agreement

open ptl.oms ptl.portfolio ptl.market ptl.risk ptl.execution ptl.accounting

namespace ptl.oms

/-- The manager knows the order, and the venue did not refuse it. -/
def OrderManager.took (m : OrderManager) (id : OrderId) : Bool :=
  (m.records[id]?).any fun rec => rec.state ≠ .Rejected

theorem OrderManager.took_rejected {m : OrderManager} {order : Order} (hnew : m.submitError order = none)
    (reason : String) (id : OrderId) :
    ((m.submit order).2.transition order.id .Rejected reason).2.took id = m.took id := by
  rw [OrderManager.took, OrderManager.took, OrderManager.rejected_lookup hnew]
  split
  · rename_i hsame
    rw [← hsame, OrderManager.fresh_of_submitError hnew]
    rfl
  · rfl

theorem OrderManager.took_working {m : OrderManager} {order : Order} (hnew : m.submitError order = none)
    (id : OrderId) :
    (((m.submit order).2.transition order.id .PendingNew).2.transition order.id .Working).2.took id =
      if order.id = id then true else m.took id := by
  rw [OrderManager.took, OrderManager.took, OrderManager.working_lookup hnew]
  split <;> rfl

theorem not_rejected_of_live {s : OrderState} (hlive : is_terminal s = false) : s ≠ .Rejected := by
  rintro rfl
  cases hlive

theorem OrderManager.took_fill {m : OrderManager} {f : Fill} {rec : OrderRecord}
    (hrec : m.records[f.order_id]? = some rec) (haccepts : rec.Accepts f) (id : OrderId) :
    OrderManager.took { m with records := m.records.insert f.order_id (rec.after_fill f) } id =
      m.took id := by
  rw [OrderManager.took, OrderManager.took, Table.getElem?_insert_eq_ite]
  split
  · rename_i hsame
    have hafter : (rec.after_fill f).state ≠ .Rejected := by
      rw [OrderRecord.after_fill_state]
      split <;> simp
    rw [← hsame, hrec]
    simp [hafter, not_rejected_of_live haccepts.live]
  · rfl

theorem OrderManager.took_cancel {m : OrderManager} {id : OrderId} {rec : OrderRecord}
    (hrec : m.records[id]? = some rec) (hlive : is_terminal rec.state = false) (other : OrderId) :
    (m.transition id .Cancelled "strategy cancel").2.took other = m.took other := by
  rw [OrderManager.took, OrderManager.took, OrderManager.cancel_lookup hrec hlive]
  split
  · rename_i hsame
    rw [← hsame, hrec]
    simp [not_rejected_of_live hlive]
  · rfl

end ptl.oms

namespace ptl.execution

variable {R : Type} {costs : ICostModel R} {cfg : FillConfig} {instrument : InstrumentId}
  {state : MarketState} {now : Timestamp}

/-- Fills bear the time of the call, and there are none without an order that
is executed. -/
theorem Matched.stamped {budget : Rat} {rng : R} {ps rest : List PendingOrder} {fs : List Fill}
    (hmatched : Matched costs cfg instrument state now budget rng ps fs rest) :
    ∀ f ∈ fs, f.fill_time = now ∧ ∃ v ∈ visits costs cfg instrument state now budget rng ps, v.executes := by
  induction hmatched with
  | nil => exact fun f hf => absurd hf List.not_mem_nil
  | keep hdecision _ ih =>
    intro f hf
    obtain ⟨htime, v, hv, hexecutes⟩ := ih f hf
    rw [visits_keep hdecision]
    exact ⟨htime, v, List.mem_cons_of_mem _ hv, hexecutes⟩
  | erase hdecision _ ih =>
    intro f hf
    obtain ⟨htime, v, hv, hexecutes⟩ := ih f hf
    rw [visits_erase hdecision]
    exact ⟨htime, v, List.mem_cons_of_mem _ hv, hexecutes⟩
  | @execute budget rng p p' allowed ps rest g fs hdecision hfill _ ih =>
    intro f hf
    rw [visits_execute hdecision]
    refine ⟨?_, _, List.mem_cons_self, rfl⟩
    rcases List.mem_cons.mp hf with rfl | hf
    · rw [Fill.fill_time, (make_fill_ok hfill).2.2.2.2.2]
    · exact (ih f hf).1

end ptl.execution

set_option linter.dupNamespace false

namespace ptl.engine

variable {R Q : Type}

/-- Every fill booked, every order taken and every risk rejection has its one
entry in the journal. -/
structure Engine.Complete (e : Engine R) : Prop where
  fills_eq : e.journal.entriesOf .FillReceived = e.journal.fills.map fillEntry
  fills_count : e.journal.fills.length = e.summary.fills
  orders_once : ∀ id, (e.journal.entriesOf .OrderSubmitted).countP (fun entry => entry.order_id = id) =
    (e.oms.took id).toNat
  orders_count : (e.journal.entriesOf .OrderSubmitted).length = e.summary.orders_submitted
  rejections_count : (e.journal.entriesOf .RiskRejection).length = e.summary.orders_rejected

/-- The journal is complete and ends by the clock, so that whatever is stamped
with the clock can be appended. -/
structure Engine.Chronicled (e : Engine R) : Prop where
  complete : e.Complete
  ends : e.journal.EndsBy e.clock

/-- An event that executes an order is not older than the last entry of the
journal. -/
def Session.FillsInOrder (source : IMarketDataSource Q) (s : Session R Q) : Action → Prop
  | .arrive => ∀ ev ∈ s.upcoming source, ∀ call ∈ s.engine.marketCall ev,
      (∃ v ∈ s.engine.broker.visits call.instrument call.state call.now, v.executes) →
        s.engine.journal.EndsBy call.now
  | _ => True

/-- What completeness is about decides it. -/
theorem Engine.Complete.congr {e e' : Engine R} (hcomplete : e.Complete) (hjournal : e'.journal = e.journal)
    (hfills : e'.summary.fills = e.summary.fills)
    (hsubmitted : e'.summary.orders_submitted = e.summary.orders_submitted)
    (hrejected : e'.summary.orders_rejected = e.summary.orders_rejected)
    (htook : ∀ id, e'.oms.took id = e.oms.took id) : e'.Complete := by
  obtain ⟨h₁, h₂, h₃, h₄, h₅⟩ := hcomplete
  refine ⟨?_, ?_, fun id => ?_, ?_, ?_⟩
  · rw [hjournal, h₁]
  · rw [hjournal, h₂, hfills]
  · rw [hjournal, h₃, htook]
  · rw [hjournal, h₄, hsubmitted]
  · rw [hjournal, h₅, hrejected]

theorem Engine.complete_book_fill {e e' : Engine R} {f : Fill} (hcomplete : e.Complete)
    (hends : e.journal.EndsBy (fillEntry f).ts) (hbook : e.book_fill f = .ok e') : e'.Complete := by
  obtain ⟨⟨rec, hrec, haccepts, homs⟩, -, heq⟩ := Engine.book_fill_ok hbook
  have hentries : ∀ kind, e'.journal.entriesOf kind =
      e.journal.entriesOf kind ++ if .FillReceived = kind then [fillEntry f] else [] := by
    intro kind
    rw [heq]
    exact Journal.entriesOf_append hends kind
  have hfills : e'.journal.fills = e.journal.fills ++ [f] := by
    rw [heq]
    exact Journal.record_fill_fills _ _
  have hsummary : e'.summary = { e.summary with fills := e.summary.fills + 1 } := by rw [heq]
  refine ⟨?_, ?_, fun id => ?_, ?_, ?_⟩
  · rw [hentries, hfills, hcomplete.fills_eq, List.map_append]
    rfl
  · rw [hfills, hsummary, List.length_append, hcomplete.fills_count]
    rfl
  · rw [hentries, homs, OrderManager.took_fill hrec haccepts, ← hcomplete.orders_once id]
    simp
  · rw [hentries, hsummary, ← hcomplete.orders_count]
    simp
  · rw [hentries, hsummary, ← hcomplete.rejections_count]
    simp

theorem Engine.chronicled_book_fills {e e' : Engine R} {fs : List Fill} {ts : Timestamp}
    (hchronicled : e.Chronicled) (hts : ts ≤ e.clock)
    (hstamped : ∀ f ∈ fs, f.fill_time = ts ∧ e.journal.EndsBy ts) (hbook : e.book_fills fs = .ok e') :
    e'.Chronicled := by
  have hinvariant := Engine.book_fills_invariant
    (I := fun e₁ rest => e₁.Chronicled ∧ ts ≤ e₁.clock ∧
      ∀ f ∈ rest, f.fill_time = ts ∧ e₁.journal.EndsBy ts) ?_ ⟨hchronicled, hts, hstamped⟩ hbook
  · exact hinvariant.1
  · intro e₁ f rest e₂ ⟨hbefore, hclock, hrest⟩ hfirst
    obtain ⟨htime, hends⟩ := hrest f List.mem_cons_self
    obtain ⟨-, -, heq⟩ := Engine.book_fill_ok hfirst
    have hstamp : e₁.journal.EndsBy (fillEntry f).ts := by
      change e₁.journal.EndsBy f.fill_time
      rw [htime]
      exact hends
    have hlast : e₂.journal.EndsBy ts := by
      rw [heq]
      exact Journal.endsBy_append hstamp (le_of_eq htime)
    have hsame : e₂.clock = e₁.clock := by rw [heq]
    refine ⟨⟨Engine.complete_book_fill hbefore.complete hstamp hfirst, ?_⟩, ?_, ?_⟩
    · intro last hmem
      rw [hsame]
      exact (hlast last hmem).trans hclock
    · rw [hsame]
      exact hclock
    · exact fun g hg => ⟨(hrest g (List.mem_cons_of_mem _ hg)).1, hlast⟩

/-- The venue is called with the time of the event. -/
theorem Engine.marketCall_now {e : Engine R} {ev : MarketEvent} {call : MarketCall}
    (hcall : e.marketCall ev = some call) : call.now = exchange_time_of ev := by
  cases ev with
  | bar bar =>
    cases hcall
    exact bar.exchange_time_eq.symm
  | quote q =>
    cases hcall
    rfl
  | trade t => cases hcall
  | corporateAction c => cases hcall
  | session ev => cases hcall
  | timer t => cases hcall

theorem Engine.chronicled_matched {e e₁ : Engine R} {now : Timestamp} {ev : MarketEvent}
    (hchronicled : e.Chronicled) (hclock : e.clock ≤ now) (hnow : e₁.clock = now)
    (hmatches : e.Matches e₁ ev) : e₁.Chronicled := by
  refine ⟨hchronicled.complete.congr hmatches.journal_eq hmatches.fills_eq hmatches.orders_submitted_eq
    hmatches.orders_rejected_eq fun id => by rw [hmatches.oms_eq], ?_⟩
  rw [hmatches.journal_eq, hnow]
  exact fun last hlast => (hchronicled.ends last hlast).trans hclock

theorem Engine.chronicled_absorb {e e' : Engine R} {now : Timestamp} {ev : MarketEvent}
    (hchronicled : e.Chronicled) (hclock : e.clock ≤ now) (hcausal : exchange_time_of ev ≤ now)
    (hinorder : ∀ call ∈ e.marketCall ev,
      (∃ v ∈ e.broker.visits call.instrument call.state call.now, v.executes) →
        e.journal.EndsBy call.now)
    (habsorb : e.absorb now ev = .ok e') : e'.Chronicled := by
  obtain ⟨call, fs, e₁, hcall, hfills, -, hnow, hmatches, hbook⟩ | ⟨-, -, hnow, hmatches⟩ :=
    Engine.absorb_cases habsorb
  · have hts : call.now ≤ e₁.clock := by
      rw [hnow, Engine.marketCall_now hcall]
      exact hcausal
    refine Engine.chronicled_book_fills (Engine.chronicled_matched hchronicled hclock hnow hmatches) hts ?_
      hbook
    intro f hf
    obtain ⟨htime, hexecutes⟩ := (BrokerSimulator.on_market_matched hfills).stamped f hf
    rw [hmatches.journal_eq]
    exact ⟨htime, hinorder call hcall hexecutes⟩
  · exact Engine.chronicled_matched hchronicled hclock hnow hmatches

theorem Engine.chronicled_submit {e : Engine R} (hchronicled : e.Chronicled) (order : Order) :
    (e.submit order).2.Chronicled := by
  obtain ⟨hcomplete, hends⟩ := hchronicled
  obtain ⟨-, heq⟩ | ⟨-, -, heq⟩ | ⟨-, hnew, err, -, heq⟩ | ⟨-, hnew, arrival, -, heq⟩ :=
    e.submit_cases order
  · rw [heq]
    refine ⟨⟨?_, ?_, fun id => ?_, ?_, ?_⟩, Journal.endsBy_append hends (le_refl _)⟩
    all_goals simp only [Engine.turnedDown, Journal.record_risk_rejection, Journal.append_fills]
    · rw [Journal.entriesOf_append hends, ← hcomplete.fills_eq]
      simp
    · exact hcomplete.fills_count
    · rw [Journal.entriesOf_append hends, ← hcomplete.orders_once id]
      simp
    · rw [Journal.entriesOf_append hends, ← hcomplete.orders_count]
      simp
    · rw [Journal.entriesOf_append hends, ← hcomplete.rejections_count]
      simp
  · rw [heq]
    exact ⟨hcomplete.congr rfl rfl rfl rfl fun _ => rfl, hends⟩
  · rw [heq]
    exact ⟨hcomplete.congr rfl rfl rfl rfl fun id => OrderManager.took_rejected hnew _ id, hends⟩
  · have hstamp : e.journal.EndsBy (e.submittedEntry order).ts := by
      change e.journal.EndsBy (e.riskContext order).now
      rw [e.riskContext_now]
      exact hends
    rw [heq]
    refine ⟨⟨?_, ?_, fun id => ?_, ?_, ?_⟩, Journal.endsBy_append hstamp (le_of_eq (e.riskContext_now order))⟩
    all_goals simp only [Engine.accepted, Journal.append_fills]
    · rw [Journal.entriesOf_append hstamp, ← hcomplete.fills_eq]
      simp [Engine.submittedEntry]
    · exact hcomplete.fills_count
    · have honce := hcomplete.orders_once id
      have hkind : (e.submittedEntry order).kind = .OrderSubmitted := rfl
      have hentry : (e.submittedEntry order).order_id = (e.priced order).id := rfl
      rw [Journal.entriesOf_append hstamp, OrderManager.took_working hnew, if_pos hkind, List.countP_append,
        List.countP_singleton, honce, hentry]
      by_cases hsame : (e.priced order).id = id
      · have hfresh : e.oms.took id = false := by
          rw [OrderManager.took, ← hsame, OrderManager.fresh_of_submitError hnew]
          rfl
        simp [hsame, hfresh]
      · simp [hsame]
    · rw [Journal.entriesOf_append hstamp, ← hcomplete.orders_count]
      simp [Engine.submittedEntry]
    · rw [Journal.entriesOf_append hstamp, ← hcomplete.rejections_count]
      simp [Engine.submittedEntry]

theorem Engine.chronicled_cancel {e : Engine R} (hagreed : e.Agreed) (hchronicled : e.Chronicled)
    (id : OrderId) : (e.cancel id).2.Chronicled := by
  obtain ⟨-, heq⟩ | ⟨⟨p, hp, hid⟩, heq⟩ := e.cancel_cases id
  · rw [heq]
    exact hchronicled
  · rw [heq]
    obtain ⟨rec, hrec, hbacks⟩ := hagreed.backed p hp
    rw [hid] at hrec
    exact ⟨hchronicled.complete.congr rfl rfl rfl rfl fun other =>
      OrderManager.took_cancel hrec hbacks.live other, hchronicled.ends⟩

theorem engineMachine_chronicled {s : Session R ReplaySource}
    (hreach : (engineMachine R replay).Reaches (Session.FillsInOrder replay) s) : s.engine.Chronicled := by
  refine hreach.invariant (I := fun s => s.engine.Chronicled) ?_ ?_
  · intro s hinitial
    obtain ⟨-, homs, -, hjournal⟩ := hinitial.fresh
    have hsummary := hinitial.summary_empty
    refine ⟨⟨?_, ?_, fun id => ?_, ?_, ?_⟩, ?_⟩
    · rw [hjournal]
      rfl
    · rw [hjournal, hsummary]
      rfl
    · rw [hjournal, homs]
      rfl
    · rw [hjournal, hsummary]
      rfl
    · rw [hjournal, hsummary]
      rfl
    · rw [hjournal]
      rintro last ⟨⟩
  · intro s a t hreached hchronicled hguard hstep
    obtain ⟨ev, q, now, e, rfl, -, hnext, habsorb, rfl⟩ | ⟨order, -, rfl⟩ | ⟨id, -, rfl⟩ | ⟨-, rfl⟩ |
      ⟨ev, e, -, -, hsettle, rfl⟩ := Session.step_cases hstep
    · obtain ⟨hclock, hcausal⟩ := ReplaySource.next_event_ok hnext
      exact Engine.chronicled_absorb hchronicled hclock hcausal
        (hguard ev (Session.upcoming_of_next hnext)) habsorb
    · exact Engine.chronicled_submit hchronicled order
    · exact Engine.chronicled_cancel (engineMachine_agreed hreached.reachable) hchronicled id
    · exact ⟨hchronicled.complete.congr rfl rfl rfl rfl fun _ => rfl, hchronicled.ends⟩
    · have hsettles := Engine.settle_settles hsettle
      refine ⟨hchronicled.complete.congr hsettles.journal_eq hsettles.fills_eq hsettles.orders_submitted_eq
        hsettles.orders_rejected_eq fun id => by rw [hsettles.oms_eq], ?_⟩
      rw [hsettles.journal_eq, hsettles.clock_eq]
      exact hchronicled.ends

/-- In a replay where no event that executes an order is older than the last
entry of the journal, every fill, every order taken and every risk rejection
has its one entry. -/
theorem engineMachine_journal_complete {s : Session R ReplaySource}
    (hreach : (engineMachine R replay).Reaches (Session.FillsInOrder replay) s) : s.engine.Complete :=
  (engineMachine_chronicled hreach).complete

/-! ### A complete journal, and one with a fill missing -/

instance (j : Journal) (ts : Timestamp) : Decidable (j.EndsBy ts) :=
  inferInstanceAs (Decidable (∀ last ∈ j.entries.getLast?, last.ts ≤ ts))

instance (s : Session R Q) (source : IMarketDataSource Q) : (a : Action) → Decidable (s.FillsInOrder source a)
  | .arrive => inferInstanceAs (Decidable (∀ ev ∈ s.upcoming source, ∀ call ∈ s.engine.marketCall ev,
      (∃ v ∈ s.engine.broker.visits call.instrument call.state call.now, v.executes) →
        s.engine.journal.EndsBy call.now))
  | .submit _ | .cancel _ | .next_order_id | .settle => isTrue trivial

/-- The kinds of the journal's entries, and the number of fills. -/
def journalled (s : Session Unit Q) : List EntryKind × Nat :=
  (s.engine.journal.entries.map JournalEntry.kind, s.engine.journal.fills.length)

/-- A submission and its fill. -/
theorem engineMachine_journal_complete_buy :
    ∃ s, (engineMachine Unit replay).Reachable s ∧
      journalled s = ([.OrderSubmitted, .FillReceived], 1) ∧ s.engine.Complete := by
  obtain ⟨s, hreach, hshown⟩ := (flatSession_reached (G := Session.FillsInOrder replay)
    [barOf 0 1000, barOf 2000000 1000] {} {} (by decide +kernel)).exec_map
    [.arrive, .submit dayBuy, .settle, .arrive] journalled (b := ([.OrderSubmitted, .FillReceived], 1))
    (by decide +kernel) (by decide +kernel)
  exact ⟨s, hreach.reachable, hshown, engineMachine_journal_complete hreach⟩

/-- Two bars reach the strategy ten milliseconds in. A sell submitted on the
first is journalled with that time; the second fills the earlier buy at two
milliseconds, and the journal refuses the entry. -/
theorem engineMachine_fill_missing :
    ∃ s, (engineMachine Unit replay).Reachable s ∧
      journalled s = ([.OrderSubmitted, .OrderSubmitted], 1) ∧ ¬ s.engine.Complete := by
  obtain ⟨s, hreach, hshown⟩ := (flatSession_reached
    [barOf 0 1000, barOf 1000000 1000 100 9000000, barOf 2000000 1000 100 8000000] {} {}
    (by decide +kernel)).exec_map
    [.arrive, .submit dayBuy, .settle, .arrive, .submit daySell, .settle, .arrive] journalled
    (b := ([.OrderSubmitted, .OrderSubmitted], 1))
    (Machine.along_of_forall (fun _ _ => trivial) _ _) (by decide +kernel)
  refine ⟨s, hreach, hshown, fun hcomplete => ?_⟩
  have hkinds : s.engine.journal.entries.map JournalEntry.kind = [.OrderSubmitted, .OrderSubmitted] :=
    congrArg Prod.fst hshown
  have hone : s.engine.journal.fills.length = 1 := congrArg Prod.snd hshown
  have hnone : s.engine.journal.entriesOf .FillReceived = [] := by
    refine List.filter_eq_nil_iff.mpr fun entry hentry => ?_
    have hkind : entry.kind ∈ s.engine.journal.entries.map JournalEntry.kind := List.mem_map_of_mem hentry
    rw [hkinds] at hkind
    simp only [List.mem_cons, List.not_mem_nil, or_false, or_self] at hkind
    simp [hkind]
  have hlength := congrArg List.length hcomplete.fills_eq
  rw [hnone, List.length_map, hone] at hlength
  cases hlength

end ptl.engine
