import TradingLab.Live.Run

/-! Where the messages go that a live session's connection accepts. -/

open ptl.oms ptl.portfolio ptl.market ptl.risk ptl.execution ptl.accounting ptl.storage ptl.engine

namespace ptl.live

open LiveMarketDataAdapter

variable {R T F : Type} {fmt : DoubleFormat Rat} {fs : IFileSystem F} {transport : ILiveTransport T}
  {translator : IOrderTranslator}

/-! ### What a receipt owes -/

/-- The time an event counts from. -/
def Receipt.eventAt (d : Receipt) : Option Timestamp := d.event.map fun _ => d.message.eventTime d.polled

/-- The time of the last event made so far. -/
def latest (log : List Receipt) : Timestamp := ((log.filterMap Receipt.eventAt).getLast?).getD kNoTimestamp

def Receipt.isStale (d : Receipt) : Bool :=
  match d.reception with
  | .stale => true
  | _ => false

def Receipt.isLost (d : Receipt) : Bool :=
  match d.reception with
  | .lost => true
  | _ => false

/-- A message at which the poll it was in came to an end, or one behind it. -/
def Receipt.Failed (d : Receipt) : Prop :=
  d.reception = .refused ∨ d.reception = .malformed ∨ d.reception = .lost

/-- The one before it failed, under the same consumer. -/
def Receipt.Behind (before : List Receipt) (d : Receipt) : Prop :=
  ∃ d' ∈ before.getLast?, d'.consumer = d.consumer ∧ d'.Failed

/-- Market data becomes the event that can be made of it, unless it is older than
the last event or there is none to make. -/
def Receipt.BecomesEvent (before : List Receipt) (d : Receipt) : Prop :=
  let ts := d.message.eventTime d.polled
  let old := is_set (latest before) = true ∧ ts < latest before
  match d.reception with
  | .event ev => ¬ old ∧ d.message.toEvent ts = .ok ev
  | .stale => old
  | .malformed => ¬ old ∧ ∃ e, d.message.toEvent ts = .error e
  | .lost => d.Behind before
  | _ => False

/-- Other traffic is applied, or refused with an error, by the broker. -/
def Receipt.ReachesBroker (before : List Receipt) (d : Receipt) : Prop :=
  match d.reception with
  | .heard => True
  | .refused => True
  | .lost => d.Behind before
  | _ => False

/-- What is owed to market data that the pump found, and to other traffic that the
broker found. -/
structure Receipt.Due (before : List Receipt) (d : Receipt) : Prop where
  market : d.consumer = .market_data → d.message.isMarketData = true → d.BecomesEvent before
  orders : d.consumer = .broker → d.message.isMarketData = false → d.ReachesBroker before

/-- Every receipt is due when its turn comes. -/
def DueAlong : List Receipt → List Receipt → Prop
  | _, [] => True
  | before, d :: rest => d.Due before ∧ DueAlong (before ++ [d]) rest

theorem dueAlong_append {before ds ds' : List Receipt} :
    DueAlong before (ds ++ ds') ↔ DueAlong before ds ∧ DueAlong (before ++ ds) ds' := by
  induction ds generalizing before with
  | nil => simp [DueAlong]
  | cons d ds ih =>
    simp only [List.cons_append, DueAlong, ih, and_assoc, List.append_assoc, List.nil_append]

theorem latest_snoc (log : List Receipt) (d : Receipt) :
    latest (log ++ [d]) = d.eventAt.getD (latest log) := by
  unfold latest
  cases hat : d.eventAt <;> simp [List.filterMap_append, hat]

/-- Receipts among which there is no event and nothing stale. -/
structure Eventless (ds : List Receipt) : Prop where
  events : ds.filterMap Receipt.event = []
  stale : ds.countP Receipt.isStale = 0

theorem Eventless.nil : Eventless [] :=
  ⟨rfl, rfl⟩

theorem Eventless.cons {d : Receipt} {ds : List Receipt} (hevent : d.event = none) (hstale : d.isStale = false)
    (hrest : Eventless ds) : Eventless (d :: ds) := by
  refine ⟨?_, ?_⟩
  · rw [List.filterMap_cons_none hevent, hrest.events]
  · rw [List.countP_cons_of_neg (by simp [hstale]), hrest.stale]

theorem Eventless.latest {ds : List Receipt} (heventless : Eventless ds) (log : List Receipt) :
    latest (log ++ ds) = live.latest log := by
  have hnone : ds.filterMap Receipt.eventAt = [] := by
    have hevents := heventless.events
    rw [List.filterMap_eq_nil_iff] at hevents ⊢
    intro d hd
    rw [Receipt.eventAt, hevents d hd]
    rfl
  unfold live.latest
  rw [List.filterMap_append, hnone, List.append_nil]

theorem Receipt.Failed.ends {d : Receipt} (hfailed : d.Failed) (before : List Receipt) :
    ∃ d' ∈ (before ++ [d]).getLast?, d'.consumer = d.consumer ∧ d'.Failed :=
  ⟨d, by rw [List.getLast?_concat]; rfl, rfl, hfailed⟩

/-- The messages of a poll that came to an end before them. -/
theorem lost_due {before : List Receipt} {consumer : Consumer} {now : Timestamp} (rest : List BrokerMessage)
    (hended : ∃ d' ∈ before.getLast?, d'.consumer = consumer ∧ d'.Failed) :
    DueAlong before (rest.map (⟨·, consumer, now, .lost⟩)) ∧
      Eventless (rest.map (⟨·, consumer, now, .lost⟩)) := by
  induction rest generalizing before with
  | nil => exact ⟨trivial, .nil⟩
  | cons m rest ih =>
    obtain ⟨hdue, heventless⟩ := ih (Receipt.Failed.ends (d := ⟨m, consumer, now, .lost⟩) (.inr (.inr rfl)) before)
    exact ⟨⟨⟨fun _ _ => hended, fun _ _ => hended⟩, hdue⟩, .cons rfl rfl heventless⟩

/-! ### The broker's poll -/

theorem LiveBroker.receipts_message (b : LiveBroker R T) (batch : List BrokerMessage) :
    (b.receipts translator batch).map Receipt.message = batch := by
  induction batch generalizing b with
  | nil => rfl
  | cons m rest ih =>
    unfold LiveBroker.receipts
    split
    · simp [Function.comp_def]
    · rw [List.map_cons, ih]

variable (translator) in
theorem LiveBroker.receipts_due (b : LiveBroker R T) (log : List Receipt) (batch : List BrokerMessage) :
    DueAlong log (b.receipts translator batch) ∧ Eventless (b.receipts translator batch) := by
  induction batch generalizing b log with
  | nil => exact ⟨trivial, .nil⟩
  | cons m rest ih =>
    unfold LiveBroker.receipts
    split
    · obtain ⟨hdue, heventless⟩ := lost_due rest
        (Receipt.Failed.ends (d := ⟨m, .broker, b.clock, .refused⟩) (.inl rfl) log)
      exact ⟨⟨⟨nofun, fun _ _ => trivial⟩, hdue⟩, .cons rfl rfl heventless⟩
    · rename_i b' happly
      obtain ⟨hdue, heventless⟩ := ih b'
        (log ++ [⟨m, .broker, b.clock, if m.isMarketData then .ignored else .heard⟩])
      refine ⟨⟨⟨nofun, fun _ hother => ?_⟩, hdue⟩, ?_⟩
      · have hother' : m.isMarketData = false := hother
        simp [Receipt.ReachesBroker, hother']
      · cases hkind : m.isMarketData <;> exact .cons rfl rfl (by simpa [hkind] using heventless)

/-- The broker after a poll has applied the messages that were not lost, in
order. -/
theorem LiveBroker.applyAll_receipts (b : LiveBroker R T) (batch : List BrokerMessage) :
    (b.applyAll translator batch).2 =
      ((b.receipts translator batch).filter fun d => !d.isLost).foldl
        (fun b d => (b.apply translator d.message).2) b := by
  induction batch generalizing b with
  | nil => rfl
  | cons m rest ih =>
    unfold LiveBroker.applyAll LiveBroker.receipts
    cases happly : b.apply translator m with
    | mk result b' =>
      cases result with
      | error e =>
        have hlost : ((rest.map (⟨·, .broker, b.clock, .lost⟩) : List Receipt).filter fun d => !d.isLost) = [] := by
          simp [List.filter_map, Function.comp_def, Receipt.isLost]
        have hkept : Receipt.isLost ⟨m, .broker, b.clock, .refused⟩ = false := rfl
        simp [hkept, hlost, happly]
      | ok fill =>
        have hkept : Receipt.isLost ⟨m, .broker, b.clock, if m.isMarketData then .ignored else .heard⟩ = false := by
          cases m.isMarketData <;> rfl
        simp [hkept, happly, ih]

/-! ### The pump -/

/-- The ways a pump takes a message. -/
theorem LiveMarketDataAdapter.take_cases (a : LiveMarketDataAdapter) (now : Timestamp) (m : BrokerMessage) :
    let ts := m.eventTime now
    let old := is_set a.last_event_time = true ∧ ts < a.last_event_time
    (m.isMarketData = false ∧ a.take now m = .ok (0, a) ∧ a.reception now m = .ignored) ∨
    (old ∧ a.take now m = .ok (0, { a with dropped_stale := a.dropped_stale + 1 }) ∧
      a.reception now m = .stale) ∨
    (¬ old ∧ (∃ e, m.toEvent ts = .error e ∧ a.take now m = .error e) ∧ a.reception now m = .malformed) ∨
    (¬ old ∧ ∃ ev, m.toEvent ts = .ok ev ∧
      a.take now m = .ok (1, { a with buffer := a.buffer ++ [ev], last_event_time := ts }) ∧
      a.reception now m = .event ev) := by
  dsimp only
  unfold take reception
  cases hkind : m.isMarketData with
  | false => exact .inl ⟨rfl, by simp, by simp⟩
  | true =>
    by_cases hold : is_set a.last_event_time = true ∧ m.eventTime now < a.last_event_time
    · exact .inr (.inl ⟨hold, by simp [hold], by simp [hold]⟩)
    · cases hevent : m.toEvent (m.eventTime now) with
      | error e => exact .inr (.inr (.inl ⟨hold, ⟨e, rfl, by simp [hold, hevent]⟩, by simp [hold]⟩))
      | ok ev => exact .inr (.inr (.inr ⟨hold, ev, rfl, by simp [hold, hevent], by simp [hold]⟩))

/-- What a pump adds to the log, and what it does to the buffer and the counter
of stale messages. -/
structure Pumped (log ds : List Receipt) (batch : List BrokerMessage) (a a' : LiveMarketDataAdapter) :
    Prop where
  messages : ds.map Receipt.message = batch
  due : DueAlong log ds
  buffer : a'.buffer = a.buffer ++ ds.filterMap Receipt.event
  dropped : a'.dropped_stale = a.dropped_stale + ds.countP Receipt.isStale
  time : latest (log ++ ds) = a'.last_event_time

theorem Pumped.cons {log ds : List Receipt} {d : Receipt} {rest : List BrokerMessage}
    {a a₁ a' : LiveMarketDataAdapter} (hrest : Pumped (log ++ [d]) ds rest a₁ a') (hdue : d.Due log)
    (hbuffer : a₁.buffer = a.buffer ++ d.event.toList)
    (hdropped : a₁.dropped_stale = a.dropped_stale + if d.isStale then 1 else 0) :
    Pumped log (d :: ds) (d.message :: rest) a a' where
  messages := by rw [List.map_cons, hrest.messages]
  due := ⟨hdue, hrest.due⟩
  buffer := by
    rw [hrest.buffer, hbuffer, List.append_assoc]
    cases hevent : d.event <;> simp [hevent]
  dropped := by
    rw [hrest.dropped, hdropped, List.countP_cons]
    omega
  time := by
    rw [← hrest.time, List.append_assoc]
    rfl

theorem LiveMarketDataAdapter.receipts_pumped {a : LiveMarketDataAdapter} {log : List Receipt}
    (hlatest : latest log = a.last_event_time) (now : Timestamp) (batch : List BrokerMessage) :
    Pumped log (a.receipts now batch) batch a (a.takeAll now batch).2 := by
  induction batch generalizing a log with
  | nil =>
    refine ⟨rfl, trivial, (List.append_nil _).symm, rfl, ?_⟩
    rw [receipts, List.append_nil, hlatest]
    rfl
  | cons m rest ih =>
    obtain ⟨hkind, htake, hreception⟩ | ⟨hold, htake, hreception⟩ | ⟨hnew, ⟨e, hevent, htake⟩, hreception⟩ |
      ⟨hnew, ev, hevent, htake, hreception⟩ := a.take_cases now m
    · simp only [receipts, takeAll, htake, hreception]
      have hdue : Receipt.Due log ⟨m, .market_data, now, .ignored⟩ := by
        refine ⟨fun _ hmarket => ?_, nofun⟩
        rw [show m.isMarketData = true from hmarket] at hkind
        cases hkind
      refine .cons (ih ?_) hdue (List.append_nil _).symm rfl
      rw [latest_snoc]
      exact hlatest
    · simp only [receipts, takeAll, htake, hreception]
      have hdue : Receipt.Due log ⟨m, .market_data, now, .stale⟩ := by
        refine ⟨fun _ _ => ?_, nofun⟩
        rw [← hlatest] at hold
        exact hold
      refine .cons (ih ?_) hdue (List.append_nil _).symm rfl
      rw [latest_snoc]
      exact hlatest
    · simp only [receipts, takeAll, htake, hreception]
      have hdue : Receipt.Due log ⟨m, .market_data, now, .malformed⟩ := by
        refine ⟨fun _ _ => ?_, nofun⟩
        rw [← hlatest] at hnew
        exact ⟨hnew, e, hevent⟩
      obtain ⟨hlost, heventless⟩ := lost_due rest
        (Receipt.Failed.ends (d := ⟨m, .market_data, now, .malformed⟩) (.inr (.inl rfl)) log)
      have hrest : Pumped (log ++ [⟨m, .market_data, now, .malformed⟩])
          (rest.map (⟨·, .market_data, now, .lost⟩)) rest a a := by
        refine ⟨?_, hlost, ?_, ?_, ?_⟩
        · simp [Function.comp_def]
        · rw [heventless.events, List.append_nil]
        · rw [heventless.stale]
          rfl
        · rw [heventless.latest, latest_snoc]
          exact hlatest
      exact .cons hrest hdue (List.append_nil _).symm rfl
    · simp only [receipts, takeAll, htake, hreception]
      have hdue : Receipt.Due log ⟨m, .market_data, now, .event ev⟩ := by
        refine ⟨fun _ _ => ?_, nofun⟩
        rw [← hlatest] at hnew
        exact ⟨hnew, hevent⟩
      refine .cons (ih ?_) hdue rfl rfl
      rw [latest_snoc]
      rfl

/-! ### Every run -/

/-- Each message that was accepted went to one consumer, once and in order, which
did what it owes; the events made of them went to the engine once each and in
order, or wait for it; and the stale ones are counted. -/
structure LiveRun.Routed (r : LiveRun R T F) : Prop where
  once : r.log.map Receipt.message = r.accepted
  due : DueAlong [] r.log
  handed : r.log.filterMap Receipt.event = r.handed ++ r.session.market_data.buffer
  dropped : r.log.countP Receipt.isStale = r.session.market_data.dropped_stale

/-- The routing with what carries it. -/
structure LiveRun.Tracked (r : LiveRun R T F) : Prop extends r.Routed where
  time : latest r.log = r.session.market_data.last_event_time

theorem LiveRun.Tracked.same {r t : LiveRun R T F} (htracked : r.Tracked) (hsame : r.SameHistory t) :
    t.Tracked := by
  refine ⟨⟨?_, ?_, ?_, ?_⟩, ?_⟩
  · rw [hsame.log_eq, hsame.accepted_eq]
    exact htracked.once
  · rw [hsame.log_eq]
    exact htracked.due
  · rw [hsame.log_eq, hsame.handed_eq, hsame.rests.market_data_eq]
    exact htracked.handed
  · rw [hsame.log_eq, hsame.rests.market_data_eq]
    exact htracked.dropped
  · rw [hsame.log_eq, hsame.rests.market_data_eq]
    exact htracked.time

theorem LiveSession.collect_market_data (p : LiveSession R T F) :
    (p.collect transport translator).2.market_data = p.market_data := by
  unfold LiveSession.collect
  dsimp only
  split <;> rfl

theorem LiveRun.Tracked.collected {r : LiveRun R T F} (htracked : r.Tracked) :
    (r.collected transport translator).Tracked := by
  have hdata : (r.collected transport translator).session.market_data = r.session.market_data :=
    LiveSession.collect_market_data _
  have hlog : (r.collected transport translator).log =
      r.log ++ (r.session.liveBroker.drained transport).receipts translator (r.session.batch transport) := rfl
  obtain ⟨hdue, heventless⟩ := (r.session.liveBroker.drained transport).receipts_due translator
    r.log (r.session.batch transport)
  refine ⟨⟨?_, ?_, ?_, ?_⟩, ?_⟩
  · rw [hlog, List.map_append, htracked.once, LiveBroker.receipts_message]
    rfl
  · rw [hlog, dueAlong_append]
    exact ⟨htracked.due, hdue⟩
  · rw [hlog, hdata, List.filterMap_append, heventless.events, List.append_nil]
    exact htracked.handed
  · rw [hlog, hdata, List.countP_append, heventless.stale]
    exact htracked.dropped
  · rw [hlog, hdata, heventless.latest]
    exact htracked.time

theorem LiveRun.Tracked.pumped {r : LiveRun R T F} (htracked : r.Tracked) : (r.pumped transport).Tracked := by
  have hpumped := receipts_pumped htracked.time r.session.engine.clock
    (r.session.batch transport)
  have hdata : (r.pumped transport).session.market_data =
      (r.session.market_data.takeAll r.session.engine.clock (r.session.batch transport)).2 := rfl
  have hlog : (r.pumped transport).log =
      r.log ++ r.session.market_data.receipts r.session.engine.clock (r.session.batch transport) := rfl
  refine ⟨⟨?_, ?_, ?_, ?_⟩, ?_⟩
  · rw [hlog, List.map_append, htracked.once, hpumped.messages]
    rfl
  · rw [hlog, dueAlong_append]
    exact ⟨htracked.due, hpumped.due⟩
  · rw [hlog, hdata, hpumped.buffer, List.filterMap_append, htracked.handed, List.append_assoc]
    rfl
  · rw [hlog, hdata, hpumped.dropped, List.countP_append, htracked.dropped]
  · rw [hlog, hdata]
    exact hpumped.time

/-- An arrival moves one event from the buffer to the engine, and no other move
touches either. -/
theorem LiveRun.Tracked.turned {r : LiveRun R T F} (htracked : r.Tracked) {handling : Option MarketEvent}
    {a : Action} {x : Session R LiveMarketDataAdapter}
    (hmoved : Session.step liveSource
      { engine := r.session.engine, source := r.session.market_data, handling } a = some x) :
    (r.turned a x).Tracked := by
  obtain ⟨hrouted, htime⟩ := htracked
  obtain ⟨honce, hdue, hhanded, hdropped⟩ := hrouted
  obtain ⟨ev, q, now, e, rfl, -, hnext, -, rfl⟩ | ⟨order, rfl, rfl⟩ | ⟨id, rfl, rfl⟩ | ⟨rfl, rfl⟩ |
    ⟨ev, e, rfl, -, -, rfl⟩ := Session.step_cases hmoved
  · have hnext' : r.session.market_data.next r.session.engine.clock = .ok (some (ev, q, now)) := hnext
    unfold next at hnext'
    split at hnext'
    · cases hnext'
    · rename_i event rest hbuffer
      cases hnext'
      rw [hbuffer] at hhanded
      refine ⟨⟨honce, hdue, ?_, hdropped⟩, htime⟩
      exact hhanded.trans (List.append_assoc _ [ev] rest).symm
  · exact ⟨⟨honce, hdue, hhanded, hdropped⟩, htime⟩
  · exact ⟨⟨honce, hdue, hhanded, hdropped⟩, htime⟩
  · exact ⟨⟨honce, hdue, hhanded, hdropped⟩, htime⟩
  · exact ⟨⟨honce, hdue, hhanded, hdropped⟩, htime⟩

theorem liveMachine_tracked {r : LiveRun R T F}
    (hreach : (liveMachine fmt fs transport translator R).Reachable r) : r.Tracked := by
  refine hreach.invariant ?_ ?_
  · rintro r ⟨p, -, -, -, -, hdata, rfl⟩
    refine ⟨⟨rfl, trivial, ?_, ?_⟩, ?_⟩
    · rw [hdata]
      rfl
    · rw [hdata]
      rfl
    · rw [hdata]
      rfl
  · intro r l t _ htracked _ hstep
    obtain ⟨delivers, rfl⟩ | ⟨hsame, -⟩ | ⟨hsame, -⟩ | ⟨-, rfl⟩ | ⟨-, rfl⟩ |
      ⟨handling, a, x, -, hmoved, rfl⟩ := LiveRun.step_cases hstep
    · exact ⟨⟨rfl, trivial, rfl, rfl⟩, rfl⟩
    · exact htracked.same hsame
    · exact htracked.same hsame
    · exact htracked.collected
    · exact htracked.pumped
    · exact htracked.turned hmoved

/-- In every run the messages accepted are routed, and a poll of the broker's
applies those of its messages that are not lost. -/
theorem LiveRun.messages_routed {r : LiveRun R T F}
    (hreach : (liveMachine fmt fs transport translator R).Reachable r) :
    r.Routed ∧ (r.session.liveBroker.poll transport translator).2 =
      (((r.session.liveBroker.drained transport).receipts translator (r.session.batch transport)).filter
        fun d => !d.isLost).foldl (fun b d => (b.apply translator d.message).2)
          (r.session.liveBroker.drained transport) :=
  ⟨(liveMachine_tracked hreach).toRouted, LiveBroker.applyAll_receipts _ _⟩

/-! ### Concrete runs -/

/-- The account, a quote that reaches the engine and one that is stale. -/
theorem LiveRun.messages_routed_stale :
    ∃ r : LiveRun Unit ScriptedTransport (List (String × String)), r.accepted.length = 3 ∧
      r.handed.length = 1 ∧ r.session.market_data.dropped_stale = 1 ∧ r.Routed := by
  obtain ⟨r, hreach, hends⟩ := flatLive_reaches.exec_map (G := fun _ _ => True)
    ([.start (.ok ())] ++
      stepMoves 2000000 [{ kind := .AccountUpdate, price := 100 }] [quoteAt 2000000, quoteAt 1000000] ++
      [.engine .arrive])
    (fun r => (r.accepted.length, r.handed.length, r.session.market_data.dropped_stale)) (b := (3, 1, 1))
    (by decide +kernel) (by decide +kernel)
  simp only [Prod.mk.injEq] at hends
  obtain ⟨haccepted, hhanded, hdropped⟩ := hends
  exact ⟨r, haccepted, hhanded, hdropped, (LiveRun.messages_routed hreach).1⟩

/-- Market data became an event, or other traffic reached the broker. -/
def Receipt.reaches (d : Receipt) : Bool :=
  if d.message.isMarketData then d.event.isSome
  else
    match d.reception with
    | .heard => true
    | .refused => true
    | _ => false

def LiveRun.ReachesEvery (r : LiveRun R T F) : Prop := ∀ d ∈ r.log, d.reaches = true

/-- A stale quote becomes no event, nor does one that the broker's poll finds, and
an order's message that the pump finds does not reach the broker. -/
theorem messages_without_consumer :
    (∃ r : LiveRun Unit ScriptedTransport (List (String × String)),
      (liveMachine wholeDoubles memoryFiles scripted sampleTranslator Unit).Reachable r ∧
        r.accepted.map (·.kind) = [.Quote, .Quote] ∧ ¬ r.ReachesEvery) ∧
    (∃ r : LiveRun Unit ScriptedTransport (List (String × String)),
      (liveMachine wholeDoubles memoryFiles scripted sampleTranslator Unit).Reachable r ∧
        r.accepted.map (·.kind) = [.Quote] ∧ ¬ r.ReachesEvery) ∧
    ∃ r : LiveRun Unit ScriptedTransport (List (String × String)),
      (liveMachine wholeDoubles memoryFiles scripted sampleTranslator Unit).Reachable r ∧
        r.accepted.map (·.kind) = [.OrderAccepted] ∧ ¬ r.ReachesEvery := by
  have hmissed : ∀ (first second : List BrokerMessage) (kinds : List MessageKind),
      (((liveMachine wholeDoubles memoryFiles scripted sampleTranslator Unit).exec { session := flatLive }
        ([.start (.ok ())] ++ stepMoves 2000000 first second)).map fun r =>
          (r.accepted.map (·.kind), r.log.all Receipt.reaches)) = some (kinds, false) →
      ∃ r : LiveRun Unit ScriptedTransport (List (String × String)),
        (liveMachine wholeDoubles memoryFiles scripted sampleTranslator Unit).Reachable r ∧
          r.accepted.map (·.kind) = kinds ∧ ¬ r.ReachesEvery := by
    intro first second kinds hexec
    obtain ⟨r, hreach, hends⟩ := flatLive_reaches.exec_map (G := fun _ _ => True) _ _
      (Machine.along_of_forall (fun _ _ => trivial) _ _) hexec
    obtain ⟨hkinds, hall⟩ := Prod.mk.inj hends
    refine ⟨r, hreach, hkinds, fun hevery => ?_⟩
    rw [List.all_eq_true.mpr hevery] at hall
    cases hall
  exact ⟨hmissed [] [quoteAt 2000000, quoteAt 1000000] _ (by decide +kernel),
    hmissed [quoteAt 1000000] [] _ (by decide +kernel),
    hmissed [] [{ kind := .OrderAccepted, client_order_id := "ptl-1" }] _ (by decide +kernel)⟩

end ptl.live
