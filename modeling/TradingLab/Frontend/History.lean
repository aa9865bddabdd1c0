import TradingLab.Analytics.Episodes
import TradingLab.Frontend.FlattenRun
import TradingLab.Market.Bracketing
import TradingLab.Market.Replay
import TradingLab.Market.Sessions
import TradingLab.Paper.Recovery
import TradingLab.Paper.Run

/-! The equity that a host samples, and the drawdown it reports of the samples it kept. -/

open ptl ptl.oms ptl.portfolio ptl.market ptl.execution ptl.engine ptl.analytics
open ptl.storage (IFileSystem memoryFiles)
open ptl.features (MathFunctions)

namespace ptl.analytics

/-! ### What a tracker has seen -/

/-- Of each equity of a series the fall from the highest up to it. -/
def Drawdowns (equities : List Notional) : Set Rat :=
  {d | ∃ seen e peak, seen ++ [e] <+: equities ∧ IsGreatest {x | x ∈ seen ++ [e]} peak ∧
    d = if 0 < peak then 1 - e / peak else 0}

theorem Drawdowns.mono {equities more : List Notional} (hpre : equities <+: more) :
    Drawdowns equities ⊆ Drawdowns more := by
  rintro d ⟨seen, e, peak, hseen, hpeak⟩
  exact ⟨seen, e, peak, hseen.trans hpre, hpeak⟩

theorem drawdowns_nil : Drawdowns [] = ∅ := by
  refine Set.eq_empty_of_forall_notMem ?_
  rintro d ⟨seen, e, peak, hpre, -⟩
  have hempty := List.prefix_nil.mp hpre
  exact List.append_ne_nil_of_right_ne_nil seen (List.cons_ne_nil e []) hempty

theorem drawdowns_concat {equities : List Notional} {e peak : Notional}
    (hpeak : IsGreatest {x | x ∈ equities ++ [e]} peak) :
    Drawdowns (equities ++ [e]) = Drawdowns equities ∪ {if 0 < peak then 1 - e / peak else 0} := by
  refine Set.Subset.antisymm ?_ (Set.union_subset (Drawdowns.mono (List.prefix_append _ _)) ?_)
  · rintro d ⟨seen, x, top, hpre, htop, rfl⟩
    obtain heq | hbefore := List.prefix_concat_iff.mp hpre
    · obtain ⟨rfl, hlast⟩ := List.append_inj' heq rfl
      obtain rfl := List.singleton_injective hlast
      rw [htop.unique hpeak]
      exact .inr rfl
    · exact .inl ⟨seen, x, top, hbefore, htop, rfl⟩
  · rintro d rfl
    exact ⟨equities, e, peak, List.prefix_refl _, hpeak, rfl⟩

/-- The tracker has seen these equities: its peak is the highest of them, and its
worst fall the greatest of theirs. -/
structure DrawdownTracker.Follows (t : DrawdownTracker) (equities : List Notional) : Prop where
  fresh : equities = [] → t.have_peak = false ∧ t.max_ = 0
  peak : equities ≠ [] → t.have_peak = true ∧ IsGreatest {x | x ∈ equities} t.peak
  worst : equities ≠ [] → IsGreatest (Drawdowns equities) t.max_
  nonneg : 0 ≤ t.max_

theorem DrawdownTracker.Follows.start : DrawdownTracker.Follows {} [] :=
  ⟨fun _ => ⟨rfl, rfl⟩, fun hne => absurd rfl hne, fun hne => absurd rfl hne, le_rfl⟩

section Follows

variable {t : DrawdownTracker} {equities : List Notional}

theorem DrawdownTracker.Follows.top (hfollows : t.Follows equities) (e : Notional) :
    IsGreatest {x | x ∈ equities ++ [e]} (t.top e) := by
  by_cases hempty : equities = []
  · rw [DrawdownTracker.top, if_pos (.inl (hfollows.fresh hempty).1), hempty]
    exact ⟨List.mem_singleton_self e, fun x hx => (List.mem_singleton.mp hx).le⟩
  · obtain ⟨hhave, hmem, hupper⟩ := hfollows.peak hempty
    rw [DrawdownTracker.top]
    split
    · rename_i hrises
      have hle := hrises.resolve_left (by rw [hhave]; exact Bool.noConfusion)
      refine ⟨List.mem_append_right _ (List.mem_singleton_self e), fun x hx => ?_⟩
      obtain hx | hx := List.mem_append.mp hx
      · exact (hupper hx).trans hle
      · exact (List.mem_singleton.mp hx).le
    · rename_i hfalls
      refine ⟨List.mem_append_left _ hmem, fun x hx => ?_⟩
      obtain hx | hx := List.mem_append.mp hx
      · exact hupper hx
      · rw [List.mem_singleton.mp hx]
        exact (not_le.mp fun hle => hfalls (.inr hle)).le

/-- One observation more. -/
theorem DrawdownTracker.Follows.observe (hfollows : t.Follows equities) (ts : Timestamp) (e : Notional) :
    (t.observe ts e).Follows (equities ++ [e]) := by
  obtain ⟨hhave, hpeak, -, hmax, -⟩ := DrawdownTracker.observe_summary ts e hfollows.nonneg
  have htop := hfollows.top e
  have hne : equities ++ [e] ≠ [] := List.append_ne_nil_of_right_ne_nil _ (List.cons_ne_nil e [])
  refine ⟨fun hempty => absurd hempty hne, fun _ => ⟨hhave, hpeak ▸ htop⟩, fun _ => ?_, ?_⟩
  · rw [hmax, drawdowns_concat htop]
    by_cases hempty : equities = []
    · have hdrop : t.drop e = 0 := DrawdownTracker.drop_of_rises (.inl (hfollows.fresh hempty).1)
      rw [hempty, drawdowns_nil, Set.empty_union, (hfollows.fresh hempty).2, hdrop, max_self, ← DrawdownTracker.drop,
        hdrop]
      exact isGreatest_singleton
    · exact (hfollows.worst hempty).union isGreatest_singleton
  · rw [hmax]
    exact hfollows.nonneg.trans (le_max_left _ _)

end Follows

end ptl.analytics

namespace ptl_host

variable {R F : Type}

/-! ### The host's samples -/

def kMaxHistory : Nat := 2000

def kInstrument : InstrumentId := 0

structure StartOptions where
  session_id : String := "paper"
  seed : UInt64 := 20240101
  bars : Nat := 390
  starting_cash : Notional := 1000000
  artifact_root : String := "results"
  deriving DecidableEq, Repr

/-- What a call of the host is given, and the files that a start finds. -/
structure Kwargs (F : Type) where
  files : F
  options : StartOptions := {}
  request : ManualOrder := {}

structure Sample where
  ts : Timestamp := kNoTimestamp
  equity : Notional := 0
  cash : Notional := 0
  realized_pnl : Notional := 0
  unrealized_pnl : Notional := 0
  gross_exposure : Notional := 0
  net_exposure : Notional := 0
  deriving DecidableEq, Repr

/-- A session with the equity sampled of it. `recorded` is not the program's: it
holds every sample since the session started. -/
structure Sampled (R F : Type) where
  impl : Impl R F
  history : List Sample := []
  recorded : List Sample := []

def Impl.sample (w : Impl R F) : Sample where
  ts := w.session.engine.clock
  equity := w.session.engine.pf.equity
  cash := w.session.engine.pf.cash
  realized_pnl := w.session.engine.pf.realized_pnl
  unrealized_pnl := w.session.engine.pf.unrealized_pnl
  gross_exposure := w.session.engine.pf.gross_exposure
  net_exposure := w.session.engine.pf.net_exposure

def Sampled.record_sample (w : Sampled R F) : Sampled R F :=
  { w with
    history := push_bounded kMaxHistory w.history w.impl.sample
    recorded := w.recorded ++ [w.impl.sample] }

/-! ### A session of the host -/

def minutes (n : Int) : Duration := n * 60000000000

section Session

variable (fmt : DoubleFormat Rat) (fs : IFileSystem F) (math : MathFunctions Rat)
  (simulator : UInt64 → BrokerSimulator R)

/-- The loop over the bars of the replay. The session is half-open, so a bar that
closes on its close is outside it. -/
def synthetic_bars (options : StartOptions) (day : market.Session) :
    Nat → Nat → Timestamp → Result (List MarketEvent)
  | 0, _, _ => .ok []
  | left + 1, i, t =>
    if day.close ≤ t + minutes 1 then .ok []
    else
      let drift : Rat := 0.02 / options.bars
      let phase : Rat := i + (options.seed % 997).toNat
      let px : Rat := 500 * (1 + drift * i) + math.sin (phase * 0.11) * 3
      match Bar.from_left_edge kInstrument t (minutes 1) px (px + 0.05) (px - 0.05) px 50000 with
      | .error err => .error err
      | .ok bar => (synthetic_bars options day left (i + 1) (t + minutes 1)).map (MarketEvent.bar bar :: ·)

/-- The session over a replay, before it starts. -/
def hostSession (args : Kwargs F) (source : ReplaySource) (now : Timestamp) :
    paper.PaperSession R ReplaySource F where
  config := { session_id := args.options.session_id, persist_every_events := 50 }
  engine := {
    clock := now
    broker := simulator args.options.seed
    pf := Portfolio.new { initial_cash := args.options.starting_cash }
    risk := { limits := { max_concentration := 1, max_daily_turnover := 100 } } }
  source
  artifacts := { root := args.options.artifact_root, files := args.files }

/-- `start`, once the host is free. The opening balance is the first sample. -/
def Sampled.build (args : Kwargs F) : Result (Sampled R F) :=
  match Calendar.build us_equities_spec 2024 2024 with
  | .error err => .error err
  | .ok calendar =>
    match calendar.session_on ((parse_timestamp "2024-07-02".toList).getD 0) with
    | none => .error (bad "the reference date is not a trading day")
    | some day =>
      match synthetic_bars math args.options day args.options.bars 0 day.open_ with
      | .error err => .error err
      | .ok bars =>
        match with_session_events bars calendar with
        | .error err => .error err
        | .ok events =>
          match ReplaySource.create events (some 0) with
          | .error err => .error err
          | .ok (source, now) =>
            match (hostSession simulator args source now).start fmt fs hostStrategy {} with
            | (.error err, _) => .error err
            | (.ok _, session, strategy) =>
              .ok (Sampled.record_sample { impl := { session, strategy, instruments := hostInstruments } })

/-- A sample is taken only of a step that found an event. An exception leaves the
host as a step without one does. -/
def Sampled.step (max_events : Nat) (w : Sampled R F) : Result Nat × Sampled R F :=
  let (result, session, strategy) := w.impl.session.step fmt fs hostStrategy replay w.impl.strategy max_events
  let w := { w with impl := { w.impl with session, strategy } }
  match result with
  | .error (.returned err) => (.error err, w)
  | .error (.thrown _) => (.ok 0, w)
  | .ok processed => (.ok processed, if 0 < processed then w.record_sample else w)

def Sampled.shutdown (w : Sampled R F) : Result Bool × Sampled R F :=
  let (result, session, strategy) := w.impl.session.shutdown fmt fs hostStrategy w.impl.strategy
  (result, { w with impl := { w.impl with session, strategy } })

def hostedSession : PaperSession (Sampled R F) (Kwargs F) where
  build := Sampled.build fmt fs math simulator
  shutdown := Sampled.shutdown fmt fs
  step := Sampled.step fmt fs
  enqueue_order args w :=
    ((w.impl.enqueue_order args.request).1, { w with impl := (w.impl.enqueue_order args.request).2 })
  enqueue_cancel order_id w :=
    let order_id : OrderId := .ofNat order_id
    ((w.impl.enqueue_cancel order_id).1, { w with impl := (w.impl.enqueue_cancel order_id).2 })
  enqueue_cancel_all w := (.ok w.impl.enqueue_cancel_all.1, { w with impl := w.impl.enqueue_cancel_all.2 })
  enqueue_flatten w := (.ok w.impl.enqueue_flatten.1, { w with impl := w.impl.enqueue_flatten.2 })
  set_halted halted w := { w with impl := w.impl.set_strategy_halted halted }
  halted w := w.impl.strategy.halted

end Session

/-! ### What it reports -/

/-- The engine's tracker, fed the samples that were kept. -/
def Sampled.drawdown (w : Sampled R F) : DrawdownTracker :=
  w.history.foldl (fun t p => (t.update p.ts p.equity).2) {}

/-- The curve of `history_json`. -/
structure HistoryReport where
  total_points : Nat
  stride : Nat
  max_drawdown : Rat
  current_drawdown : Rat
  peak_equity : Notional
  points : List Sample
  deriving DecidableEq, Repr

def history_stride (max_points size : Nat) : Nat :=
  if max_points = 0 ∨ size ≤ max_points then 1 else (size + max_points - 1) / max_points

/-- Every `stride`-th point, and always the last. -/
def history_points (stride : Nat) (curve : List Sample) : List Sample :=
  ((curve.zipIdx.filter fun p => p.2 % stride = 0).map Prod.fst) ++
    if (curve.length - 1) % stride ≠ 0 then curve.getLast?.toList else []

def Sampled.report (w : Sampled R F) (max_points : Nat) : HistoryReport where
  total_points := w.history.length
  stride := history_stride max_points w.history.length
  max_drawdown := w.drawdown.max_
  current_drawdown := w.drawdown.current
  peak_equity := w.drawdown.peak
  points := history_points (history_stride max_points w.history.length) w.history

def iso_or_empty (ts : Timestamp) : String := if is_set ts then to_iso8601 ts else ""

def Sample.to_json (fmt : DoubleFormat Rat) (p : Sample) : String :=
  "\x7b\"ts\": \"" ++ iso_or_empty p.ts ++ "\", \"equity\": " ++ fmt.num p.equity ++ ", \"cash\": " ++
    fmt.num p.cash ++ ", \"realized_pnl\": " ++ fmt.num p.realized_pnl ++ ", \"unrealized_pnl\": " ++
    fmt.num p.unrealized_pnl ++ ", \"gross_exposure\": " ++ fmt.num p.gross_exposure ++
    ", \"net_exposure\": " ++ fmt.num p.net_exposure ++ "\x7d"

def HistoryReport.to_json (fmt : DoubleFormat Rat) (r : HistoryReport) : String :=
  "\x7b\"available\": true, \"total_points\": " ++ toString r.total_points ++ ", \"stride\": " ++
    toString r.stride ++ ", \"max_drawdown\": " ++ fmt.num r.max_drawdown ++ ", \"current_drawdown\": " ++
    fmt.num r.current_drawdown ++ ", \"peak_equity\": " ++ fmt.num r.peak_equity ++ ", \"points\": [" ++
    ", ".intercalate (r.points.map (Sample.to_json fmt)) ++ "]\x7d"

def PaperSessionHost.history_json (fmt : DoubleFormat Rat) (h : PaperSessionHost (Sampled R F))
    (max_points : Nat) : String :=
  match h.impl with
  | none => "\x7b\"available\": false, \"points\": []\x7d"
  | some w =>
    if w.history = [] then
      "\x7b\"available\": true, \"points\": [], \"max_drawdown\": 0.0, \"current_drawdown\": 0.0\x7d"
    else (w.report max_points).to_json fmt

/-! ### The tracker over ordered samples -/

/-- Samples as a running clock takes them, from one time to another. -/
structure Timed (samples : List Sample) (now : Timestamp) : Prop where
  ordered : samples.Pairwise fun p q => p.ts ≤ q.ts
  within : ∀ p ∈ samples, 0 ≤ p.ts ∧ p.ts ≤ now

theorem Timed.mono {samples : List Sample} {now later : Timestamp} (htimed : Timed samples now)
    (hle : now ≤ later) : Timed samples later :=
  ⟨htimed.ordered, fun p hp => ⟨(htimed.within p hp).1, (htimed.within p hp).2.trans hle⟩⟩

theorem Timed.concat {samples : List Sample} {p : Sample} (htimed : Timed samples p.ts) (hset : 0 ≤ p.ts) :
    Timed (samples ++ [p]) p.ts := by
  refine ⟨List.pairwise_append.mpr ⟨htimed.ordered, List.pairwise_singleton _ _, ?_⟩, ?_⟩
  · intro q hq r hr
    rw [List.mem_singleton.mp hr]
    exact (htimed.within q hq).2
  · intro q hq
    obtain hq | hq := List.mem_append.mp hq
    · exact htimed.within q hq
    · rw [List.mem_singleton.mp hq]
      exact ⟨hset, le_rfl⟩

theorem is_set_of_nonneg {ts : Timestamp} (hnonneg : 0 ≤ ts) : is_set ts = true := by
  refine decide_eq_true fun heq => ?_
  rw [heq] at hnonneg
  exact absurd hnonneg (by decide)

/-- The tracker takes every one of them. -/
theorem follows_of_timed {samples : List Sample} {now : Timestamp} (htimed : Timed samples now) :
    (samples.foldl (fun t p => (t.update p.ts p.equity).2) ({} : DrawdownTracker)).Follows
        (samples.map Sample.equity) ∧
      (is_set (samples.foldl (fun t p => (t.update p.ts p.equity).2) ({} : DrawdownTracker)).last_ts = true →
        ∃ p ∈ samples, p.ts =
          (samples.foldl (fun t p => (t.update p.ts p.equity).2) ({} : DrawdownTracker)).last_ts) := by
  induction samples using List.reverseRecOn with
  | nil => exact ⟨.start, fun hset => absurd hset (by decide)⟩
  | append_singleton samples p ih =>
    obtain ⟨hordered, -, hlast⟩ := List.pairwise_append.mp htimed.ordered
    obtain ⟨hfollows, hseen⟩ :=
      ih ⟨hordered, fun q hq => htimed.within q (List.mem_append_left _ hq)⟩
    rw [List.foldl_concat, List.map_append, List.map_singleton]
    generalize samples.foldl (fun t p => (t.update p.ts p.equity).2) ({} : DrawdownTracker) = t at hfollows hseen
    have hset := is_set_of_nonneg (htimed.within p (List.mem_append_right _ (List.mem_singleton_self p))).1
    have hnext : is_set t.last_ts = true → t.last_ts ≤ p.ts := by
      intro hlast_set
      obtain ⟨q, hq, hts⟩ := hseen hlast_set
      rw [← hts]
      exact hlast q hq p (List.mem_singleton_self p)
    rw [DrawdownTracker.update_ok (p := { ts := p.ts, equity := p.equity }) hset hnext]
    refine ⟨hfollows.observe p.ts p.equity, fun _ => ⟨p, List.mem_append_right _ (List.mem_singleton_self p), ?_⟩⟩
    exact (t.observe_recorded p.ts p.equity).1.symm

/-! ### How far a session gets -/

/-- From one session to a later one, `made` events on. -/
structure Progresses (made : Nat) (p p' : paper.PaperSession R ReplaySource F) : Prop where
  events_eq : p'.source.events = p.source.events
  next_le : p.source.next + made ≤ p'.source.next
  within : p.source.next ≤ p.source.events.length → p'.source.next ≤ p'.source.events.length
  clock_le : p.engine.clock ≤ p'.engine.clock

/-- Neither the source nor the clock has moved. -/
theorem Progresses.still {p p' : paper.PaperSession R ReplaySource F} (hsource : p'.source = p.source)
    (hclock : p'.engine.clock = p.engine.clock) : Progresses 0 p p' where
  events_eq := by rw [hsource]
  next_le := by rw [hsource, Nat.add_zero]
  within hle := by rwa [hsource]
  clock_le := hclock.ge

theorem Progresses.trans {made more : Nat} {p p' p'' : paper.PaperSession R ReplaySource F}
    (hfirst : Progresses made p p') (hsecond : Progresses more p' p'') : Progresses (made + more) p p'' where
  events_eq := hsecond.events_eq.trans hfirst.events_eq
  next_le := by
    have hle := hfirst.next_le
    have hle' := hsecond.next_le
    omega
  within hle := hsecond.within (hfirst.within hle)
  clock_le := hfirst.clock_le.trans hsecond.clock_le

theorem Progresses.fewer {made less : Nat} {p p' : paper.PaperSession R ReplaySource F}
    (hprogresses : Progresses made p p') (hless : less ≤ made) : Progresses less p p' :=
  ⟨hprogresses.events_eq, (Nat.add_le_add_left hless _).trans hprogresses.next_le, hprogresses.within,
    hprogresses.clock_le⟩

section Progress

variable {fmt : DoubleFormat Rat} {fs : IFileSystem F}

theorem next_event_within {source q : ReplaySource} {clock now : Timestamp} {ev : MarketEvent}
    (hnext : source.next_event clock = .ok (some (ev, q, now))) :
    q.next = source.next + 1 ∧ source.next < source.events.length := by
  unfold ReplaySource.next_event at hnext
  split at hnext
  · cases hnext
  · rename_i hevent
    split at hnext
    · cases hnext
    · cases hnext
      exact ⟨rfl, (List.getElem?_eq_some_iff.mp hevent).1⟩

/-- One event of a session. -/
theorem progresses_of_step {p p' : paper.PaperSession R ReplaySource F} {h : HostStrategy} {made : Nat}
    {w : World R HostStrategy ReplaySource} {result : Result Bool}
    (hstep : (p.world h).step hostStrategy replay 1 = .ok (made + 1, w))
    (hbetween : { p with engine := w.engine, source := w.source }.between fmt fs = (result, p')) :
    Progresses 1 p p' := by
  have hrests := paper.PaperSession.between_rests hbetween
  obtain ⟨risk, hengine⟩ := hrests.engine_eq
  have hnext := World.next_of_step hstep
  unfold World.next at hnext
  split at hnext
  · cases hnext
  · cases hnext
  · rename_i ev q now harrived
    split at hnext
    · cases hnext
    · rename_i e s hhandle
      cases hnext
      have hsource : p'.source = q := hrests.source_eq
      have hclock : p'.engine.clock = now := by
        rw [hengine]
        exact (Engine.handle_clock hhandle : e.clock = now)
      obtain ⟨hnext, hwithin⟩ := next_event_within harrived
      have hevents : q.events = p.source.events := (next_event_mem harrived).2
      refine ⟨?_, ?_, fun _ => ?_, ?_⟩
      · rw [hsource, hevents]
      · rw [hsource, hnext]
        exact le_rfl
      · rw [hsource, hnext, hevents]
        exact hwithin
      · rw [hclock]
        exact (ReplaySource.next_event_ok harrived).1

/-- The events that a call of `step` answers with. -/
def made (result : Except Failure Nat) : Nat := result.toOption.getD 0

theorem progresses_advance (n : Nat) (p : paper.PaperSession R ReplaySource F) (h : HostStrategy) :
    Progresses (made (p.advance fmt fs hostStrategy replay n h).1) p
      (p.advance fmt fs hostStrategy replay n h).2.1 := by
  induction n generalizing p h with
  | zero => exact .still rfl rfl
  | succ n ih =>
    rw [paper.PaperSession.advance]
    split
    · exact .still rfl rfl
    · split
      · exact .still rfl rfl
      · exact .still rfl rfl
      · exact .still rfl rfl
      · rename_i processed w hstep
        split
        · rename_i err p' hbetween
          exact (progresses_of_step hstep hbetween).fewer (Nat.zero_le 1)
        · rename_i done p' hbetween
          have hfirst := progresses_of_step hstep hbetween
          have hrest := ih p' w.strategy
          generalize p'.advance fmt fs hostStrategy replay n w.strategy = answer at hrest ⊢
          obtain ⟨result, p'', h''⟩ := answer
          cases result with
          | error failure => exact (hfirst.trans hrest).fewer (Nat.zero_le _)
          | ok more => exact (hfirst.trans hrest).fewer (Nat.add_comm more 1).le

variable (fmt fs) in
theorem progresses_step (n : Nat) (p : paper.PaperSession R ReplaySource F) (h : HostStrategy) :
    Progresses (made (p.step fmt fs hostStrategy replay h n).1) p
      (p.step fmt fs hostStrategy replay h n).2.1 := by
  unfold paper.PaperSession.step
  split
  · exact .still rfl rfl
  · split
    · exact .still rfl rfl
    · exact progresses_advance n p h

theorem progresses_shutdown (p : paper.PaperSession R ReplaySource F) (h : HostStrategy) :
    Progresses 0 p (p.shutdown fmt fs hostStrategy h).2.1 := by
  unfold paper.PaperSession.shutdown
  split
  · exact .still rfl rfl
  · dsimp only
    split
    · rename_i hpersist
      obtain ⟨artifacts, persists, rfl⟩ := paper.PaperSession.persist_eq hpersist
      split <;> exact .still rfl rfl
    · rename_i hpersist
      obtain ⟨artifacts, persists, rfl⟩ := paper.PaperSession.persist_eq hpersist
      split <;> exact .still rfl rfl

end Progress

/-! ### What a start leaves -/

theorem length_flatMap_bracket {runs : List (market.Session × List MarketEvent)}
    (hnonempty : ∀ run ∈ runs, run.2 ≠ []) :
    (runs.flatMap bracket).length ≤ 3 * (runs.flatMap Prod.snd).length := by
  induction runs with
  | nil => exact le_rfl
  | cons run runs ih =>
    obtain ⟨hrun, hruns⟩ := List.forall_mem_cons.mp hnonempty
    have hpos := List.length_pos_iff.mpr hrun
    have hrest := ih hruns
    simp only [List.flatMap_cons, List.length_append, bracket, List.length_cons, List.length_nil]
    omega

section Start

variable {fmt : DoubleFormat Rat} {fs : IFileSystem F} {math : MathFunctions Rat}
  {simulator : UInt64 → BrokerSimulator R}

theorem minutes_succ (n : Int) : minutes (n + 1) = minutes n + minutes 1 := Int.add_mul n 1 _

/-- The bars of a day close before it does. -/
theorem synthetic_bars_fit {options : StartOptions} {day : market.Session} {left i : Nat} {t : Timestamp}
    {bars : List MarketEvent} (hbars : synthetic_bars math options day left i t = .ok bars) :
    bars = [] ∨ t + minutes bars.length < day.close := by
  induction left generalizing i t bars with
  | zero =>
    cases hbars
    exact .inl rfl
  | succ left ih =>
    rw [synthetic_bars] at hbars
    split at hbars
    · cases hbars
      exact .inl rfl
    · rename_i hopen
      dsimp only at hbars
      split at hbars
      · cases hbars
      · cases hrest : synthetic_bars math options day left (i + 1) (t + minutes 1) with
        | error err =>
          rw [hrest] at hbars
          cases hbars
        | ok rest =>
          rw [hrest] at hbars
          cases hbars
          right
          rw [List.length_cons, Nat.cast_succ, minutes_succ, ← add_assoc]
          obtain rfl | hfits := ih hrest
          · simpa [minutes] using not_le.mp hopen
          · rwa [add_right_comm]

/-- The one day that is replayed is six and a half hours long. -/
theorem replayed_day {c : Calendar} {day : market.Session} (hbuild : Calendar.build us_equities_spec 2024 2024 = .ok c)
    (hday : c.session_on ((parse_timestamp "2024-07-02".toList).getD 0) = some day) :
    day.close = day.open_ + minutes 390 := by
  have hdays : ((Calendar.build us_equities_spec 2024 2024).toOption.bind fun c =>
      (c.session_on ((parse_timestamp "2024-07-02".toList).getD 0)).map fun day => day.close - day.open_) =
        some (minutes 390) := by decide +kernel
  rw [hbuild] at hdays
  have hlong : (c.session_on ((parse_timestamp "2024-07-02".toList).getD 0)).map
      (fun day => day.close - day.open_) = some (minutes 390) := hdays
  rw [hday] at hlong
  have heq : day.close - day.open_ = minutes 390 := Option.some.inj hlong
  rw [← heq]
  exact (add_sub_cancel day.open_ day.close).symm

theorem opens_nonneg {c : Calendar} (hbuild : Calendar.build us_equities_spec 2024 2024 = .ok c)
    {s : market.Session} (hs : s ∈ c.all) (hopen : s.is_open = true) : 0 ≤ s.open_ := by
  have hall : ((Calendar.build us_equities_spec 2024 2024).toOption.all fun c =>
      c.all.all fun s => s.is_open = true → 0 ≤ s.open_) = true := by decide +kernel
  rw [hbuild] at hall
  have hopens : (c.all.all fun s => s.is_open = true → 0 ≤ s.open_) = true := hall
  exact of_decide_eq_true (List.all_eq_true.mp hopens s hs) hopen

/-- The events of a day are fewer than the samples that are kept, and the clock
starts at none or at one of its session. -/
theorem replayed_events {c : Calendar} {day : market.Session} {options : StartOptions} {bars events : List MarketEvent}
    (hbuild : Calendar.build us_equities_spec 2024 2024 = .ok c)
    (hday : c.session_on ((parse_timestamp "2024-07-02".toList).getD 0) = some day)
    (hbars : synthetic_bars math options day options.bars 0 day.open_ = .ok bars)
    (hevents : with_session_events bars c = .ok events) :
    events.length + 1 ≤ kMaxHistory ∧ ∀ ev ∈ events.head?, 0 ≤ receive_time_of ev := by
  obtain ⟨runs, hruns, rfl, rfl⟩ := with_session_events_runs hevents
  refine ⟨?_, ?_⟩
  · have hfew : (runs.flatMap Prod.snd).length ≤ 390 := by
      obtain hnone | hfits := synthetic_bars_fit hbars
      · rw [hnone]
        exact Nat.zero_le _
      · rw [replayed_day hbuild hday] at hfits
        have hless : ((runs.flatMap Prod.snd).length : Int) * 60000000000 < 390 * 60000000000 :=
          Int.lt_of_add_lt_add_left hfits
        omega
    have hlength := length_flatMap_bracket hruns.nonempty
    have hmost : kMaxHistory = 2000 := rfl
    omega
  · intro ev hev
    cases runs with
    | nil => cases hev
    | cons run runs =>
      cases hev
      obtain ⟨e, he⟩ := List.exists_mem_of_ne_nil _ (hruns.nonempty run List.mem_cons_self)
      obtain ⟨hdate, hin, -⟩ := c.session_containing_some (hruns.contained run List.mem_cons_self e he)
      exact opens_nonneg hbuild (c.find_by_date_some hdate).1 (Session.contains_iff.mp hin).1

theorem build_starts {args : Kwargs F} {w : Sampled R F} (hbuild : Sampled.build fmt fs math simulator args = .ok w) :
    ∃ impl : Impl R F, w = Sampled.record_sample { impl } ∧ impl.session.source.next = 0 ∧
      impl.session.source.events.length + 1 ≤ kMaxHistory ∧ 0 ≤ impl.session.engine.clock := by
  unfold Sampled.build at hbuild
  split at hbuild
  · cases hbuild
  · rename_i calendar hcalendar
    split at hbuild
    · cases hbuild
    · rename_i day hday
      split at hbuild
      · cases hbuild
      · rename_i bars hbars
        split at hbuild
        · cases hbuild
        · rename_i events hevents
          split at hbuild
          · cases hbuild
          · rename_i source now hcreate
            split at hbuild
            · cases hbuild
            · rename_i done session strategy hstart
              cases hbuild
              obtain ⟨recovered, hrecover, hengine, -, -, hsource, -⟩ := paper.PaperSession.start_ok hstart
              obtain ⟨hsame, hnext, hnow⟩ := ReplaySource.create_ok hcreate
              obtain ⟨hfew, hfirst⟩ := replayed_events hcalendar hday hbars hevents
              obtain ⟨hengine', hsource'⟩ := paper.PaperSession.recover_keeps hrecover
              have hreplay : session.source = source := hsource.trans hsource'
              have hclock : session.engine.clock = now := by
                rw [hengine, hengine']
                rfl
              refine ⟨_, rfl, ?_, ?_, ?_⟩
              · rw [hreplay, hnext]
              · rw [hreplay, hsame]
                exact hfew
              · rw [hclock, hnow]
                split
                · rename_i hset
                  cases hhead : events.head? with
                  | none =>
                    rw [hhead] at hset
                    exact absurd hset (by decide)
                  | some ev => exact hfirst ev hhead
                · exact le_rfl

end Start

/-! ### A host's calls -/

/-- A call of the host: a command, or a step. -/
inductive PaperCall (K : Type) where
  | command (command : app.engine.Command K)
  | step (max_events : Nat)
  deriving DecidableEq, Repr

section Calls

variable {W K : Type} (session : PaperSession W K)

def PaperSessionHost.call (h : PaperSessionHost W) : PaperCall K → PaperSessionHost W
  | .command (.start kwargs) => (h.start session kwargs).2
  | .command .stop => (h.stop session).2
  | .command command => ((sessionBackend session).trade command h).2
  | .step max_events => (h.step session max_events).2

/-- Calls of a host that has no session at first. -/
def paperHost : Machine (PaperSessionHost W) (PaperCall K) where
  Init h := h = {}
  step h call := some (h.call session call)

/-- The call starts a session. -/
def PaperSessionHost.Starts (h : PaperSessionHost W) : PaperCall K → Prop
  | .command (.start kwargs) => (h.start session kwargs).1.toOption.isSome = true
  | _ => False

/-- What a call other than a start can do to a session. -/
inductive Turns (w : W) : W → Prop where
  | shutdown : Turns w (session.shutdown w).2
  | step (max_events : Nat) : Turns w (session.step max_events w).2
  | enqueue_order (kwargs : K) : Turns w (session.enqueue_order kwargs w).2
  | enqueue_cancel (order_id : Nat) : Turns w (session.enqueue_cancel order_id w).2
  | enqueue_cancel_all : Turns w (session.enqueue_cancel_all w).2
  | enqueue_flatten : Turns w (session.enqueue_flatten w).2
  | set_halted (halted : Bool) : Turns w (session.set_halted halted w)

variable {session} {h : PaperSessionHost W}

theorem PaperSessionHost.withSession_impl {T : Type} (missing : String) {call : W → Result T × W}
    (hturns : ∀ w, Turns session w (call w).2) {w' : W} (hafter : (h.withSession missing call).2.impl = some w') :
    ∃ w, h.impl = some w ∧ (w' = w ∨ Turns session w w') := by
  unfold PaperSessionHost.withSession at hafter
  split at hafter
  · exact ⟨w', hafter, .inl rfl⟩
  · split at hafter
    · exact ⟨w', hafter, .inl rfl⟩
    · rename_i w himpl
      cases hafter
      exact ⟨w, himpl, .inr (hturns w)⟩

variable (session) in
/-- A start that fails leaves the session there was. -/
theorem PaperSessionHost.start_impl (h : PaperSessionHost W) (kwargs : K) :
    ((h.start session kwargs).1.toOption.isSome = false ∧ (h.start session kwargs).2.impl = h.impl) ∨
      ∃ w, session.build kwargs = .ok w ∧ (h.start session kwargs).1.toOption.isSome = true ∧
        (h.start session kwargs).2.impl = some w := by
  unfold PaperSessionHost.start
  split
  · exact .inl ⟨rfl, rfl⟩
  · split
    · exact .inl ⟨rfl, rfl⟩
    · split
      · exact .inl ⟨rfl, rfl⟩
      · rename_i w hbuild
        exact .inr ⟨w, hbuild, rfl, rfl⟩

/-- The session after a call that starts none is the one there was, turned at
most once. -/
theorem PaperSessionHost.call_turns {call : PaperCall K} (hnot : ¬ h.Starts session call) {w' : W}
    (hafter : (h.call session call).impl = some w') : ∃ w, h.impl = some w ∧ (w' = w ∨ Turns session w w') := by
  cases call with
  | step max_events =>
    change (h.step session max_events).2.impl = some w' at hafter
    have hstepped : (h.withSession "no running session to step" (session.step max_events)).2.impl = some w' →
        ∃ w, h.impl = some w ∧ (w' = w ∨ Turns session w w') := h.withSession_impl _ fun _ => .step max_events
    unfold PaperSessionHost.step at hafter
    generalize h.withSession "no running session to step" (session.step max_events) = answer at hafter hstepped
    obtain ⟨result, h'⟩ := answer
    refine hstepped ?_
    cases result with
    | ok events => exact hafter
    | error err =>
      dsimp only at hafter
      split at hafter <;> exact hafter
  | command command =>
    cases command with
    | start kwargs =>
      change (h.start session kwargs).2.impl = some w' at hafter
      obtain ⟨-, hsame⟩ | ⟨w, -, hstarted, -⟩ := h.start_impl session kwargs
      · exact ⟨w', hsame ▸ hafter, .inl rfl⟩
      · exact absurd hstarted hnot
    | stop =>
      change (h.stop session).2.impl = some w' at hafter
      unfold PaperSessionHost.stop at hafter
      split at hafter
      · exact ⟨w', hafter, .inl rfl⟩
      · split at hafter
        · rename_i err w hfailed
          cases hafter
          obtain ⟨w, himpl, hshut⟩ := Option.map_eq_some_iff.mp hfailed
          have hturn : Turns session w (session.shutdown w).2 := .shutdown
          rw [hshut] at hturn
          exact ⟨w, himpl, .inr hturn⟩
        · cases hafter
    | submit_order kwargs => exact h.withSession_impl _ (fun _ => .enqueue_order kwargs) hafter
    | cancel_order order_id => exact h.withSession_impl _ (fun _ => .enqueue_cancel order_id) hafter
    | cancel_all => exact h.withSession_impl _ (fun _ => .enqueue_cancel_all) hafter
    | flatten => exact h.withSession_impl _ (fun _ => .enqueue_flatten) hafter
    | set_halted halted =>
      obtain ⟨w, himpl, rfl⟩ := Option.map_eq_some_iff.mp hafter
      exact ⟨w, himpl, .inr (.set_halted halted)⟩

/-- The session after a call that starts one is a new one. -/
theorem PaperSessionHost.call_starts {call : PaperCall K} (hstarts : h.Starts session call) {w' : W}
    (hafter : (h.call session call).impl = some w') : ∃ kwargs, session.build kwargs = .ok w' := by
  unfold PaperSessionHost.Starts at hstarts
  split at hstarts
  · rename_i kwargs
    change (h.start session kwargs).2.impl = some w' at hafter
    obtain ⟨hfailed, -⟩ | ⟨w, hbuild, -, hnew⟩ := h.start_impl session kwargs
    · rw [hfailed] at hstarts
      cases hstarts
    · rw [hnew] at hafter
      cases hafter
      exact ⟨kwargs, hbuild⟩
  · exact hstarts.elim

/-- What every start makes true and every turn keeps is true of the session of
any host. -/
theorem paperHost_invariant {I : W → Prop} (hbuild : ∀ kwargs w, session.build kwargs = .ok w → I w)
    (hturns : ∀ w w', I w → Turns session w w' → I w') {h : PaperSessionHost W}
    (hreach : (paperHost session).Reachable h) : ∀ w ∈ h.impl, I w := by
  refine hreach.invariant (I := fun h => ∀ w ∈ h.impl, I w) ?_ ?_
  · rintro h rfl w hw
    cases hw
  · rintro h call h' - hinvariant - hcall w' hw'
    cases hcall
    by_cases hstarts : h.Starts session call
    · obtain ⟨kwargs, hbuilt⟩ := PaperSessionHost.call_starts hstarts hw'
      exact hbuild kwargs w' hbuilt
    · obtain ⟨w, hw, rfl | hturn⟩ := PaperSessionHost.call_turns hstarts hw'
      · exact hinvariant _ hw
      · exact hturns w w' (hinvariant w hw) hturn

/-- Calls that start no session take the one there was along what every turn
relates. -/
theorem paperHost_along {T : W → W → Prop} (hrefl : ∀ w, T w w) (htrans : ∀ w w' w'', T w w' → T w' w'' → T w w'')
    (hturns : ∀ w w', Turns session w w' → T w w') {calls : List (PaperCall K)} {h h' : PaperSessionHost W}
    (hcalls : (paperHost session).Along (fun h call => ¬ h.Starts session call) h calls)
    (hexec : (paperHost session).exec h calls = some h') {w' : W} (hw' : h'.impl = some w') :
    ∃ w, h.impl = some w ∧ T w w' := by
  induction calls generalizing h with
  | nil =>
    cases hexec
    exact ⟨w', hw', hrefl w'⟩
  | cons call calls ih =>
    obtain ⟨hnot, hrest⟩ := hcalls
    obtain ⟨w₁, hw₁, hlater⟩ := ih (hrest _ rfl) hexec
    obtain ⟨w, hw, rfl | hturn⟩ := PaperSessionHost.call_turns hnot hw₁
    · exact ⟨_, hw, hlater⟩
    · exact ⟨w, hw, htrans w w₁ w' (hturns w w₁ hturn) hlater⟩

end Calls

/-! ### The session's own drawdown -/

/-- Every sample is kept, as there was at most one for each event and there are
fewer events than samples that can be kept. -/
structure Sampled.Sound (w : Sampled R F) : Prop where
  history_eq : w.history = w.recorded
  nonempty : w.recorded ≠ []
  few : w.recorded.length ≤ w.impl.session.source.next + 1
  within : w.impl.session.source.next ≤ w.impl.session.source.events.length
  short : w.impl.session.source.events.length + 1 ≤ kMaxHistory
  timed : Timed w.recorded w.impl.session.engine.clock
  clock_nonneg : 0 ≤ w.impl.session.engine.clock

section Sound

variable {fmt : DoubleFormat Rat} {fs : IFileSystem F} {math : MathFunctions Rat}
  {simulator : UInt64 → BrokerSimulator R} {w w' : Sampled R F}

/-- A sample for which there is room. -/
theorem Sampled.record_sound (hhistory : w.history = w.recorded)
    (hfew : w.recorded.length ≤ w.impl.session.source.next)
    (hwithin : w.impl.session.source.next ≤ w.impl.session.source.events.length)
    (hshort : w.impl.session.source.events.length + 1 ≤ kMaxHistory)
    (htimed : Timed w.recorded w.impl.session.engine.clock) (hset : 0 ≤ w.impl.session.engine.clock) :
    w.record_sample.Sound where
  history_eq := by
    have hroom : ¬ kMaxHistory < (w.history ++ [w.impl.sample]).length := by
      rw [hhistory, List.length_append, List.length_singleton]
      omega
    rw [Sampled.record_sample, push_bounded, if_neg hroom, hhistory]
  nonempty := List.append_ne_nil_of_right_ne_nil _ (List.cons_ne_nil _ [])
  few := by
    rw [Sampled.record_sample, List.length_append, List.length_singleton]
    exact Nat.succ_le_succ hfew
  within := hwithin
  short := hshort
  timed := htimed.concat hset
  clock_nonneg := hset

theorem Sampled.build_sound {args : Kwargs F} (hbuild : Sampled.build fmt fs math simulator args = .ok w) :
    w.Sound := by
  obtain ⟨impl, rfl, hnext, hshort, hset⟩ := build_starts hbuild
  refine Sampled.record_sound rfl (Nat.zero_le _) ?_ hshort ⟨.nil, fun p hp => (by cases hp)⟩ hset
  dsimp only
  rw [hnext]
  exact Nat.zero_le _

/-- A session that moved on keeps its samples. -/
theorem Sampled.Sound.moved {count : Nat} {session : paper.PaperSession R ReplaySource F} {impl : Impl R F}
    (hsound : w.Sound) (hprogresses : Progresses count w.impl.session session) (himpl : impl.session = session) :
    Sampled.Sound { w with impl } where
  history_eq := hsound.history_eq
  nonempty := hsound.nonempty
  few := by
    have hfew := hsound.few
    have hnext := hprogresses.next_le
    dsimp only
    rw [himpl]
    omega
  within := by
    dsimp only
    rw [himpl]
    exact hprogresses.within hsound.within
  short := by
    dsimp only
    rw [himpl, hprogresses.events_eq]
    exact hsound.short
  timed := by
    dsimp only
    rw [himpl]
    exact hsound.timed.mono hprogresses.clock_le
  clock_nonneg := by
    dsimp only
    rw [himpl]
    exact hsound.clock_nonneg.trans hprogresses.clock_le

theorem Sampled.Sound.queued {impl : Impl R F} (hsound : w.Sound) (hsession : impl.session = w.impl.session) :
    Sampled.Sound { w with impl } :=
  hsound.moved (.still rfl rfl) hsession

theorem Sampled.Sound.step (hsound : w.Sound) (max_events : Nat) :
    (w.step fmt fs max_events).2.Sound := by
  have hprogresses := progresses_step fmt fs max_events w.impl.session w.impl.strategy
  unfold Sampled.step
  generalize w.impl.session.step fmt fs hostStrategy replay w.impl.strategy max_events = answer at hprogresses
  obtain ⟨result, session, strategy⟩ := answer
  have hmoved : Sampled.Sound { w with impl := { w.impl with session, strategy } } := hsound.moved hprogresses rfl
  rcases result with (err | what) | processed
  · exact hmoved
  · exact hmoved
  · dsimp only
    split
    · rename_i hpos
      have hnext : w.impl.session.source.next + processed ≤ session.source.next := hprogresses.next_le
      refine Sampled.record_sound hmoved.history_eq ?_ hmoved.within hmoved.short hmoved.timed hmoved.clock_nonneg
      exact hsound.few.trans ((Nat.add_le_add_left hpos _).trans hnext)
    · exact hmoved

theorem Impl.enqueue_flatten_session (w : Impl R F) : w.enqueue_flatten.2.session = w.session := by
  have hcancels := w.enqueue_cancel_all_only
  refine Eq.trans (Impl.QueuesOnly.session_eq (P := fun _ => True) ?_) hcancels.session_eq
  refine Impl.enqueue_each_only (w := w.enqueue_cancel_all.2) ?_ rfl rfl
  exact fun entry _ w' _ _ => (w'.enqueue_order_only _).weaken fun _ _ => trivial

theorem Sampled.Sound.turn (hsound : w.Sound) (hturn : Turns (hostedSession fmt fs math simulator) w w') :
    w'.Sound := by
  cases hturn with
  | shutdown => exact hsound.moved (progresses_shutdown w.impl.session w.impl.strategy) rfl
  | step max_events => exact hsound.step max_events
  | enqueue_order args => exact hsound.queued (w.impl.enqueue_order_only args.request).session_eq
  | enqueue_cancel order_id => exact hsound.queued (w.impl.enqueue_cancel_only (.ofNat order_id)).session_eq
  | enqueue_cancel_all => exact hsound.queued w.impl.enqueue_cancel_all_only.session_eq
  | enqueue_flatten => exact hsound.queued w.impl.enqueue_flatten_session
  | set_halted halted => exact hsound.queued rfl

/-- No sample is taken back. -/
theorem Turns.recorded_prefix (hturn : Turns (hostedSession fmt fs math simulator) w w') :
    w.recorded <+: w'.recorded := by
  cases hturn with
  | step max_events =>
    change _ <+: (w.step fmt fs max_events).2.recorded
    unfold Sampled.step
    rcases w.impl.session.step fmt fs hostStrategy replay w.impl.strategy max_events with
      ⟨(err | what) | processed, session, strategy⟩
    · exact List.prefix_refl _
    · exact List.prefix_refl _
    · dsimp only
      split
      · exact List.prefix_append _ _
      · exact List.prefix_refl _
  | shutdown => exact List.prefix_refl _
  | enqueue_order args => exact List.prefix_refl _
  | enqueue_cancel order_id => exact List.prefix_refl _
  | enqueue_cancel_all => exact List.prefix_refl _
  | enqueue_flatten => exact List.prefix_refl _
  | set_halted halted => exact List.prefix_refl _

end Sound

/-- What the report says of the drawdown is true of every sample since the
session started. -/
structure Sampled.Truthful (w : Sampled R F) (r : HistoryReport) : Prop where
  max_drawdown : IsGreatest (Drawdowns (w.recorded.map Sample.equity)) r.max_drawdown
  peak_equity : IsGreatest {x | x ∈ w.recorded.map Sample.equity} r.peak_equity

theorem Sampled.Sound.truthful {w : Sampled R F} (hsound : w.Sound) (max_points : Nat) :
    w.Truthful (w.report max_points) := by
  have hne : w.recorded.map Sample.equity ≠ [] := fun hempty => hsound.nonempty (List.map_eq_nil_iff.mp hempty)
  have hfollows : w.drawdown.Follows (w.recorded.map Sample.equity) := by
    rw [Sampled.drawdown, hsound.history_eq]
    exact (follows_of_timed hsound.timed).1
  exact ⟨hfollows.worst hne, (hfollows.peak hne).2⟩

/-- In every run of a host, the drawdown and the peak it reports are those of all
samples since its session started, so while no other session is started the
drawdown never decreases. -/
theorem paperHost_truthful {fmt : DoubleFormat Rat} {fs : IFileSystem F} {math : MathFunctions Rat}
    {simulator : UInt64 → BrokerSimulator R} {h : PaperSessionHost (Sampled R F)}
    (hreach : (paperHost (hostedSession fmt fs math simulator)).Reachable h) :
    (∀ w ∈ h.impl, ∀ n, h.history_json fmt n = (w.report n).to_json fmt ∧ w.Truthful (w.report n)) ∧
      ∀ calls, (paperHost (hostedSession fmt fs math simulator)).Along
          (fun h call => ¬ h.Starts (hostedSession fmt fs math simulator) call) h calls →
        ∀ h' ∈ (paperHost (hostedSession fmt fs math simulator)).exec h calls,
          ∀ w' ∈ h'.impl, ∃ w ∈ h.impl, w.recorded <+: w'.recorded ∧
            ∀ n m, (w.report n).max_drawdown ≤ (w'.report m).max_drawdown := by
  have hsound : ∀ {h : PaperSessionHost (Sampled R F)}, (paperHost (hostedSession fmt fs math simulator)).Reachable h →
      ∀ w ∈ h.impl, w.Sound :=
    fun hreach => paperHost_invariant (fun args w hbuild => Sampled.build_sound hbuild)
      (fun w w' hsound hturn => hsound.turn hturn) hreach
  refine ⟨fun w hw n => ⟨?_, (hsound hreach w hw).truthful n⟩, ?_⟩
  · have hkept : w.history ≠ [] := by
      rw [(hsound hreach w hw).history_eq]
      exact (hsound hreach w hw).nonempty
    unfold PaperSessionHost.history_json
    rw [Option.mem_def.mp hw]
    exact if_neg hkept
  · intro calls hcalls h' hexec w' hw'
    have hreach' := hreach.exec (Machine.along_of_forall (fun _ _ => trivial) h calls) hexec
    obtain ⟨w, hw, hpre⟩ := paperHost_along (T := fun w w' : Sampled R F => w.recorded <+: w'.recorded)
      (fun w => List.prefix_refl _) (fun _ _ _ => List.IsPrefix.trans) (fun _ _ => Turns.recorded_prefix)
      hcalls hexec hw'
    refine ⟨w, hw, hpre, fun n m => ?_⟩
    have hbefore := ((hsound hreach w hw).truthful n).max_drawdown
    have hafter := ((hsound hreach' w' hw').truthful m).max_drawdown
    exact hafter.2 (Drawdowns.mono (hpre.map Sample.equity) hbefore.1)

/-- Hosts in memory, over a venue with flat costs. -/
abbrev flatHost : PaperSession (Sampled Unit (List (String × String))) (Kwargs (List (String × String))) :=
  hostedSession wholeDoubles memoryFiles { log := id, sqrt := id, sin := fun _ => 0, cos := id, pi := 0 }
    fun _ => { costs := flatCosts 1, latency := flatLatency, latency_rng := (), slippage_rng := (), fill_cfg := {} }

/-- Five shares are sold on the first of four bars, while the price rises. -/
def soldFive : List (PaperCall (Kwargs (List (String × String)))) :=
  [.command (.start { files := [], options := { bars := 4 } }),
    .command (.submit_order { files := [], request := { symbol := "SPY", side := -1, quantity := 5 } }),
    .step 2, .step 2, .step 2]

/-- The loss on them is a drawdown. -/
theorem paperHost_truthful_sold :
    ∃ h, (paperHost flatHost).Reachable h ∧ ∃ w ∈ h.impl, (w.report 0).total_points = 4 ∧
      0 < (w.report 0).max_drawdown ∧ w.Truthful (w.report 0) := by
  obtain ⟨h, hreach, hshown⟩ := Machine.Reaches.exec_map (M := paperHost flatHost) (.init rfl) soldFive
    (fun h => h.impl.elim none fun w => some ((w.report 0).total_points, decide (0 < (w.report 0).max_drawdown)))
    (b := some (4, true)) (Machine.along_of_forall (fun _ _ => trivial) _ _) (by decide +kernel)
  cases himpl : h.impl with
  | none =>
    rw [himpl] at hshown
    cases hshown
  | some w =>
    rw [himpl] at hshown
    obtain ⟨hpoints, hdrawdown⟩ := Prod.mk.inj (Option.some.inj hshown)
    exact ⟨h, hreach, w, himpl, hpoints, of_decide_eq_true hdrawdown, ((paperHost_truthful hreach).1 w himpl 0).2⟩

end ptl_host
