import TradingLab.Core.Numbers
import TradingLab.Paper.Drive
import TradingLab.Paper.RoundTrip

/-! What a restarted session knows of the one it recovers from. -/

open ptl.oms ptl.portfolio ptl.market ptl.risk ptl.execution ptl.accounting ptl.storage ptl.engine

namespace ptl.paper

variable {R S Q F : Type} {fmt : DoubleFormat Rat} {fs : IFileSystem F} {strategy : IStrategy S}
  {source : IMarketDataSource Q}

/-- A session just built, over collaborators just built, with the configuration
and the artifacts of another. -/
structure PaperSession.FreshFor (p q : PaperSession R Q F) : Prop where
  config_eq : q.config = p.config
  account_eq : q.account = p.account
  artifacts_eq : q.artifacts = p.artifacts
  created : q.phase = .Created
  unstopped : q.stop_requested = false
  stats_eq : q.stats = {}
  engine_fresh : q.engine.Fresh
  portfolio_eq : q.engine.pf.cfg = p.engine.pf.cfg
  limits_eq : q.engine.risk.limits = p.engine.risk.limits
  models_eq : q.engine.broker.costs = p.engine.broker.costs ∧
    q.engine.broker.latency = p.engine.broker.latency ∧ q.engine.broker.fill_cfg = p.engine.broker.fill_cfg

open PaperSession

/-- Further calls of `step`, whatever each of them returned. -/
def PaperSession.steps (fmt : DoubleFormat Rat) (fs : IFileSystem F) (strategy : IStrategy S)
    (source : IMarketDataSource Q) (p : PaperSession R Q F) (s : S) : List Nat → PaperSession R Q F
  | [] => p
  | max_events :: rest =>
    let (_, p, s) := p.step fmt fs strategy source s max_events
    steps fmt fs strategy source p s rest

/-- The book and the working orders of a record, and counters not below its
own. -/
structure PaperSession.Resumes (q : PaperSession R Q F) (record : SessionState Rat) : Prop where
  positions_eq : persistedPositions q.engine.pf = record.positions
  cash_eq : q.engine.pf.cash = record.account.cash
  orders_eq : persistedOrders q.engine.oms = record.working_orders

structure PaperSession.Counts (q : PaperSession R Q F) (record : SessionState Rat) : Prop where
  events_le : record.events_processed.toNat ≤ q.stats.events_processed
  fills_le : record.fills_received.toNat ≤ q.stats.fills_received
  orders_le : record.orders_submitted.toNat ≤ q.stats.orders_submitted

/-- Every fresh session that starts from what was persisted has the book of the
record, and never counts less than the record does. -/
def PaperSession.Restores (fmt : DoubleFormat Rat) (fs : IFileSystem F) (p : PaperSession R Q F)
    (record : SessionState Rat) : Prop :=
  ∀ (S : Type) (strategy : IStrategy S) (source : IMarketDataSource Q) (q q' : PaperSession R Q F) (s s' : S),
    p.FreshFor q → q.start fmt fs strategy s = (.ok true, q', s') →
    q'.Resumes record ∧ ∀ calls, (q'.steps fmt fs strategy source s' calls).Counts record

/-! ### Starting -/

/-- What a start that succeeds has recovered. -/
theorem PaperSession.start_ok {q q' : PaperSession R Q F} {s s' : S} {done : Bool}
    (hstart : q.start fmt fs strategy s = (.ok done, q', s')) :
    ∃ recovered, ({ q with connected := true } : PaperSession R Q F).recover fmt fs = .ok recovered ∧
      q'.engine = (freshEngine recovered.engine).begun ∧ q'.phase = .Running ∧ q'.emplaced = true ∧
      q'.source = recovered.source ∧ q'.stop_requested = recovered.stop_requested ∧
      q'.config = recovered.config ∧
      q'.stats.events_processed = recovered.stats.events_processed ∧
      q'.stats.fills_received = recovered.stats.fills_received ∧
      q'.stats.orders_submitted = recovered.stats.orders_submitted := by
  unfold start at hstart
  split at hstart
  · cases hstart
  · dsimp only at hstart
    split at hstart
    · cases hstart
    · rename_i recovered hrecover
      split at hstart
      · cases hstart
      · rename_i w hbegin
        cases hstart
        exact ⟨recovered, hrecover, World.begin_engine hbegin, rfl, rfl, rfl, rfl, rfl, rfl, rfl, rfl⟩

/-- A start from a record that was persisted reads that record, and takes its
counters from it. -/
theorem PaperSession.recover_persisted (hexact : fmt.Exact) (hkeeps : fs.Keeps) {p p' q : PaperSession R Q F}
    (hpersist : p.persist fmt fs = (.ok true, p')) (hfresh : p'.FreshFor q) :
    ({ q with connected := true } : PaperSession R Q F).recover fmt fs =
      match SessionState.from_json fmt (p.record.to_json fmt) with
      | .error e => .error e
      | .ok state => .ok (({ q with connected := true } : PaperSession R Q F).restore state) := by
  have hput : ∃ path, p.artifacts.put fs p.key (p.record.to_json fmt) = (.ok path, p'.artifacts) := by
    unfold persist at hpersist
    cases hput : p.artifacts.put fs p.key (p.record.to_json fmt) with
    | mk written artifacts =>
      rw [hput] at hpersist
      cases written with
      | error e => cases hpersist
      | ok path =>
        cases hpersist
        exact ⟨path, rfl⟩
  obtain ⟨path, hput⟩ := hput
  obtain ⟨hcontains, hget⟩ := ArtifactStore.get_put hkeeps hput
  have hconfig : q.config = p.config :=
    hfresh.config_eq.trans (persist_rests hpersist).config_eq
  have hkey : ({ q with connected := true } : PaperSession R Q F).key = p.key := by
    rw [key, key, hconfig]
  unfold recover
  rw [hkey, show ({ q with connected := true } : PaperSession R Q F).artifacts = p'.artifacts from
    hfresh.artifacts_eq, hcontains, hget, if_neg (by simp)]
  dsimp only
  cases hread : SessionState.from_json fmt (p.record.to_json fmt) with
  | error e => rfl
  | ok state =>
    obtain ⟨hfingerprint, -⟩ := SessionState.from_json_counts hexact hread
    have hsame : state.config_fingerprint = q.config.config_fingerprint := by
      rw [hfingerprint, hconfig]
      rfl
    dsimp only
    rw [if_neg (fun hrefused => hrefused.2.2 hsame)]

/-- What a fresh session holds once it has started from a persisted record. -/
structure PaperSession.StartedFrom (q' : PaperSession R Q F) (cfg : PortfolioConfig)
    (record : SessionState Rat) : Prop where
  portfolio_eq : q'.engine.pf = Portfolio.new cfg
  oms_eq : q'.engine.oms = {}
  events_eq : q'.stats.events_processed = record.events_processed.toNat
  fills_eq : q'.stats.fills_received = record.fills_received.toNat
  orders_eq : q'.stats.orders_submitted = record.orders_submitted.toNat

theorem PaperSession.start_persisted (hexact : fmt.Exact) (hkeeps : fs.Keeps) {p p' q q' : PaperSession R Q F}
    {s s' : S} (hpersist : p.persist fmt fs = (.ok true, p')) (hfresh : p'.FreshFor q)
    (hstart : q.start fmt fs strategy s = (.ok true, q', s')) :
    (∃ state, SessionState.from_json fmt (p.record.to_json fmt) = .ok state) ∧
      q'.StartedFrom p.engine.pf.cfg p.record := by
  obtain ⟨recovered, hrecover, hengine, -, -, -, -, -, hevents, hfills, horders⟩ :=
    start_ok hstart
  rw [recover_persisted hexact hkeeps hpersist hfresh] at hrecover
  cases hread : SessionState.from_json fmt (p.record.to_json fmt) with
  | error e =>
    rw [hread] at hrecover
    cases hrecover
  | ok state =>
    rw [hread] at hrecover
    cases hrecover
    obtain ⟨-, hread_events, hread_fills, hread_orders⟩ := SessionState.from_json_counts hexact hread
    have hcfg : q.engine.pf.cfg = p.engine.pf.cfg := by
      obtain ⟨artifacts, persists, heq⟩ := persist_eq hpersist
      rw [hfresh.portfolio_eq, heq]
    refine ⟨⟨state, rfl⟩, ?_, ?_, ?_, ?_, ?_⟩
    · rw [hengine, ← hcfg]
      exact hfresh.engine_fresh.portfolio_new
    · rw [hengine]
      exact hfresh.engine_fresh.oms_empty
    · rw [hevents, ← hread_events]
      rfl
    · rw [hfills, ← hread_fills]
      rfl
    · rw [horders, ← hread_orders]
      rfl

/-! ### Counting on -/

/-- The counters that a record carries. -/
def PaperSession.counts (p : PaperSession R Q F) : Nat × Nat × Nat :=
  (p.stats.events_processed, p.stats.fills_received, p.stats.orders_submitted)

theorem PaperSession.persist_counts {p p' : PaperSession R Q F} {result : Result Bool}
    (hpersist : p.persist fmt fs = (result, p')) : p'.counts = p.counts := by
  obtain ⟨artifacts, persists, rfl⟩ := persist_eq hpersist
  rfl

theorem PaperSession.roll_counts {p p' : PaperSession R Q F} {result : Result Bool}
    (hroll : p.roll fmt fs = (result, p')) : p'.counts = p.counts := by
  unfold roll at hroll
  split at hroll
  · unfold daily_reset at hroll
    split at hroll
    · rename_i hpersist
      cases hroll
      exact persist_counts hpersist
    · rename_i hpersist
      cases hroll
      have hkept := persist_counts hpersist
      exact hkept
  · cases hroll
    rfl

/-- After an event the counters are the engine's, whether or not the record
could be written. -/
theorem PaperSession.between_counts {p p' : PaperSession R Q F} {result : Result Bool}
    (hbetween : p.between fmt fs = (result, p')) :
    p'.counts = (p.engine.summary.events_processed, p.engine.summary.fills, p.engine.summary.orders_submitted) := by
  unfold between at hbetween
  split at hbetween
  · rename_i hroll
    cases hbetween
    exact roll_counts hroll
  · rename_i hroll
    split at hbetween
    · exact (persist_counts hbetween).trans (roll_counts hroll)
    · cases hbetween
      exact roll_counts hroll

/-- The count of events either stays or is at least one. -/
theorem PaperSession.advance_events {count : Nat} (hone : count ≤ 1) (n : Nat) {p : PaperSession R Q F}
    (s : S) (hcount : count ≤ p.stats.events_processed) :
    count ≤ (p.advance fmt fs strategy source n s).2.1.stats.events_processed := by
  induction n generalizing p s with
  | zero => exact hcount
  | succ n ih =>
    rw [advance]
    split
    · exact hcount
    · split
      · exact hcount
      · exact hcount
      · exact hcount
      · rename_i made w hstep
        have hadvances := World.next_advances (World.next_of_step hstep)
        have hcounted : ∀ {result p'}, { p with engine := w.engine, source := w.source }.between fmt fs =
            (result, p') → count ≤ p'.stats.events_processed := by
          intro result p' hbetween
          have hevents : p'.stats.events_processed = w.engine.summary.events_processed :=
            congrArg Prod.fst (between_counts hbetween)
          rw [hevents, hadvances.processed_eq]
          omega
        split
        · rename_i hbetween
          exact hcounted hbetween
        · rename_i hbetween
          exact ih w.strategy (hcounted hbetween)

theorem PaperSession.step_events {count : Nat} (hone : count ≤ 1) {p : PaperSession R Q F} (s : S)
    (max_events : Nat) (hcount : count ≤ p.stats.events_processed) :
    count ≤ (p.step fmt fs strategy source s max_events).2.1.stats.events_processed := by
  unfold step
  split
  · exact hcount
  · split
    · exact hcount
    · exact advance_events hone max_events s hcount

theorem PaperSession.steps_events {count : Nat} (hone : count ≤ 1) {p : PaperSession R Q F} (s : S)
    (calls : List Nat) (hcount : count ≤ p.stats.events_processed) :
    count ≤ (p.steps fmt fs strategy source s calls).stats.events_processed := by
  induction calls generalizing p s with
  | nil => exact hcount
  | cons max_events rest ih =>
    rw [steps]
    exact ih _ (step_events hone s max_events hcount)

/-! ### A day without events to tell -/

variable (fmt fs) in
/-- A session that has just started over a ticking source counts one event and
nothing else after one step. -/
theorem PaperSession.steps_ticking {q : PaperSession R Q F} (hgoing : q.Going) (s : Unit)
    (hsummary : q.engine.summary = {}) :
    (q.steps fmt fs ({} : IStrategy Unit) (ticking Q) s [1]).counts = (1, 0, 0) := by
  obtain ⟨w, hnext, hevents, hfills, horders⟩ := World.next_ticking (q.world s)
  have hstep : (q.world s).step ({} : IStrategy Unit) (ticking Q) 1 = .ok (1, w) := by
    rw [World.step_one hgoing.started, hnext]
  have hrunning : q.step fmt fs ({} : IStrategy Unit) (ticking Q) s 1 =
      q.advance fmt fs ({} : IStrategy Unit) (ticking Q) 1 s := by
    rw [step, hgoing.running, hgoing.emplaced, if_neg (by simp), if_neg (by simp)]
  have hcounts : ∀ {result q'}, { q with engine := w.engine, source := w.source }.between fmt fs =
      (result, q') → q'.counts = (1, 0, 0) := by
    intro result q' hbetween
    have hsame : (q.world s).engine.summary = {} := hsummary
    rw [between_counts hbetween, hevents, hfills, horders, hsame]
  rw [steps, hrunning, advance, if_neg (by simp [hgoing.unstopped])]
  simp only [hstep, steps]
  split
  · rename_i hbetween
    exact hcounts hbetween
  · rename_i hbetween
    have hcounted := hcounts hbetween
    exact hcounted

/-! ### What is restored -/

/-- A persisted state with nothing in it that a fresh session would not have. -/
structure PaperSession.Blank (p : PaperSession R Q F) : Prop where
  positions : p.record.positions = []
  cash : p.record.account.cash = p.engine.pf.cfg.initial_cash
  orders : p.record.working_orders = []
  events : p.record.events_processed.toNat ≤ 1
  fills : p.record.fills_received = 0
  submitted : p.record.orders_submitted = 0

theorem PaperSession.Blank.restores (hexact : fmt.Exact) (hkeeps : fs.Keeps) {p p' : PaperSession R Q F}
    (hpersist : p.persist fmt fs = (.ok true, p')) (hblank : p.Blank) : p'.Restores fmt fs p.record := by
  intro S strategy source q q' s s' hfresh hstart
  obtain ⟨-, hstarted⟩ := start_persisted hexact hkeeps hpersist hfresh hstart
  refine ⟨⟨?_, ?_, ?_⟩, fun calls => ⟨?_, ?_, ?_⟩⟩
  · rw [hstarted.portfolio_eq, hblank.positions]
    rfl
  · rw [hstarted.portfolio_eq, hblank.cash]
    rfl
  · rw [hstarted.oms_eq, hblank.orders]
    rfl
  · exact steps_events hblank.events s' calls hstarted.events_eq.ge
  · rw [hblank.fills]
    exact Nat.zero_le _
  · rw [hblank.submitted]
    exact Nat.zero_le _

theorem PaperSession.rebuilt_fresh (p : PaperSession R Q F) : p.FreshFor p.rebuilt :=
  ⟨rfl, rfl, rfl, rfl, rfl, rfl, ⟨rfl, rfl, rfl, rfl⟩, rfl, rfl, rfl, rfl, rfl⟩

/-- The rebuilt session starts whenever the record is not refused, and is then
ready to go on. -/
theorem PaperSession.rebuilt_starts (hexact : fmt.Exact) (hkeeps : fs.Keeps) {p p' : PaperSession R Q F}
    (hpersist : p.persist fmt fs = (.ok true, p')) {state : SessionState Rat}
    (hread : SessionState.from_json fmt (p.record.to_json fmt) = .ok state) :
    ∃ q', p'.rebuilt.start fmt fs ({} : IStrategy Unit) () = (.ok true, q', ()) ∧ q'.Going ∧
      q'.engine.summary = {} := by
  have hrecover := recover_persisted hexact hkeeps hpersist p'.rebuilt_fresh
  rw [hread] at hrecover
  have hcreated : ¬ p'.rebuilt.phase ≠ .Created := not_not.mpr rfl
  unfold start
  rw [if_neg hcreated]
  simp only [hrecover]
  exact ⟨_, rfl, ⟨rfl, rfl, rfl, rfl⟩, rfl⟩

theorem PaperSession.Restores.blank (hexact : fmt.Exact) (hkeeps : fs.Keeps) {p p' : PaperSession R Q F}
    (hpersist : p.persist fmt fs = (.ok true, p')) {state : SessionState Rat}
    (hread : SessionState.from_json fmt (p.record.to_json fmt) = .ok state)
    (hrestores : p'.Restores fmt fs p.record) : p.Blank := by
  obtain ⟨q', hstart, hgoing, hsummary⟩ := rebuilt_starts hexact hkeeps hpersist hread
  obtain ⟨-, hstarted⟩ := start_persisted hexact hkeeps hpersist p'.rebuilt_fresh hstart
  obtain ⟨hresumes, hcounts⟩ := hrestores Unit {} (ticking Q) p'.rebuilt q' () () p'.rebuilt_fresh hstart
  have hone := hcounts [1]
  have hticked := steps_ticking fmt fs hgoing () hsummary
  have hevents : p.record.events_processed.toNat ≤ 1 := hone.events_le.trans_eq (congrArg Prod.fst hticked)
  have hfills : p.record.fills_received.toNat ≤ 0 :=
    hone.fills_le.trans_eq (congrArg (fun c => c.2.1) hticked)
  have horders : p.record.orders_submitted.toNat ≤ 0 :=
    hone.orders_le.trans_eq (congrArg (fun c => c.2.2) hticked)
  refine ⟨?_, ?_, ?_, hevents, ?_, ?_⟩
  · rw [← hresumes.positions_eq, hstarted.portfolio_eq]
    rfl
  · rw [← hresumes.cash_eq, hstarted.portfolio_eq]
    rfl
  · rw [← hresumes.orders_eq, hstarted.oms_eq]
    rfl
  · exact UInt64.toNat_inj.mp (Nat.le_zero.mp hfills)
  · exact UInt64.toNat_inj.mp (Nat.le_zero.mp horders)

/-- A restart brings the book back and counts on from it just when no fresh
session can read the record, or when there is nothing in it to bring back. -/
theorem PaperSession.restores_iff (hexact : fmt.Exact) (hkeeps : fs.Keeps) {p p' : PaperSession R Q F}
    (hpersist : p.persist fmt fs = (.ok true, p')) :
    p'.Restores fmt fs p.record ↔
      (∃ e, SessionState.from_json fmt (p.record.to_json fmt) = .error e) ∨ p.Blank := by
  constructor
  · intro hrestores
    cases hread : SessionState.from_json fmt (p.record.to_json fmt) with
    | error e => exact .inl ⟨e, rfl⟩
    | ok state => exact .inr (hrestores.blank hexact hkeeps hpersist hread)
  · rintro (⟨e, hread⟩ | hblank)
    · intro S strategy source q q' s s' hfresh hstart
      obtain ⟨⟨state, hok⟩, -⟩ := start_persisted hexact hkeeps hpersist hfresh hstart
      rw [hread] at hok
      cases hok
    · exact hblank.restores hexact hkeeps hpersist

/-- A session that has just started. -/
def justStarted : PaperSession Unit ReplaySource (List (String × String)) :=
  (twoBars.start wholeDoubles memoryFiles (submitsOnce dayBuy) false).2.1

/-- The same after a bar on which an order for ten shares went to work. -/
def withOrder : PaperSession Unit ReplaySource (List (String × String)) :=
  (justStarted.step wholeDoubles memoryFiles (submitsOnce dayBuy) replay false 1).2.1


theorem persist_in_memory {Q : Type} (p : PaperSession Unit Q (List (String × String))) {path : String}
    (hpath : p.artifacts.path_for p.key = .ok path) :
    ∃ p', p.persist wholeDoubles memoryFiles = (.ok true, p') := by
  unfold persist ArtifactStore.put
  rw [hpath]
  exact ⟨_, rfl⟩

/-- Its record has whole numbers only. -/
theorem justStarted_storable : justStarted.record.Storable wholeDoubles := by
  constructor <;> decide +kernel

theorem withOrder_storable : withOrder.record.Storable wholeDoubles := by
  constructor <;> decide +kernel

/-- What was persisted before anything happened is read again and restored. -/
theorem PaperSession.restores_iff_blank :
    ∃ p', justStarted.persist wholeDoubles memoryFiles = (.ok true, p') ∧
      (∃ state, SessionState.from_json wholeDoubles (justStarted.record.to_json wholeDoubles) = .ok state) ∧
      p'.Restores wholeDoubles memoryFiles justStarted.record := by
  obtain ⟨p', hpersist⟩ := persist_in_memory justStarted
    (show justStarted.artifacts.path_for justStarted.key = .ok "paper/paper/state.json" by decide +kernel)
  refine ⟨p', hpersist, ⟨_, (SessionState.round_trip_iff wholeDoubles_exact justStarted_storable).mpr
    (by decide +kernel)⟩, ?_⟩
  refine (restores_iff wholeDoubles_exact memoryFiles_keeps hpersist).mpr
    (.inr ⟨?_, ?_, ?_, ?_, ?_, ?_⟩) <;> decide +kernel

/-- The working order is persisted, and no session that reads the record has
it. -/
theorem PaperSession.order_not_restored :
    ∃ p', withOrder.persist wholeDoubles memoryFiles = (.ok true, p') ∧
      ¬ p'.Restores wholeDoubles memoryFiles withOrder.record := by
  obtain ⟨p', hpersist⟩ := persist_in_memory withOrder
    (show withOrder.artifacts.path_for withOrder.key = .ok "paper/paper/state.json" by decide +kernel)
  refine ⟨p', hpersist, fun hrestores => ?_⟩
  have hread := (SessionState.round_trip_iff wholeDoubles_exact withOrder_storable).mpr (by decide +kernel)
  have hblank := hrestores.blank wholeDoubles_exact memoryFiles_keeps hpersist hread
  have hworking : withOrder.record.working_orders.length = 1 := by decide +kernel
  rw [hblank.orders] at hworking
  cases hworking

end ptl.paper
