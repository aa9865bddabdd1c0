import TradingLab.Attribution.Windows
import TradingLab.Pipeline.InFlight
import TradingLab.Pipeline.Statistics
import TradingLab.Signal.Generator

open ptl.engine ptl.features ptl.market ptl.signal
open Std (TreeMap)

namespace ptl.pipeline

/-! ### Predictions -/

/-- A prediction for one instrument at one instant, and when it was produced. -/
abbrev IPredictionSource := InstrumentId → Timestamp → Option (Rat × Timestamp)

/-- Predictions by instrument and time. -/
structure StoredPredictionSource where
  by_instrument : TreeMap InstrumentId (TreeMap Timestamp Rat)

namespace StoredPredictionSource

def row (p : StoredPredictionSource) (instrument : InstrumentId) : TreeMap Timestamp Rat :=
  (p.by_instrument[instrument]?).getD ∅

/-- The entry before the first that is strictly after the instant. -/
def predict_at (p : StoredPredictionSource) : IPredictionSource := fun instrument as_of =>
  ((p.row instrument).toList.takeWhile fun e => e.1 ≤ as_of).getLast?.map Prod.swap

/-- The predictions made by an instant. -/
def made_by (p : StoredPredictionSource) (T : Timestamp) : StoredPredictionSource where
  by_instrument := p.by_instrument.map fun _ row => row.filter fun t _ => t ≤ T

/-- The entries of a row up to an instant. -/
theorem takeWhile_row (row : TreeMap Timestamp Rat) (as_of : Timestamp) :
    (row.toList.takeWhile fun e => e.1 ≤ as_of) = (row.filter fun t _ => t ≤ as_of).toList := by
  rw [TreeMap.toList_filter]
  refine attribution.takeWhile_eq_filter (row.ordered_keys_toList.imp fun hlt hle => ?_)
  exact decide_eq_true ((compare_lt_iff_lt.mp hlt).le.trans (of_decide_eq_true hle))

/-- Nothing made after an instant is answered to who asks by then. -/
theorem predict_at_made_by (p : StoredPredictionSource) (instrument : InstrumentId) {as_of T : Timestamp}
    (hasked : as_of ≤ T) : p.predict_at instrument as_of = (p.made_by T).predict_at instrument as_of := by
  rw [predict_at, predict_at, takeWhile_row, takeWhile_row]
  congr 2
  refine (TreeMap.Equiv.of_forall_constGet?_eq fun t => ?_).toList_eq
  have hrow : ((p.made_by T).row instrument)[t]? = (p.row instrument)[t]?.filter fun _ => t ≤ T := by
    rw [row, made_by, TreeMap.getElem?_map, row]
    cases p.by_instrument[instrument]? with
    | none => simp
    | some row => exact TreeMap.getElem?_filter'
  rw [TreeMap.getElem?_filter', TreeMap.getElem?_filter', hrow]
  by_cases ht : t ≤ as_of
  · simp [ht.trans hasked]
  · simp [ht]

/-- What is answered is the latest of the predictions made by then. -/
theorem latest_of_predict_at {p : StoredPredictionSource} {instrument : InstrumentId} {as_of t : Timestamp} {value : Rat}
    (hanswer : p.predict_at instrument as_of = some (value, t)) :
    (p.row instrument)[t]? = some value ∧ t ≤ as_of ∧ ∀ t' ∈ p.row instrument, t' ≤ as_of → t' ≤ t := by
  rw [predict_at, takeWhile_row, Option.map_eq_some_iff] at hanswer
  obtain ⟨⟨t, value⟩, hlast, heq⟩ := hanswer
  obtain ⟨rfl, rfl⟩ := Prod.mk.inj heq
  obtain ⟨before, hrow⟩ := List.getLast?_eq_some_iff.mp hlast
  have hmem : ∀ t' v, (t', v) ∈ before ++ [(t, value)] ↔ (p.row instrument)[t']? = some v ∧ t' ≤ as_of := by
    intro t' v
    rw [← hrow, TreeMap.mem_toList_iff_getElem?_eq_some, TreeMap.getElem?_filter']
    simp [Option.filter_eq_some_iff]
  obtain ⟨hheld, hasked⟩ := (hmem t value).mp (by simp)
  refine ⟨hheld, hasked, fun t' ht' hle => ?_⟩
  obtain ⟨v, hv⟩ := Option.isSome_iff_exists.mp (TreeMap.mem_iff_isSome_getElem?.mp ht')
  rcases List.mem_append.mp ((hmem t' v).mpr ⟨hv, hle⟩) with hbefore | hlast
  · have hordered := (p.row instrument |>.filter fun t _ => t ≤ as_of).ordered_keys_toList
    rw [hrow] at hordered
    exact (compare_lt_iff_lt.mp ((List.pairwise_append.mp hordered).2.2 _ hbefore _ (by simp))).le
  · exact (congrArg Prod.fst (List.mem_singleton.mp hlast)).le

end StoredPredictionSource

/-! ### One bar -/

/-- The counters of the path from a bar to a signal. -/
structure SignalStats where
  bars_seen : Nat := 0
  predictions_consumed : Nat := 0
  signals_generated : Nat := 0
  signals_actionable : Nat := 0
  signals_filtered : Nat := 0

/-- What a pipeline borrows and its cadence; a pure rule strategy has no
predictions. -/
structure Wiring where
  generator : Generator
  predictions : Option IPredictionSource := none
  calendar : Option Calendar := none
  rebalance_interval_bars : Nat := 5
  math : MathFunctions Rat

/-- A pipeline with what only bars move. A rebalance reads of the statistics
what `state` holds. -/
structure BarPipeline extends TradingPipeline where
  statistics : StatisticsTable Rat := ∅
  filters : SignalFilterChain := {}
  emitted : List Signal := []
  seen : SignalStats := {}

def estimate_costs (st : MarketStatistics Rat) (turnover_fraction : Rat) : CostEstimate where
  half_spread := st.spread_bps * 1e-4 * 0.5
  commission := if 0 < st.last_close then 0.0035 / st.last_close else 0
  slippage := st.volatility * 0.1
  turnover_penalty := |turnover_fraction| * 1e-4

/-- What the generator is shown; nothing where no prediction is out. -/
def Wiring.input (w : Wiring) (st : MarketStatistics Rat) (bar : Bar) : Option GeneratorInput :=
  let input : GeneratorInput := {
    as_of := bar.close_time, instrument := bar.instrument, volatility := st.volatility
    costs := estimate_costs st 0 }
  match w.predictions with
  | none => some { input with prediction := st.return_mean, prediction_time := bar.close_time }
  | some predict_at => (predict_at bar.instrument bar.close_time).map fun (prediction, prediction_time) =>
      { input with prediction, prediction_time }

def filter_context (st : MarketStatistics Rat) (input : GeneratorInput) (bar : Bar) : FilterContext where
  now := bar.close_time
  realized_volatility := st.volatility
  interval_volume := st.interval_volume
  average_volume := st.average_volume
  spread_bps := st.spread_bps
  feature_age := bar.close_time - st.last_bar_time
  prediction_age := if is_set input.prediction_time then bar.close_time - input.prediction_time else 0
  has_market_data := true

namespace BarPipeline

variable {R : Type} (w : Wiring)

/-- A run starts without what an earlier one was to trade on. -/
def on_start (s : BarPipeline) : BarPipeline :=
  { s with
    stats := {}, seen := {}, state := ∅, statistics := ∅, latest_signals := ∅, emitted := []
    bars_since_rebalance := 0 }

def update_state (s : BarPipeline) (bar : Bar) : BarPipeline :=
  let statistics := pipeline.update_state w.math s.statistics bar
  let st := statistics_of statistics bar.instrument
  { s with
    statistics
    state := s.state.insert bar.instrument { last_close := st.last_close, volatility := st.volatility }
    seen := { s.seen with bars_seen := s.seen.bars_seen + 1 } }

/-- A signal that was generated goes through the filters; whether it passes. -/
def accept (s : BarPipeline) (sig : Signal) (ctx : FilterContext) : Bool × BarPipeline :=
  let decision := s.filters.evaluate sig ctx w.calendar
  let s := { s with
    filters := s.filters.record sig.instrument decision ctx.now
    emitted := s.emitted ++ [sig]
    seen := { s.seen with signals_generated := s.seen.signals_generated + 1 } }
  if ¬ decision.passed then
    (false, { s with seen := { s.seen with signals_filtered := s.seen.signals_filtered + 1 } })
  else
    (true, { s with
      seen := { s.seen with
        signals_actionable := s.seen.signals_actionable + if sig.is_actionable then 1 else 0 }
      latest_signals := s.latest_signals.insert sig.instrument sig
      bars_since_rebalance := s.bars_since_rebalance + 1 })

def on_bar (s : BarPipeline) (e : Engine R) (bar : Bar) : BarPipeline × Engine R :=
  let s := s.update_state w bar
  let st := statistics_of s.statistics bar.instrument
  match w.input st bar with
  | none => (s, e)
  | some input =>
    let s := { s with seen := { s.seen with
      predictions_consumed := s.seen.predictions_consumed + if w.predictions.isSome then 1 else 0 } }
    match w.generator.generate input with
    | .error _ => (s, e)
    | .ok sig =>
      let (passed, s) := s.accept w sig (filter_context st input bar)
      if passed ∧ w.rebalance_interval_bars ≤ s.bars_since_rebalance then
        let (p, e) := s.toTradingPipeline.rebalance e bar.close_time false
        ({ s with toTradingPipeline := { p with bars_since_rebalance := 0 } }, e)
      else (s, e)

/-! ### Runs -/

/-- What the engine calls of a pipeline. -/
inductive Call where
  | on_bar (bar : Bar)
  | on_session_open
  | on_session_close (now : Timestamp)

/-- One call, after whatever the engine has done since the one before it. -/
def turn (run : BarPipeline × Engine R) (next : (Engine R → Engine R) × Call) : BarPipeline × Engine R :=
  let (s, e) := (run.1, next.1 run.2)
  match next.2 with
  | .on_bar bar => s.on_bar w e bar
  | .on_session_open => ({ s with toTradingPipeline := s.toTradingPipeline.on_session_open }, e)
  | .on_session_close now =>
    let (p, e) := s.toTradingPipeline.on_session_close e now
    ({ s with toTradingPipeline := p }, e)

def run (turns : List ((Engine R → Engine R) × Call)) (start : BarPipeline × Engine R) : BarPipeline × Engine R :=
  turns.foldl (turn w) start

/-- The bars of the session that is open. -/
def session_bars (turns : List ((Engine R → Engine R) × Call)) : List Bar :=
  turns.foldl (fun bars next => match next.2 with
    | .on_bar bar => bars ++ [bar]
    | .on_session_open => []
    | .on_session_close _ => bars) []

/-- When the last bar of a run closes. -/
def last_close (turns : List ((Engine R → Engine R) × Call)) : Timestamp :=
  turns.foldr (fun next T => match next.2 with
    | .on_bar bar => max bar.close_time T
    | _ => T) kNoTimestamp

/-- A run that ends by an instant is the same without the predictions made after it. -/
theorem run_until (p : StoredPredictionSource) {T : Timestamp} (turns : List ((Engine R → Engine R) × Call))
    (hlast : last_close turns ≤ T) (start : BarPipeline × Engine R) :
    run { w with predictions := some p.predict_at } turns start =
      run { w with predictions := some (p.made_by T).predict_at } turns start := by
  induction turns generalizing start with
  | nil => rfl
  | cons next turns ih =>
    obtain ⟨between, call⟩ := next
    cases call with
    | on_session_open => exact ih hlast _
    | on_session_close now => exact ih hlast _
    | on_bar bar =>
      obtain ⟨hclosed, hlater⟩ := max_le_iff.mp hlast
      have hinput : ∀ st, Wiring.input { w with predictions := some p.predict_at } st bar =
          Wiring.input { w with predictions := some (p.made_by T).predict_at } st bar := fun st => by
        dsimp only [Wiring.input]
        rw [p.predict_at_made_by bar.instrument hclosed]
      have hturn : turn { w with predictions := some p.predict_at } start (between, .on_bar bar) =
          turn { w with predictions := some (p.made_by T).predict_at } start (between, .on_bar bar) := by
        dsimp only [turn, on_bar]
        rw [hinput]
        rfl
      rw [run, run, List.foldl_cons, List.foldl_cons, hturn]
      exact ih hlater _

/-- No prediction made after the last bar of a run is of any consequence to it:
not to a signal, an order or what the engine does about them. -/
theorem no_lookahead (p : StoredPredictionSource) (turns : List ((Engine R → Engine R) × Call))
    (start : BarPipeline × Engine R) :
    run { w with predictions := some p.predict_at } turns start =
      run { w with predictions := some (p.made_by (last_close turns)).predict_at } turns start :=
  run_until w p turns le_rfl start

/-! ### What is traded on -/

/-- A signal is of the instrument and the instant it was asked for. -/
theorem generate_dated {g : Generator} {input : GeneratorInput} {sig : Signal} (hsig : g.generate input = .ok sig) :
    sig.instrument = input.instrument ∧ sig.as_of = input.as_of := by
  have hsignal : ∀ {model_id horizon view}, signal_of model_id horizon view input = .ok sig →
      sig.instrument = input.instrument ∧ sig.as_of = input.as_of := by
    intro model_id horizon view hof
    unfold signal_of Signal.create at hof
    split_ifs at hof <;> cases hof <;> exact ⟨rfl, rfl⟩
  have hleaf : ∀ {model_id cfg}, generate_interpreted model_id cfg input = .ok sig →
      sig.instrument = input.instrument ∧ sig.as_of = input.as_of := by
    intro model_id cfg hof
    rw [generate_interpreted] at hof
    split at hof
    · cases hof
    · exact hsignal hof
  cases g with
  | model model_id cfg => exact hleaf (by rwa [Generator.generate] at hsig)
  | rule model_id cfg => exact hleaf (by rwa [Generator.generate] at hsig)
  | ensemble model_id method horizon members =>
    obtain ⟨-, -, votes, -, hcombine⟩ := Generator.generate_ensemble_ok.mp hsig
    unfold combine at hcombine
    dsimp only at hcombine
    split at hcombine
    · cases hcombine
      exact ⟨rfl, rfl⟩
    · exact hsignal hcombine

/-- A signal is what the generator makes of a bar. -/
def Derives (bar : Bar) (sig : Signal) : Prop :=
  ∃ st input, w.input st bar = some input ∧ w.generator.generate input = .ok sig

/-- The signals held come from bars of the session, and a rebalance is never
overdue. -/
structure Sourced (bars : List Bar) (p : TradingPipeline) : Prop where
  held : ∀ k sig, p.latest_signals[k]? = some sig → ∃ bar ∈ bars, bar.instrument = k ∧ Derives w bar sig
  paced : p.bars_since_rebalance < max 1 w.rebalance_interval_bars

variable {w} {bars : List Bar} {s : BarPipeline}

theorem Sourced.mono {more : List Bar} {p p' : TradingPipeline} (hsourced : Sourced w bars p)
    (hsignals : p'.latest_signals = p.latest_signals) (hpace : p'.bars_since_rebalance = p.bars_since_rebalance) :
    Sourced w (bars ++ more) p' where
  held k sig hsig := by
    obtain ⟨bar, hbar, hderived⟩ := hsourced.held k sig (hsignals ▸ hsig)
    exact ⟨bar, List.mem_append_left _ hbar, hderived⟩
  paced := hpace ▸ hsourced.paced

theorem input_dated {st : MarketStatistics Rat} {bar : Bar} {input : GeneratorInput}
    (hinput : w.input st bar = some input) : input.instrument = bar.instrument ∧ input.as_of = bar.close_time := by
  unfold Wiring.input at hinput
  dsimp only at hinput
  split at hinput
  · cases hinput
    exact ⟨rfl, rfl⟩
  · obtain ⟨_, -, rfl⟩ := Option.map_eq_some_iff.mp hinput
    exact ⟨rfl, rfl⟩

theorem Sourced.on_bar (hsourced : Sourced w bars s.toTradingPipeline) (e : Engine R) (bar : Bar) :
    Sourced w (bars ++ [bar]) (s.on_bar w e bar).1.toTradingPipeline := by
  unfold BarPipeline.on_bar
  dsimp only
  split
  · exact hsourced.mono rfl rfl
  rename_i input hinput
  split
  · exact hsourced.mono rfl rfl
  rename_i sig hsig
  have hheld : ∀ k held, (s.latest_signals.insert sig.instrument sig)[k]? = some held →
      ∃ b ∈ bars ++ [bar], b.instrument = k ∧ Derives w b held := by
    intro k held hk
    obtain ⟨rfl, rfl⟩ | ⟨-, hold⟩ := Table.getElem?_insert_eq_some.mp hk
    · exact ⟨bar, by simp, ((generate_dated hsig).1.trans (input_dated hinput).1).symm, _, input, hinput, hsig⟩
    · obtain ⟨b, hb, hderived⟩ := hsourced.held k held hold
      exact ⟨b, List.mem_append_left _ hb, hderived⟩
  unfold accept
  dsimp only
  split
  · exact hsourced.mono rfl rfl
  · dsimp only
    split
    · refine ⟨fun k held hk => hheld k held ?_, by simp⟩
      dsimp only at hk
      obtain ⟨⟨stats, hkeeps⟩, -⟩ := TradingPipeline.rebalance_keeps (R := R) _ _ _ _
      rwa [hkeeps] at hk
    · rename_i hearly
      exact ⟨hheld, lt_max_of_lt_right (not_le.mp fun hle => hearly ⟨rfl, hle⟩)⟩

theorem Sourced.turn {turns : List ((Engine R → Engine R) × Call)} {e : Engine R}
    (hsourced : Sourced w (session_bars turns) s.toTradingPipeline) (next : (Engine R → Engine R) × Call) :
    Sourced w (session_bars (turns ++ [next])) (turn w (s, e) next).1.toTradingPipeline := by
  obtain ⟨between, call⟩ := next
  rw [session_bars, List.foldl_append]
  cases call with
  | on_bar bar => exact hsourced.on_bar _ bar
  | on_session_open => exact ⟨fun k sig hsig => by simp [BarPipeline.turn, TradingPipeline.on_session_open] at hsig,
      lt_max_of_lt_left Nat.one_pos⟩
  | on_session_close now =>
    dsimp only [BarPipeline.turn, TradingPipeline.on_session_close, List.foldl_cons, List.foldl_nil]
    split
    · exact hsourced
    · refine ⟨fun k sig hsig => by simp at hsig, ?_⟩
      obtain ⟨⟨stats, hkeeps⟩, -⟩ := s.toTradingPipeline.rebalance_keeps (between e) now true
      dsimp only
      rw [hkeeps]
      exact hsourced.paced

/-- Whatever a run holds to trade on, the generator made of a bar of the session
that is open and of the latest prediction there was at its close. -/
theorem held_signals_sourced (p : StoredPredictionSource) (turns : List ((Engine R → Engine R) × Call))
    (s : BarPipeline) (e : Engine R) :
    let s := (run { w with predictions := some p.predict_at } turns (s.on_start, e)).1
    s.bars_since_rebalance < max 1 w.rebalance_interval_bars ∧
      ∀ k sig, s.latest_signals[k]? = some sig →
        sig.instrument = k ∧ ∃ bar ∈ session_bars turns, bar.instrument = k ∧ sig.as_of = bar.close_time ∧
          ∃ input, w.generator.generate input = .ok sig ∧
            (p.row k)[input.prediction_time]? = some input.prediction ∧ input.prediction_time ≤ bar.close_time ∧
              ∀ t ∈ p.row k, t ≤ bar.close_time → t ≤ input.prediction_time := by
  have hsourced : Sourced { w with predictions := some p.predict_at } (session_bars turns)
      (run { w with predictions := some p.predict_at } turns (s.on_start, e)).1.toTradingPipeline := by
    induction turns using List.reverseRecOn with
    | nil => exact ⟨fun k sig hsig => by simp [run, on_start] at hsig, by simp [run, on_start]⟩
    | append_singleton turns next ih =>
      rw [run, List.foldl_append]
      exact ih.turn next
  refine ⟨hsourced.paced, fun k sig hsig => ?_⟩
  obtain ⟨bar, hbar, rfl, st, input, hinput, hgenerated⟩ := hsourced.held k sig hsig
  obtain ⟨hinstrument, hdated⟩ := generate_dated hgenerated
  obtain ⟨hasked, hclosed⟩ := input_dated hinput
  refine ⟨hinstrument.trans hasked, bar, hbar, rfl, hdated.trans hclosed, input, hgenerated, ?_⟩
  obtain ⟨⟨value, t⟩, hanswer, rfl⟩ := Option.map_eq_some_iff.mp hinput
  exact StoredPredictionSource.latest_of_predict_at hanswer

end BarPipeline

end ptl.pipeline
