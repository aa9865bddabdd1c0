import TradingLab.Analytics.Metrics
import TradingLab.Analytics.Statistics
import TradingLab.Features.Reset

open ptl.features

namespace ptl.analytics

open StatisticsAccumulator

/-- Whatever came before a reset, what comes after it is as from the start. -/
def Restarts {S U : Type*} (update : S → U → S) (reset : S → S) (start : S) : Prop :=
  ∀ before after : List U, after.foldl update (reset (before.foldl update start)) = after.foldl update start

theorem Restarts.of_forgets {S U : Type*} {update : S → U → S} {reset : S → S} {start : S}
    (hforgets : ∀ s u, reset (update s u) = reset s) (hstart : reset start = start) :
    Restarts update reset start := by
  intro before after
  rw [foldl_reset hforgets hstart]

/-! ### Drawdowns -/

theorem DrawdownTracker.reset_update (t : DrawdownTracker) (ts : Timestamp) (equity : Notional) :
    (t.update ts equity).2.reset = t.reset := by
  have hobserved : (t.observe ts equity).reset = t.reset := by
    unfold DrawdownTracker.observe
    dsimp only
    split
    · rfl
    · rfl
  unfold DrawdownTracker.update
  split_ifs
  · rfl
  · rfl
  · rfl
  · exact hobserved

/-! ### Statistics -/

namespace StatisticsAccumulator

/-- No query tells the two apart. -/
structure SameAnswers (s t : StatisticsAccumulator ℝ) : Prop where
  count_eq : s.n = t.n
  mean_eq : s.mean = t.mean
  variance_eq : s.variance = t.variance
  stdev_eq : s.stdev realMath = t.stdev realMath
  skewness_eq : ∀ pow, s.skewness realMath pow = t.skewness realMath pow
  kurtosis_eq : s.excess_kurtosis = t.excess_kurtosis
  min_eq : s.min = t.min
  max_eq : s.max = t.max
  sum_eq : s.sum = t.sum
  downside_eq : ∀ threshold, s.downside_deviation realMath threshold = t.downside_deviation realMath threshold

/-- A reset gives up the downside for good. -/
def without_downside {K : Type*} [Field K] (s : StatisticsAccumulator K) : StatisticsAccumulator K :=
  { s with downside_sq := 0, downside_valid := false }

section Forgetting

variable {K : Type*} [Field K] [LinearOrder K]

theorem reset_update (s : StatisticsAccumulator K) (x : K) : (s.update x).reset = s.reset := rfl

theorem reset_run (s : StatisticsAccumulator K) (xs : List K) :
    (xs.foldl update s).reset = s.reset := by
  induction xs generalizing s with
  | nil => rfl
  | cons x xs ih => exact (ih _).trans (reset_update s x)

theorem update_without_downside (s : StatisticsAccumulator K) (x : K) :
    s.without_downside.update x = (s.update x).without_downside := rfl

theorem run_without_downside (s : StatisticsAccumulator K) (xs : List K) :
    xs.foldl update s.without_downside =
      (xs.foldl update s).without_downside := by
  induction xs generalizing s with
  | nil => rfl
  | cons x xs ih =>
    rw [List.foldl_cons, update_without_downside, ih]
    rfl

/-- What is left after a reset is a new accumulator, but for the downside. -/
theorem run_after_reset (configured : K) (before after : List K) :
    after.foldl update (before.foldl update (new configured)).reset =
      (after.foldl update (new configured)).without_downside := by
  have hreset : (new configured).reset = (new configured).without_downside := rfl
  rw [reset_run, hreset, run_without_downside]

end Forgetting

/-- The downside after a reset is zero, whatever is asked. -/
theorem downside_without_downside (s : StatisticsAccumulator ℝ) (threshold : ℝ) :
    s.without_downside.downside_deviation realMath threshold = 0 := by
  simp [downside_deviation, without_downside]

theorem same_answers_iff (s : StatisticsAccumulator ℝ) :
    SameAnswers s.without_downside s ↔ ∀ threshold, s.downside_deviation realMath threshold = 0 := by
  constructor
  · intro hsame threshold
    rw [← hsame.downside_eq threshold, downside_without_downside]
  · intro hnone
    exact ⟨rfl, rfl, rfl, rfl, fun _ => rfl, rfl, rfl, rfl, rfl, fun threshold => by
      rw [downside_without_downside, hnone threshold]⟩

/-- A fresh accumulator has no downside where nothing fell below its threshold. -/
theorem stream_downside_eq_zero_iff (configured : ℝ) (xs : List ℝ) :
    (∀ threshold, (xs.foldl update (new configured)).downside_deviation realMath threshold =
      0) ↔ ∀ x ∈ xs, configured ≤ x := by
  have htracks := stream_tracks configured xs
  have hsquare := htracks.downside_deviation_sq
  rw [List.length_reverse] at hsquare
  constructor
  · intro hnone
    have hzero := hsquare configured
    rw [hnone configured, if_pos rfl, shortfalls_reverse, zero_pow two_ne_zero, eq_comm, div_eq_zero_iff] at hzero
    obtain hzero | hempty := hzero
    · exact (shortfalls_eq_zero_iff configured xs).mp hzero
    · rw [List.length_eq_zero_iff.mp (Nat.cast_eq_zero.mp hempty)]
      exact fun x hx => absurd hx List.not_mem_nil
  · intro habove threshold
    apply sq_eq_zero_iff.mp
    rw [hsquare threshold]
    split
    · rename_i hsame
      rw [hsame, shortfalls_reverse, (shortfalls_eq_zero_iff configured xs).mpr habove, zero_div]
    · rfl

end StatisticsAccumulator

/-! ### Every estimator -/

variable {K : Type*} [Field K] [LinearOrder K] [FloorSemiring K]

/-- Each estimator but the statistics is after a reset what it was when new, whatever
it is fed before and after. The statistics answer as new ones do exactly where nothing
that follows the reset is below the threshold they were built with. -/
theorem reset_restarts_iff (math : MathFunctions K) (exp : K → K) (ln2 : K) :
    (∀ (capacity : Nat) (hpos : 0 < capacity), Restarts (fun (b : RingBuffer K) x => (b.push x).2)
      RingBuffer.reset (RingBuffer.new capacity hpos)) ∧
    (∀ window, Restarts RollingMean.update RollingMean.reset (RollingMean.new window : RollingMean K)) ∧
    (∀ window, Restarts RollingStdev.update RollingStdev.reset (RollingStdev.new window : RollingStdev K)) ∧
    (∀ window, Restarts RollingExtrema.update RollingExtrema.reset (RollingExtrema.new window : RollingExtrema K)) ∧
    (∀ window, Restarts RollingCovariance.update RollingCovariance.reset
      (RollingCovariance.new window : RollingCovariance K)) ∧
    (∀ halflife warmup, Restarts Ewma.update Ewma.reset (Ewma.new exp ln2 halflife warmup)) ∧
    (∀ halflife warmup, Restarts EwVariance.update EwVariance.reset (EwVariance.new exp ln2 halflife warmup)) ∧
    (∀ period, Restarts (fun (a : AverageTrueRange K) (bar : K × K × K) => a.update bar.1 bar.2.1 bar.2.2)
      AverageTrueRange.reset (AverageTrueRange.new period)) ∧
    Restarts (fun (v : SessionVwap K) (p : K × K) => v.update p.1 p.2) SessionVwap.reset SessionVwap.new ∧
    Restarts (fun t (p : Timestamp × Notional) => (DrawdownTracker.update t p.1 p.2).2) DrawdownTracker.reset {} ∧
    (∀ cfg instrument, Restarts (FeatureSet.step math) FeatureSet.reset (FeatureSet.new math cfg instrument)) ∧
    ∀ (configured : ℝ) (before after : List ℝ),
      StatisticsAccumulator.SameAnswers
        (after.foldl update
          (before.foldl update (new configured)).reset)
        (after.foldl update (new configured)) ↔
      ∀ x ∈ after, configured ≤ x := by
  refine ⟨fun _ hpos => .of_forgets RingBuffer.reset_push (RingBuffer.reset_new hpos),
    fun window => .of_forgets RollingMean.reset_update (RollingMean.reset_new window),
    fun window => .of_forgets RollingStdev.reset_update (RollingStdev.reset_new window),
    fun window => .of_forgets RollingExtrema.reset_update (RollingExtrema.reset_new window),
    fun window => .of_forgets RollingCovariance.reset_update (RollingCovariance.reset_new window),
    fun halflife warmup => .of_forgets Ewma.reset_update (Ewma.reset_new exp ln2 halflife warmup),
    fun halflife warmup => .of_forgets EwVariance.reset_update (EwVariance.reset_new exp ln2 halflife warmup),
    fun period => .of_forgets (fun a bar => AverageTrueRange.reset_update a _ _ _) (AverageTrueRange.reset_new period),
    .of_forgets (fun _ _ => rfl) rfl,
    .of_forgets (fun t p => DrawdownTracker.reset_update t p.1 p.2) rfl,
    fun cfg instrument => .of_forgets (FeatureSet.reset_step math) (FeatureSet.reset_new math cfg instrument),
    fun configured before after => ?_⟩
  rw [run_after_reset, same_answers_iff,
    stream_downside_eq_zero_iff]

/-- One loss after the reset, and nothing before it. -/
theorem reset_forgets_downside :
    ¬ Restarts (fun (s : StatisticsAccumulator ℝ) x => s.update x) reset
        (new 0) ∧
    ¬ StatisticsAccumulator.SameAnswers
        ([(-1 : ℝ)].foldl update (new 0).reset)
        ([(-1 : ℝ)].foldl update (new 0)) := by
  have hdiffer : ¬ StatisticsAccumulator.SameAnswers
      ([(-1 : ℝ)].foldl update (new 0).reset)
      ([(-1 : ℝ)].foldl update (new 0)) := by
    intro hsame
    have hdownside := hsame.downside_eq 0
    simp [downside_deviation, update, reset,
      new, realMath] at hdownside
  refine ⟨fun hrestarts => hdiffer ?_, hdiffer⟩
  have hequal := hrestarts [] [-1]
  simp only [List.foldl_nil] at hequal
  rw [hequal]
  exact ⟨rfl, rfl, rfl, rfl, fun _ => rfl, rfl, rfl, rfl, rfl, fun _ => rfl⟩

end ptl.analytics
