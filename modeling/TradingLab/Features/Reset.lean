import Mathlib.Algebra.Order.Floor.Semiring
import TradingLab.Features.FeatureSet

namespace ptl.features

/-- Where a reset forgets each update, it restores what was started with. -/
theorem foldl_reset {S U : Type*} {update : S → U → S} {reset : S → S} {s : S}
    (hforgets : ∀ s u, reset (update s u) = reset s) (hstart : reset s = s) (us : List U) :
    reset (us.foldl update s) = s := by
  have hgen : ∀ (us : List U) (t : S), reset (us.foldl update t) = reset t := by
    intro us
    induction us with
    | nil => exact fun t => rfl
    | cons u us ih => exact fun t => (ih (update t u)).trans (hforgets t u)
  exact (hgen us s).trans hstart

variable {K : Type*} [Field K]

/-! ### Windows -/

theorem RingBuffer.reset_pos (b : RingBuffer K) : 0 < (List.replicate b.data.length (0 : K)).length := by
  rw [List.length_replicate]
  exact b.capacity_pos

def RingBuffer.reset (b : RingBuffer K) : RingBuffer K where
  data := List.replicate b.data.length 0
  head_lt := b.reset_pos

@[simp] theorem RingBuffer.reset_push (b : RingBuffer K) (x : K) : (b.push x).2.reset = b.reset := by
  simp [RingBuffer.reset, RingBuffer.push]

@[simp] theorem RingBuffer.reset_new {capacity : Nat} (hpos : 0 < capacity) :
    (RingBuffer.new capacity hpos : RingBuffer K).reset = RingBuffer.new capacity hpos := by
  simp [RingBuffer.reset, RingBuffer.new]

def RollingMean.reset (m : RollingMean K) : RollingMean K :=
  { m with buf := m.buf.reset, sum := 0, since_recompute := 0 }

@[simp] theorem RollingMean.reset_update (m : RollingMean K) (x : K) : (m.update x).reset = m.reset := by
  unfold RollingMean.update
  dsimp only
  split
  · simp only [RollingMean.reset, RollingMean.recompute, RingBuffer.reset_push]
  · simp only [RollingMean.reset, RingBuffer.reset_push]

@[simp] theorem RollingMean.reset_new (window : Nat) :
    (RollingMean.new window : RollingMean K).reset = RollingMean.new window := by
  simp only [RollingMean.reset, RollingMean.new, RingBuffer.reset_new]

def RollingStdev.reset (s : RollingStdev K) : RollingStdev K :=
  { s with
    buf := s.buf.reset
    sum := 0
    sumsq := 0
    ref := 0
    have_ref := false
    evicting := false
    since_recompute := 0 }

@[simp] theorem RollingStdev.reset_recompute (s : RollingStdev K) : s.recompute.reset = s.reset := by
  unfold RollingStdev.recompute
  split
  · rfl
  · rfl

@[simp] theorem RollingStdev.reset_update (s : RollingStdev K) (x : K) : (s.update x).reset = s.reset := by
  have hforgets : (s.accumulate x).reset = s.reset := by
    simp only [RollingStdev.reset, RollingStdev.accumulate, RingBuffer.reset_push]
  unfold RollingStdev.update
  dsimp only
  split
  · rw [RollingStdev.reset_recompute, hforgets]
  · exact hforgets

@[simp] theorem RollingStdev.reset_new (window : Nat) :
    (RollingStdev.new window : RollingStdev K).reset = RollingStdev.new window := by
  simp only [RollingStdev.reset, RollingStdev.new, RingBuffer.reset_new]

def RollingExtrema.reset (e : RollingExtrema K) : RollingExtrema K :=
  { e with min_ := [], max_ := [], index := 0, count := 0 }

omit [Field K] in
@[simp] theorem RollingExtrema.reset_update [LinearOrder K] (e : RollingExtrema K) (x : K) :
    (e.update x).reset = e.reset := rfl

omit [Field K] in
@[simp] theorem RollingExtrema.reset_new (window : Nat) :
    (RollingExtrema.new window : RollingExtrema K).reset = RollingExtrema.new window := rfl

def RollingCovariance.reset (c : RollingCovariance K) : RollingCovariance K :=
  { c with
    xs := c.xs.reset
    ys := c.ys.reset
    sx := 0
    sy := 0
    sxx := 0
    syy := 0
    sxy := 0
    ref_x := 0
    ref_y := 0
    have_ref := false
    evicting := false
    since_recompute := 0 }

@[simp] theorem RollingCovariance.reset_recompute (c : RollingCovariance K) : c.recompute.reset = c.reset := by
  unfold RollingCovariance.recompute
  split
  · rfl
  · rfl

@[simp] theorem RollingCovariance.reset_update (c : RollingCovariance K) (p : K × K) :
    (c.update p).reset = c.reset := by
  have hforgets : (c.accumulate p).reset = c.reset := by
    simp only [RollingCovariance.reset, RollingCovariance.accumulate, RingBuffer.reset_push]
  unfold RollingCovariance.update
  dsimp only
  split
  · rw [RollingCovariance.reset_recompute, hforgets]
  · exact hforgets

@[simp] theorem RollingCovariance.reset_new (window : Nat) :
    (RollingCovariance.new window : RollingCovariance K).reset = RollingCovariance.new window := by
  simp only [RollingCovariance.reset, RollingCovariance.new, RingBuffer.reset_new]

/-! ### Exponential weights -/

/-- The weight of a new observation, and how many it takes to be ready, from a
half-life in observations. -/
def ew_alpha [LinearOrder K] (exp : K → K) (ln2 halflife : K) : K :=
  if 0 < halflife then 1 - exp (-ln2 / halflife) else 1

def ew_warmup [LinearOrder K] [FloorSemiring K] (halflife : K) (warmup : Nat) : Nat :=
  if 0 < warmup then warmup else ⌈halflife * (3 : Nat)⌉₊

structure Ewma (K : Type*) where
  alpha : K
  warmup : Nat
  n : Nat := 0
  value : K

def Ewma.new [LinearOrder K] [FloorSemiring K] (exp : K → K) (ln2 halflife : K) (warmup : Nat := 0) : Ewma K where
  alpha := ew_alpha exp ln2 halflife
  warmup := ew_warmup halflife warmup
  value := 0

def Ewma.update (e : Ewma K) (x : K) : Ewma K :=
  { e with value := if e.n = 0 then x else e.value + e.alpha * (x - e.value), n := e.n + 1 }

def Ewma.ready (e : Ewma K) : Bool := decide (e.warmup ≤ e.n)

def Ewma.reset (e : Ewma K) : Ewma K := { e with n := 0, value := 0 }

@[simp] theorem Ewma.reset_update (e : Ewma K) (x : K) : (e.update x).reset = e.reset := rfl

@[simp] theorem Ewma.reset_new [LinearOrder K] [FloorSemiring K] (exp : K → K) (ln2 halflife : K) (warmup : Nat) :
    (Ewma.new exp ln2 halflife warmup).reset = Ewma.new exp ln2 halflife warmup := rfl

structure EwVariance (K : Type*) where
  alpha : K
  warmup : Nat
  n : Nat := 0
  mean : K
  var : K

def EwVariance.new [LinearOrder K] [FloorSemiring K] (exp : K → K) (ln2 halflife : K) (warmup : Nat := 0) :
    EwVariance K where
  alpha := ew_alpha exp ln2 halflife
  warmup := ew_warmup halflife warmup
  mean := 0
  var := 0

/-- The deviation before the update, with the mean after it. -/
def EwVariance.update (e : EwVariance K) (x : K) : EwVariance K :=
  let delta := x - e.mean
  { e with
    mean := if e.n = 0 then x else e.mean + e.alpha * delta
    var := if e.n = 0 then e.var else (1 - e.alpha) * (e.var + e.alpha * delta * delta)
    n := e.n + 1 }

def EwVariance.stdev [LinearOrder K] (math : MathFunctions K) (e : EwVariance K) : K := math.sqrt (max 0 e.var)

def EwVariance.ready (e : EwVariance K) : Bool := decide (e.warmup ≤ e.n)

def EwVariance.reset (e : EwVariance K) : EwVariance K := { e with n := 0, mean := 0, var := 0 }

@[simp] theorem EwVariance.reset_update (e : EwVariance K) (x : K) : (e.update x).reset = e.reset := rfl

@[simp] theorem EwVariance.reset_new [LinearOrder K] [FloorSemiring K] (exp : K → K) (ln2 halflife : K)
    (warmup : Nat) : (EwVariance.new exp ln2 halflife warmup).reset = EwVariance.new exp ln2 halflife warmup := rfl

/-! ### Ranges and average prices -/

def AverageTrueRange.reset (a : AverageTrueRange K) : AverageTrueRange K :=
  { a with n := 0, atr := 0, prev_close := 0 }

@[simp] theorem AverageTrueRange.reset_update [LinearOrder K] (a : AverageTrueRange K) (high low close : K) :
    (a.update high low close).reset = a.reset := rfl

@[simp] theorem AverageTrueRange.reset_new (period : Nat) :
    (AverageTrueRange.new period : AverageTrueRange K).reset = AverageTrueRange.new period := rfl

def SessionVwap.reset (_ : SessionVwap K) : SessionVwap K := { pv := 0, vol := 0, n := 0, last_price := 0 }

@[simp] theorem SessionVwap.reset_eq (v : SessionVwap K) : v.reset = SessionVwap.new := rfl

def RollingVwap.reset (v : RollingVwap K) : RollingVwap K :=
  { v with pv := v.pv.reset, vol := v.vol.reset, pv_sum := 0, vol_sum := 0, last_price := 0 }

@[simp] theorem RollingVwap.reset_update (v : RollingVwap K) (price volume : K) :
    (v.update price volume).reset = v.reset := by
  simp only [RollingVwap.reset, RollingVwap.update, RingBuffer.reset_push]

@[simp] theorem RollingVwap.reset_new (window : Nat) :
    (RollingVwap.new window : RollingVwap K).reset = RollingVwap.new window := by
  simp only [RollingVwap.reset, RollingVwap.new, RingBuffer.reset_new]

def RollingTwap.reset (t : RollingTwap K) : RollingTwap K := { mean := t.mean.reset }

@[simp] theorem RollingTwap.reset_update (t : RollingTwap K) (price : K) : (t.update price).reset = t.reset := by
  simp only [RollingTwap.reset, RollingTwap.update, RollingMean.reset_update]

@[simp] theorem RollingTwap.reset_new (window : Nat) :
    (RollingTwap.new window : RollingTwap K).reset = RollingTwap.new window := by
  simp only [RollingTwap.reset, RollingTwap.new, RollingMean.reset_new]

/-! ### Returns -/

def LaggedReturn.reset (r : LaggedReturn K) : LaggedReturn K := { r with buf := r.buf.reset }

@[simp] theorem LaggedReturn.reset_update [LinearOrder K] (r : LaggedReturn K) (price : K) :
    (r.update price).reset = r.reset := by
  unfold LaggedReturn.update
  split
  · simp only [LaggedReturn.reset, RingBuffer.reset_push]
  · rfl

@[simp] theorem LaggedReturn.reset_new (lag : Nat) :
    (LaggedReturn.new lag : LaggedReturn K).reset = LaggedReturn.new lag := by
  simp only [LaggedReturn.reset, LaggedReturn.new, RingBuffer.reset_new]

def ShortTermReversal.reset (r : ShortTermReversal K) : ShortTermReversal K := { ret := r.ret.reset }

@[simp] theorem ShortTermReversal.reset_update [LinearOrder K] (r : ShortTermReversal K) (price : K) :
    (r.update price).reset = r.reset := by
  simp only [ShortTermReversal.reset, ShortTermReversal.update, LaggedReturn.reset_update]

@[simp] theorem ShortTermReversal.reset_new (lag : Nat) :
    (ShortTermReversal.new lag : ShortTermReversal K).reset = ShortTermReversal.new lag := by
  simp only [ShortTermReversal.reset, ShortTermReversal.new, LaggedReturn.reset_new]

def RollingZScore.reset (z : RollingZScore K) : RollingZScore K := { sd := z.sd.reset, last := 0 }

@[simp] theorem RollingZScore.reset_update (z : RollingZScore K) (x : K) : (z.update x).reset = z.reset := by
  simp only [RollingZScore.reset, RollingZScore.update, RollingStdev.reset_update]

@[simp] theorem RollingZScore.reset_new (window : Nat) :
    (RollingZScore.new window : RollingZScore K).reset = RollingZScore.new window := by
  simp only [RollingZScore.reset, RollingZScore.new, RollingStdev.reset_new]

def MaDeviation.reset (d : MaDeviation K) : MaDeviation K := { ma := d.ma.reset, last := 0 }

@[simp] theorem MaDeviation.reset_update [LinearOrder K] (d : MaDeviation K) (price : K) :
    (d.update price).reset = d.reset := by
  unfold MaDeviation.update
  split
  · simp only [MaDeviation.reset, RollingMean.reset_update]
  · rfl

@[simp] theorem MaDeviation.reset_new (window : Nat) :
    (MaDeviation.new window : MaDeviation K).reset = MaDeviation.new window := by
  simp only [MaDeviation.reset, MaDeviation.new, RollingMean.reset_new]

def RealizedVolatility.reset (v : RealizedVolatility K) : RealizedVolatility K :=
  { v with sq := v.sq.reset, sum := 0, n := 0 }

@[simp] theorem RealizedVolatility.reset_update (v : RealizedVolatility K) (r : K) :
    (v.update r).reset = v.reset := by
  simp only [RealizedVolatility.reset, RealizedVolatility.update, RingBuffer.reset_push]

@[simp] theorem RealizedVolatility.reset_new [LinearOrder K] (math : MathFunctions K) (window : Nat)
    (annualization_periods : K) :
    (RealizedVolatility.new math window annualization_periods).reset =
      RealizedVolatility.new math window annualization_periods := by
  simp only [RealizedVolatility.reset, RealizedVolatility.new, RingBuffer.reset_new]

/-! ### Within the day -/

def RollingBeta.reset (b : RollingBeta K) : RollingBeta K := { cov := b.cov.reset }

@[simp] theorem RollingBeta.reset_update (b : RollingBeta K) (market asset : K) :
    (b.update market asset).reset = b.reset := by
  simp only [RollingBeta.reset, RollingBeta.update, RollingCovariance.reset_update]

@[simp] theorem RollingBeta.reset_new (window : Nat) :
    (RollingBeta.new window : RollingBeta K).reset = RollingBeta.new window := by
  simp only [RollingBeta.reset, RollingBeta.new, RollingCovariance.reset_new]

def MinuteOfDayVolumeProfile.reset (p : MinuteOfDayVolumeProfile K) : MinuteOfDayVolumeProfile K :=
  { p with means := p.means.map RollingMean.reset }

/-- A change that the map does not see. -/
theorem map_modify_of_eq {A B : Type*} {g : A → B} {f : A → A} (hsame : ∀ x, g (f x) = g x) (l : List A) (i : Nat) :
    (l.modify i f).map g = l.map g := by
  apply List.ext_getElem?
  intro j
  rw [List.getElem?_map, List.getElem?_map, List.getElem?_modify]
  cases l[j]? with
  | none => rfl
  | some x =>
    split
    · exact congrArg some (hsame x)
    · rfl

@[simp] theorem MinuteOfDayVolumeProfile.reset_update [LinearOrder K] (p : MinuteOfDayVolumeProfile K)
    (minute : Int) (volume : K) : (p.update minute volume).reset = p.reset := by
  unfold MinuteOfDayVolumeProfile.update
  split
  · rfl
  · simp only [MinuteOfDayVolumeProfile.reset]
    rw [map_modify_of_eq fun m => RollingMean.reset_update m volume]

@[simp] theorem MinuteOfDayVolumeProfile.reset_new (slots lookback : Nat) :
    (MinuteOfDayVolumeProfile.new slots lookback : MinuteOfDayVolumeProfile K).reset =
      MinuteOfDayVolumeProfile.new slots lookback := by
  simp only [MinuteOfDayVolumeProfile.reset, MinuteOfDayVolumeProfile.new, List.map_replicate,
    RollingMean.reset_new]

def SpreadStatistics.reset (s : SpreadStatistics K) : SpreadStatistics K :=
  { mean := s.mean.reset, sd := s.sd.reset, last_bps := 0 }

@[simp] theorem SpreadStatistics.reset_update [LinearOrder K] (s : SpreadStatistics K) (bid ask : K) :
    (s.update bid ask).reset = s.reset := by
  unfold SpreadStatistics.update
  dsimp only
  split
  · rfl
  · simp only [SpreadStatistics.reset, RollingMean.reset_update, RollingStdev.reset_update]

@[simp] theorem SpreadStatistics.reset_new (window : Nat) :
    (SpreadStatistics.new window : SpreadStatistics K).reset = SpreadStatistics.new window := by
  simp only [SpreadStatistics.reset, SpreadStatistics.new, RollingMean.reset_new, RollingStdev.reset_new]

def AmihudIlliquidity.reset (a : AmihudIlliquidity K) : AmihudIlliquidity K := { mean := a.mean.reset }

@[simp] theorem AmihudIlliquidity.reset_update [LinearOrder K] (a : AmihudIlliquidity K)
    (abs_return dollar_volume : K) : (a.update abs_return dollar_volume).reset = a.reset := by
  unfold AmihudIlliquidity.update
  split
  · rfl
  · simp only [AmihudIlliquidity.reset, RollingMean.reset_update]

@[simp] theorem AmihudIlliquidity.reset_new (window : Nat) :
    (AmihudIlliquidity.new window : AmihudIlliquidity K).reset = AmihudIlliquidity.new window := by
  simp only [AmihudIlliquidity.reset, AmihudIlliquidity.new, RollingMean.reset_new]

def VolatilityBucket.reset (v : VolatilityBucket K) : VolatilityBucket K := { sd := v.sd.reset, last := 0 }

@[simp] theorem VolatilityBucket.reset_update (v : VolatilityBucket K) (realized_vol : K) :
    (v.update realized_vol).reset = v.reset := by
  simp only [VolatilityBucket.reset, VolatilityBucket.update, RollingStdev.reset_update]

@[simp] theorem VolatilityBucket.reset_new (window : Nat) :
    (VolatilityBucket.new window : VolatilityBucket K).reset = VolatilityBucket.new window := by
  simp only [VolatilityBucket.reset, VolatilityBucket.new, RollingStdev.reset_new]

/-! ### The whole set of one instrument -/

def FeatureSet.reset (s : FeatureSet K) : FeatureSet K :=
  { s with
    returns := s.returns.map LaggedReturn.reset
    reversals := s.reversals.map ShortTermReversal.reset
    ma_devs := s.ma_devs.map MaDeviation.reset
    vols := s.vols.map RealizedVolatility.reset
    return_z := s.return_z.reset
    atr := s.atr.reset
    volume_profile := s.volume_profile.reset
    spread := s.spread.reset
    illiquidity := s.illiquidity.reset
    vol_bucket := s.vol_bucket.reset
    beta := s.beta.reset
    session_vwap := s.session_vwap.reset
    rolling_vwap := s.rolling_vwap.reset
    rolling_twap := s.rolling_twap.reset
    seasonal := SeasonalControls.new
    values := List.replicate s.values.length 0
    ready_mask := 0
    feature_end_time := kNoTimestamp
    last_close := 0
    last_log_return := 0
    has_return := false
    pending_market_return := 0
    last_minute := -1
    last_volume := 0 }

open FeatureSet

section FeatureSet

variable [LinearOrder K] (math : MathFunctions K) (s : FeatureSet K)

/-- Showing the features keeps as many values as there were. -/
@[simp] theorem FeatureSet.reset_refresh : (s.refresh math).reset = s.reset := by
  have hlength : (((s.emitted math).take s.values.length).map Prod.fst ++
      s.values.drop ((s.emitted math).take s.values.length).length).length = s.values.length := by
    simp only [List.length_append, List.length_map, List.length_take, List.length_drop]
    omega
  simp only [reset, refresh, hlength]

@[simp] theorem FeatureSet.reset_observe_return (close : K) : (s.observe_return math close).reset = s.reset := by
  unfold observe_return
  split
  · rfl
  · rfl

@[simp] theorem FeatureSet.reset_update_prices (close : K) : (s.update_prices close).reset = s.reset := by
  simp [reset, update_prices]

@[simp] theorem FeatureSet.reset_update_returns (dollar_volume : K) :
    (s.update_returns dollar_volume).reset = s.reset := by
  unfold update_returns
  split
  · simp [reset]
  · rfl

@[simp] theorem FeatureSet.reset_update_ranges (high low close volume : K) :
    (s.update_ranges math high low close volume).reset = s.reset := by
  have hbucket : (s.vols.head?.elim s.vol_bucket fun f => s.vol_bucket.update (f.value math)).reset =
      s.vol_bucket.reset := by
    cases s.vols.head? with
    | none => rfl
    | some f => exact VolatilityBucket.reset_update _ _
  simp [reset, update_ranges, hbucket]

@[simp] theorem FeatureSet.reset_update_session (ts : Timestamp) (volume : K) (session : Option market.Session) :
    (s.update_session math ts volume session).reset = s.reset := by
  cases session with
  | none => rfl
  | some session =>
    simp only [update_session]
    split
    · simp [reset]
    · rfl

theorem FeatureSet.reset_fold_bar (bar : market.Bar) (session : Option market.Session) :
    (s.fold_bar math bar session).reset = s.reset := by
  have hchain : ∀ t : FeatureSet K, reset { t with
      last_close := ((bar.close : Rat) : K), feature_end_time := bar.close_time } = t.reset := fun _ => rfl
  unfold fold_bar
  dsimp only
  rw [hchain, reset_update_session, reset_update_ranges, reset_update_returns,
    reset_update_prices, reset_observe_return]

theorem FeatureSet.reset_step (call : FeatureCall K) : (s.step math call).reset = s.reset := by
  cases call with
  | on_bar bar session =>
    simp only [step, on_bar]
    split
    · rfl
    · rw [reset_refresh, reset_fold_bar]
  | on_quote quote =>
    simp only [step, on_quote, reset_refresh]
    simp [reset]
  | on_market_context r =>
    simp only [step, on_market_context, reset_refresh]
    simp only [reset]
    split
    · rw [RollingBeta.reset_update]
    · rfl
  | on_session_open => rfl

theorem FeatureSet.reset_new (cfg : FeatureConfig K) (instrument : InstrumentId) :
    (FeatureSet.new math cfg instrument).reset = FeatureSet.new math cfg instrument := by
  simp [reset, FeatureSet.new, Function.comp_def]

end FeatureSet

end ptl.features
