import TradingLab.Features.Bivariate
import TradingLab.Features.Rolling
import TradingLab.Market.Merge

open Series

namespace ptl.features

/-- The functions of the mathematical library. -/
structure MathFunctions (K : Type*) where
  log : K → K
  sqrt : K → K
  sin : K → K
  cos : K → K
  pi : K

variable {K : Type*} [Field K] [LinearOrder K] (math : MathFunctions K)

def RollingStdev.value (s : RollingStdev K) : K := math.sqrt s.variance

/-! ### Returns -/

structure LaggedReturn (K : Type*) where
  buf : RingBuffer K
  lag : Nat

def LaggedReturn.new (lag : Nat) : LaggedReturn K where
  buf := RingBuffer.new (max 1 lag + 1) (Nat.succ_pos _)
  lag := max 1 lag

def LaggedReturn.update (r : LaggedReturn K) (price : K) : LaggedReturn K :=
  if 0 < price then { r with buf := (r.buf.push price).2 } else r

def LaggedReturn.value (r : LaggedReturn K) : K :=
  if r.buf.size ≤ r.lag then 0
  else
    let now := r.buf.at_lag 0
    let before := r.buf.at_lag r.lag
    if now ≤ 0 ∨ before ≤ 0 then 0 else math.log (now / before)

def LaggedReturn.ready (r : LaggedReturn K) : Bool := decide (r.lag < r.buf.size)

/-- The negation of a recent return. -/
structure ShortTermReversal (K : Type*) where
  ret : LaggedReturn K

def ShortTermReversal.new (lag : Nat) : ShortTermReversal K := { ret := LaggedReturn.new lag }

def ShortTermReversal.update (r : ShortTermReversal K) (price : K) : ShortTermReversal K :=
  { ret := r.ret.update price }

def ShortTermReversal.value (r : ShortTermReversal K) : K := -r.ret.value math

def ShortTermReversal.ready (r : ShortTermReversal K) : Bool := r.ret.ready

/-! ### Against the own window -/

structure RollingZScore (K : Type*) where
  sd : RollingStdev K
  last : K

def RollingZScore.new (window : Nat) : RollingZScore K := { sd := RollingStdev.new window, last := 0 }

def RollingZScore.update (z : RollingZScore K) (x : K) : RollingZScore K := { sd := z.sd.update x, last := x }

def RollingZScore.value (z : RollingZScore K) : K :=
  let s := z.sd.value math
  if s ≤ 0 then 0 else (z.last - z.sd.mean) / s

def RollingZScore.ready (z : RollingZScore K) : Bool := z.sd.ready

/-- The relative deviation from a moving average. -/
structure MaDeviation (K : Type*) where
  ma : RollingMean K
  last : K

def MaDeviation.new (window : Nat) : MaDeviation K := { ma := RollingMean.new window, last := 0 }

def MaDeviation.update (d : MaDeviation K) (price : K) : MaDeviation K :=
  if 0 < price then { ma := d.ma.update price, last := price } else d

def MaDeviation.value (d : MaDeviation K) : K :=
  let m := d.ma.value
  if m ≤ 0 then 0 else (d.last - m) / m

def MaDeviation.ready (d : MaDeviation K) : Bool := d.ma.ready

/-! ### Volatility -/

/-- Squared returns without demeaning, annualised by `scale`. -/
structure RealizedVolatility (K : Type*) where
  sq : RingBuffer K
  window : Nat
  scale : K
  sum : K
  n : Nat := 0

def RealizedVolatility.new (window : Nat) (annualization_periods : K) : RealizedVolatility K where
  sq := RingBuffer.new (max 1 window) (max_one_pos window)
  window := max 1 window
  scale := math.sqrt (max 1 annualization_periods)
  sum := 0

def RealizedVolatility.update (v : RealizedVolatility K) (log_return : K) : RealizedVolatility K :=
  let (evicted, sq) := v.sq.push (log_return * log_return)
  { v with sq, sum := v.sum + (log_return * log_return - evicted), n := v.n + 1 }

def RealizedVolatility.mean_sq (v : RealizedVolatility K) : K := max 0 v.sum / v.sq.size

def RealizedVolatility.value (v : RealizedVolatility K) : K :=
  if v.sq.size = 0 then 0 else math.sqrt v.mean_sq * v.scale

def RealizedVolatility.ready (v : RealizedVolatility K) : Bool := v.sq.full

/-- Wilder's smoothing, with the gap from the previous close in the range. -/
structure AverageTrueRange (K : Type*) where
  period : Nat
  alpha : K
  n : Nat := 0
  atr : K
  prev_close : K

def AverageTrueRange.new (period : Nat) : AverageTrueRange K where
  period := max 1 period
  alpha := 1 / (max 1 period : Nat)
  atr := 0
  prev_close := 0

def AverageTrueRange.update (a : AverageTrueRange K) (high low close : K) : AverageTrueRange K :=
  let range := high - low
  let tr := if 0 < a.n then max range (max |high - a.prev_close| |low - a.prev_close|) else range
  { a with
    atr := if a.n = 0 then tr else a.atr + a.alpha * (tr - a.atr)
    prev_close := close
    n := a.n + 1 }

def AverageTrueRange.value (a : AverageTrueRange K) : K := a.atr

def AverageTrueRange.ready (a : AverageTrueRange K) : Bool := decide (a.period ≤ a.n)

/-! ### The window of realised volatility -/

section MeanSquare

variable [IsStrictOrderedRing K]

structure RealizedVolatility.Tracks (v : RealizedVolatility K) (past : List K) : Prop where
  holds : v.sq.Holds (past.map fun r => r * r)
  sum_eq : v.sum = ((past.take v.sq.capacity).map fun r => r * r).sum

omit [LinearOrder K] [IsStrictOrderedRing K] in
theorem RealizedVolatility.Tracks.update {v : RealizedVolatility K} {past : List K} (htracks : v.Tracks past)
    (r : K) : (v.update r).Tracks (r :: past) ∧ (v.update r).sq.capacity = v.sq.capacity := by
  have hsum := sum_take_cons (fun r => r * r) r past v.sq.capacity_pos
  refine ⟨⟨htracks.holds.push (r * r), ?_⟩, RingBuffer.push_capacity _ _⟩
  simp only [RealizedVolatility.update, RingBuffer.push_capacity]
  rw [hsum, htracks.holds.evicted, htracks.sum_eq, List.getElem?_map]
  cases past[v.sq.capacity - 1]? with
  | none => simp
  | some e =>
    simp only [Option.map_some, Option.getD_some, Option.elim_some]
    ring

/-- After any stream of returns the mean square is that of the window. -/
theorem RealizedVolatility.mean_sq_stream (window : Nat) (annualization_periods : K) (rs : List K) :
    (rs.foldl RealizedVolatility.update (RealizedVolatility.new math window annualization_periods)).mean_sq =
      mean ((recent (max 1 window) rs).map fun r => r * r) := by
  have hpos := max_one_pos window
  obtain ⟨htracks, hcap⟩ := foldl_tracks
    (P := fun (v : RealizedVolatility K) past => v.Tracks past ∧ v.sq.capacity = max 1 window)
    (s := RealizedVolatility.new math window annualization_periods) (f := RealizedVolatility.update)
    ⟨⟨RingBuffer.new_holds hpos, by rw [List.take_nil]; rfl⟩, RingBuffer.new_capacity hpos⟩
    (fun v past r ⟨hv, hcap⟩ => ⟨(hv.update r).1, (hv.update r).2.trans hcap⟩) rs
  have hnonneg : 0 ≤ ((rs.reverse.take (max 1 window)).map fun r => r * r).sum := by
    refine List.sum_nonneg fun y hy => ?_
    obtain ⟨r, -, rfl⟩ := List.mem_map.mp hy
    exact mul_self_nonneg r
  rw [RealizedVolatility.mean_sq, htracks.sum_eq, htracks.holds.size_eq_length, hcap, max_eq_right hnonneg,
    mean, recent, List.length_map, List.length_take, List.length_take, List.length_map]

end MeanSquare

end ptl.features

namespace ptl.features

variable {K : Type*} [Field K] [LinearOrder K] (math : MathFunctions K)

/-- Minutes since the session opened, minus one outside it. All of 64-bit time
lasts fewer minutes than 32 bits count. -/
def minute_of_session (ts : Timestamp) (session : market.Session) : Int :=
  if ¬ session.is_open ∨ ts < session.open_ then -1 else (ts - session.open_) / 60000000000

/-! ### Volume -/

/-- One mean for each minute of the session. -/
structure MinuteOfDayVolumeProfile (K : Type*) where
  means : List (RollingMean K)
  lookback : Nat

def MinuteOfDayVolumeProfile.new (slots lookback : Nat) : MinuteOfDayVolumeProfile K where
  means := List.replicate (max 1 slots) (RollingMean.new (max 1 lookback))
  lookback := max 1 lookback

/-- The mean of a minute, if there is a slot for it. -/
def MinuteOfDayVolumeProfile.slot (p : MinuteOfDayVolumeProfile K) (minute : Int) : Option (RollingMean K) :=
  if minute < 0 then none else p.means[minute.toNat]?

def MinuteOfDayVolumeProfile.update (p : MinuteOfDayVolumeProfile K) (minute : Int) (volume : K) :
    MinuteOfDayVolumeProfile K :=
  if minute < 0 ∨ volume < 0 then p
  else { p with means := p.means.modify minute.toNat fun m => m.update volume }

def MinuteOfDayVolumeProfile.baseline (p : MinuteOfDayVolumeProfile K) (minute : Int) : K :=
  (p.slot minute).elim 0 RollingMean.value

/-- Neutral where there is no baseline. -/
def MinuteOfDayVolumeProfile.relative_volume (p : MinuteOfDayVolumeProfile K) (minute : Int) (volume : K) : K :=
  let base := p.baseline minute
  if base ≤ 0 then 1 else volume / base

def MinuteOfDayVolumeProfile.ready (p : MinuteOfDayVolumeProfile K) (minute : Int) : Bool :=
  (p.slot minute).elim false RollingMean.ready

/-! ### Average prices -/

structure RollingVwap (K : Type*) where
  pv : RingBuffer K
  vol : RingBuffer K
  window : Nat
  pv_sum : K
  vol_sum : K
  last_price : K

def RollingVwap.new (window : Nat) : RollingVwap K where
  pv := RingBuffer.new (max 1 window) (max_one_pos window)
  vol := RingBuffer.new (max 1 window) (max_one_pos window)
  window := max 1 window
  pv_sum := 0
  vol_sum := 0
  last_price := 0

def RollingVwap.update (v : RollingVwap K) (price volume : K) : RollingVwap K :=
  let (evicted_pv, pv) := v.pv.push (price * volume)
  let (evicted_vol, vol) := v.vol.push volume
  { v with
    pv, vol
    last_price := price
    pv_sum := v.pv_sum + (price * volume - evicted_pv)
    vol_sum := v.vol_sum + (volume - evicted_vol) }

def RollingVwap.value (v : RollingVwap K) : K := if v.vol_sum ≤ 0 then v.last_price else v.pv_sum / v.vol_sum

def RollingVwap.ready (v : RollingVwap K) : Bool := v.pv.full

structure SessionVwap (K : Type*) where
  pv : K
  vol : K
  n : Nat := 0
  last_price : K

def SessionVwap.new : SessionVwap K := { pv := 0, vol := 0, last_price := 0 }

def SessionVwap.update (v : SessionVwap K) (price volume : K) : SessionVwap K where
  last_price := price
  pv := v.pv + price * volume
  vol := v.vol + volume
  n := v.n + 1

def SessionVwap.value (v : SessionVwap K) : K := if v.vol ≤ 0 then v.last_price else v.pv / v.vol

def SessionVwap.ready (v : SessionVwap K) : Bool := decide (0 < v.n)

structure RollingTwap (K : Type*) where
  mean : RollingMean K

def RollingTwap.new (window : Nat) : RollingTwap K := { mean := RollingMean.new window }

def RollingTwap.update (t : RollingTwap K) (price : K) : RollingTwap K := { mean := t.mean.update price }

def RollingTwap.value (t : RollingTwap K) : K := t.mean.value

def RollingTwap.ready (t : RollingTwap K) : Bool := t.mean.ready

/-! ### Spread, liquidity and regime -/

structure SpreadStatistics (K : Type*) where
  mean : RollingMean K
  sd : RollingStdev K
  last_bps : K

def SpreadStatistics.new (window : Nat) : SpreadStatistics K where
  mean := RollingMean.new window
  sd := RollingStdev.new window
  last_bps := 0

def SpreadStatistics.update (s : SpreadStatistics K) (bid ask : K) : SpreadStatistics K :=
  let mid := (bid + ask) / 2
  if mid ≤ 0 then s
  else
    let last_bps := (ask - bid) / mid * 10000
    { mean := s.mean.update last_bps, sd := s.sd.update last_bps, last_bps }

def SpreadStatistics.zscore (s : SpreadStatistics K) : K :=
  let sd := s.sd.value math
  if sd ≤ 0 then 0 else (s.last_bps - s.mean.value) / sd

def SpreadStatistics.ready (s : SpreadStatistics K) : Bool := s.mean.ready

structure AmihudIlliquidity (K : Type*) where
  mean : RollingMean K

def AmihudIlliquidity.new (window : Nat) : AmihudIlliquidity K := { mean := RollingMean.new window }

def AmihudIlliquidity.update (a : AmihudIlliquidity K) (abs_return dollar_volume : K) : AmihudIlliquidity K :=
  if dollar_volume ≤ 0 then a else { mean := a.mean.update (abs_return / dollar_volume * 1000000) }

def AmihudIlliquidity.value (a : AmihudIlliquidity K) : K := a.mean.value

def AmihudIlliquidity.ready (a : AmihudIlliquidity K) : Bool := a.mean.ready

inductive Regime where
  | Low
  | Normal
  | High
  | Extreme
  deriving DecidableEq, Repr

structure VolatilityBucket (K : Type*) where
  sd : RollingStdev K
  last : K

def VolatilityBucket.new (window : Nat) : VolatilityBucket K := { sd := RollingStdev.new window, last := 0 }

def VolatilityBucket.update (v : VolatilityBucket K) (realized_vol : K) : VolatilityBucket K :=
  { sd := v.sd.update realized_vol, last := realized_vol }

def VolatilityBucket.regime (v : VolatilityBucket K) : Regime :=
  let s := v.sd.value math
  let m := v.sd.mean
  if s ≤ 0 then .Normal
  else
    let z := (v.last - m) / s
    if z < -1 then .Low else if z < 1 then .Normal else if z < 2 then .High else .Extreme

def VolatilityBucket.value (v : VolatilityBucket K) : K :=
  match v.regime math with
  | .Low => 0
  | .Normal => 1
  | .High => 2
  | .Extreme => 3

def VolatilityBucket.ready (v : VolatilityBucket K) : Bool := v.sd.ready

structure SeasonalControls (K : Type*) where
  sin_component : K
  cos_component : K

def SeasonalControls.new : SeasonalControls K := { sin_component := 0, cos_component := 0 }

def SeasonalControls.update (_ : SeasonalControls K) (progress : K) : SeasonalControls K :=
  let theta := 2 * math.pi * max 0 (min progress 1)
  { sin_component := math.sin theta, cos_component := math.cos theta }

/-! ### The window of the average price -/

/-- The volume-weighted mean price of some trades, newest first; the newest
price where nothing traded. -/
def volumeWeighted (w : List (K × K)) : K :=
  if (w.map Prod.snd).sum = 0 then w.head?.elim 0 Prod.fst
  else (w.map fun p => p.1 * p.2).sum / (w.map Prod.snd).sum

structure RollingVwap.Tracks (v : RollingVwap K) (past : List (K × K)) : Prop where
  holds_pv : v.pv.Holds (past.map fun p => p.1 * p.2)
  holds_vol : v.vol.Holds (past.map Prod.snd)
  same_capacity : v.vol.capacity = v.pv.capacity
  pv_eq : v.pv_sum = ((past.take v.pv.capacity).map fun p => p.1 * p.2).sum
  vol_eq : v.vol_sum = ((past.take v.pv.capacity).map Prod.snd).sum
  last_eq : v.last_price = past.head?.elim 0 Prod.fst

omit [LinearOrder K] in
theorem RollingVwap.Tracks.update {v : RollingVwap K} {past : List (K × K)} (htracks : v.Tracks past) (p : K × K) :
    (v.update p.1 p.2).Tracks (p :: past) ∧ (v.update p.1 p.2).pv.capacity = v.pv.capacity := by
  have hpos := v.pv.capacity_pos
  -- Either ring evicts the term that leaves the sum.
  have hsum : ∀ (f : K × K → K) (b : RingBuffer K), b.Holds (past.map f) → b.capacity = v.pv.capacity →
      ((past.take v.pv.capacity).map f).sum + (f p - (b.push (f p)).1) =
        (((p :: past).take v.pv.capacity).map f).sum := by
    intro f b hholds hcap
    rw [sum_take_cons f p past hpos, hholds.evicted, hcap, List.getElem?_map]
    cases past[v.pv.capacity - 1]? with
    | none => simp
    | some e =>
      simp only [Option.map_some, Option.getD_some, Option.elim_some]
      ring
  refine ⟨⟨htracks.holds_pv.push _, htracks.holds_vol.push _, ?_, ?_, ?_, rfl⟩, RingBuffer.push_capacity _ _⟩
  · simp only [RollingVwap.update, RingBuffer.push_capacity]
    exact htracks.same_capacity
  · simp only [RollingVwap.update, RingBuffer.push_capacity]
    rw [htracks.pv_eq]
    exact hsum (fun p => p.1 * p.2) v.pv htracks.holds_pv rfl
  · simp only [RollingVwap.update, RingBuffer.push_capacity]
    rw [htracks.vol_eq]
    exact hsum Prod.snd v.vol htracks.holds_vol htracks.same_capacity

/-- After any stream of trades the value is the average price of the window. -/
theorem RollingVwap.value_stream [IsStrictOrderedRing K] (window : Nat) (ps : List (K × K))
    (hvolume : ∀ p ∈ ps, 0 ≤ p.2) :
    (ps.foldl (fun v p => RollingVwap.update v p.1 p.2) (RollingVwap.new window)).value =
      volumeWeighted (recent (max 1 window) ps) := by
  have hpos := max_one_pos window
  have hnew : (RollingVwap.new window : RollingVwap K).Tracks [] := by
    refine ⟨RingBuffer.new_holds hpos, RingBuffer.new_holds hpos, rfl, ?_, ?_, rfl⟩ <;> rw [List.take_nil] <;> rfl
  obtain ⟨htracks, hcap⟩ := foldl_tracks
    (P := fun (v : RollingVwap K) past => v.Tracks past ∧ v.pv.capacity = max 1 window)
    (f := fun v p => RollingVwap.update v p.1 p.2) ⟨hnew, RingBuffer.new_capacity hpos⟩
    (fun v past p ⟨hv, hcap⟩ => ⟨(hv.update p).1, (hv.update p).2.trans hcap⟩) ps
  have hnonneg : 0 ≤ ((recent (max 1 window) ps).map Prod.snd).sum := by
    refine List.sum_nonneg fun y hy => ?_
    obtain ⟨p, hp, rfl⟩ := List.mem_map.mp hy
    exact hvolume p (List.mem_reverse.mp (List.mem_of_mem_take hp))
  have hnewest : ps.reverse.head? = (recent (max 1 window) ps).head? := by
    rw [recent, List.head?_take, if_neg (Nat.ne_of_gt hpos)]
  rw [RollingVwap.value, htracks.vol_eq, htracks.pv_eq, htracks.last_eq, hcap, hnewest, ← recent, volumeWeighted]
  split
  · rename_i hnone
    rw [if_pos (le_antisymm hnone hnonneg)]
  · rename_i hsome
    rw [if_neg (ne_of_gt (not_le.mp hsome))]

/-! ### Every rolling estimator -/

/-- After any streams of updates each estimator has the value of the textbook
statistic, computed from scratch over the window: the last entries of its
stream, as many as it retains. -/
theorem estimators_recompute [IsStrictOrderedRing K] (window : Nat) (annualization_periods : K)
    (xs : List K) (ps : List (K × K)) (trades : List (K × K)) (htrades : ∀ p ∈ trades, 0 ≤ p.2)
    {capacity : Nat} (hcapacity : 0 < capacity) :
    (∀ k, (xs.foldl (fun b x => (b.push x).2) (RingBuffer.new capacity hcapacity)).at_lag k =
      ((recent capacity xs)[k]?).getD 0) ∧
    (xs.foldl RollingMean.update (RollingMean.new window)).value = mean (recent (max 1 window) xs) ∧
    (xs.foldl RollingStdev.update (RollingStdev.new window)).mean = mean (recent (max 2 window) xs) ∧
    (xs.foldl RollingStdev.update (RollingStdev.new window)).variance =
      sampleCovariance id id (recent (max 2 window) xs) ∧
    (xs.foldl RollingExtrema.update (RollingExtrema.new window)).min =
      (recent (max 1 window) xs).min?.getD 0 ∧
    (xs.foldl RollingExtrema.update (RollingExtrema.new window)).max =
      (recent (max 1 window) xs).max?.getD 0 ∧
    (ps.foldl RollingCovariance.update (RollingCovariance.new window)).value =
      sampleCovariance Prod.fst Prod.snd (recent (max 2 window) ps) ∧
    (ps.foldl RollingCovariance.update (RollingCovariance.new window)).variance_x =
      sampleCovariance Prod.fst Prod.fst (recent (max 2 window) ps) ∧
    (ps.foldl RollingCovariance.update (RollingCovariance.new window)).variance_y =
      sampleCovariance Prod.snd Prod.snd (recent (max 2 window) ps) ∧
    (trades.foldl (fun v p => RollingVwap.update v p.1 p.2) (RollingVwap.new window)).value =
      volumeWeighted (recent (max 1 window) trades) ∧
    (xs.foldl RealizedVolatility.update
        (RealizedVolatility.new math window annualization_periods)).mean_sq =
      mean ((recent (max 1 window) xs).map fun r => r * r) := by
  obtain ⟨hmean, hvariance⟩ := RollingStdev.value_stream window xs
  obtain ⟨hmin, hmax⟩ := RollingExtrema.value_stream window xs
  obtain ⟨hcov, hvarx, hvary⟩ := RollingCovariance.value_stream window ps
  exact ⟨RingBuffer.at_lag_stream hcapacity xs, RollingMean.value_stream window xs, hmean, hvariance, hmin, hmax,
    hcov, hvarx, hvary, RollingVwap.value_stream window trades htrades,
    RealizedVolatility.mean_sq_stream math window annualization_periods xs⟩

/-- Two trades, one more than the window of one retains. -/
theorem estimators_recompute_two :
    ([(100, 3), (102, 1)].foldl (fun v p => RollingVwap.update v p.1 p.2)
        (RollingVwap.new 1 : RollingVwap Rat)).value = volumeWeighted (recent 1 [(100, 3), (102, 1)]) := by
  have hpositive : ∀ p ∈ [((100 : Rat), (3 : Rat)), (102, 1)], 0 ≤ p.2 := by decide +kernel
  obtain ⟨-, -, -, -, -, -, -, -, -, hvwap, -⟩ :=
    estimators_recompute (K := Rat) { log := id, sqrt := id, sin := id, cos := id, pi := 3 } 1 1 [] [] _
      hpositive Nat.one_pos
  exact hvwap

end ptl.features
