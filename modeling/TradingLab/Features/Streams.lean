import TradingLab.Features.Unsigned

namespace ptl.features

variable {K : Type*} [Field K] [LinearOrder K] (math : MathFunctions K)

/-! ### What a history feeds an estimator

A history of calls has its newest first, and so have the inputs taken from it. -/

/-- An estimator fed with some inputs, the oldest of them first. -/
def fed {S A : Type*} (update : S → A → S) (start : S) (inputs : List A) : S :=
  inputs.foldr (fun x s => update s x) start

@[simp] theorem fed_nil {S A : Type*} (update : S → A → S) (start : S) : fed update start [] = start := rfl

@[simp] theorem fed_cons {S A : Type*} (update : S → A → S) (start : S) (x : A) (inputs : List A) :
    fed update start (x :: inputs) = update (fed update start inputs) x := rfl

/-- A bar that is folded in, with its session. -/
def folded : FeatureCall K → Option (market.Bar × Option market.Session)
  | .on_bar bar session => if 0 < ((bar.close : Rat) : K) then some (bar, session) else none
  | _ => none

def bars_in (past : List (FeatureCall K)) : List (market.Bar × Option market.Session) := past.filterMap folded

def close_of (b : market.Bar × Option market.Session) : K := (b.1.close : Rat)

def closes (past : List (FeatureCall K)) : List K := (bars_in past).map close_of

/-- The log returns between consecutive prices. -/
def returns_between : List K → List K
  | price :: before :: prices => math.log (price / before) :: returns_between (before :: prices)
  | _ => []

def log_returns (past : List (FeatureCall K)) : List K := returns_between math (closes past)

/-- Each log return's size with the dollar volume of its bar. -/
def traded (past : List (FeatureCall K)) : List (K × K) :=
  List.zipWith (fun r b => (|r|, close_of b * (b.1.volume : Rat))) (log_returns math past) (bars_in past)

/-- The bars of a session that is open, by minute. -/
def minutes_in (past : List (FeatureCall K)) : List (market.Bar × market.Session) :=
  (bars_in past).filterMap fun b => b.2.bind fun session => if session.is_open then some (b.1, session) else none

def quoted : FeatureCall K → Option market.Quote
  | .on_quote quote => some quote
  | _ => none

def quotes_in (past : List (FeatureCall K)) : List market.Quote := past.filterMap quoted

def market_of : FeatureCall K → Option K
  | .on_market_context r => some r
  | _ => none

/-- The market's returns that find a return of the instrument, with it. -/
def market_pairs : List (FeatureCall K) → List (K × K)
  | .on_market_context r :: past => ((log_returns math past).head?.map fun own => (r, own)).toList ++ market_pairs past
  | _ :: past => market_pairs past
  | [] => []

/-- The bars since the session last opened. -/
def since_open : List (FeatureCall K) → List (market.Bar × Option market.Session)
  | .on_session_open :: _ => []
  | call :: past => (folded call).toList ++ since_open past
  | [] => []

/-! ### The estimators, each on its own -/

variable (cfg : FeatureConfig K) (past : List (FeatureCall K))

def lagged_return (lag : Nat) : LaggedReturn K := fed LaggedReturn.update (LaggedReturn.new lag) (closes past)

def short_term_reversal (lag : Nat) : ShortTermReversal K :=
  fed ShortTermReversal.update (ShortTermReversal.new lag) (closes past)

def ma_deviation (window : Nat) : MaDeviation K := fed MaDeviation.update (MaDeviation.new window) (closes past)

def volatility_of (window : Nat) (rs : List K) : RealizedVolatility K :=
  fed RealizedVolatility.update (RealizedVolatility.new math window cfg.annualization_periods) rs

def realized_volatility (window : Nat) : RealizedVolatility K := volatility_of math cfg window (log_returns math past)

def return_zscore (window : Nat) : RollingZScore K :=
  fed RollingZScore.update (RollingZScore.new window) (log_returns math past)

def true_range (period : Nat) : AverageTrueRange K :=
  fed (fun a (b : market.Bar × Option market.Session) => a.update (b.1.high : Rat) (b.1.low : Rat) (close_of b))
    (AverageTrueRange.new period) (bars_in past)

def volume_baseline (lookback : Nat) : MinuteOfDayVolumeProfile K :=
  fed (fun p (m : market.Bar × market.Session) => p.update (minute_of_session m.1.close_time m.2) (m.1.volume : Rat))
    (MinuteOfDayVolumeProfile.new cfg.volume_profile_slots lookback) (minutes_in past)

def spread_statistics (window : Nat) : SpreadStatistics K :=
  fed (fun s (q : market.Quote) => s.update (q.bid : Rat) (q.ask : Rat)) (SpreadStatistics.new window) (quotes_in past)

def amihud (window : Nat) : AmihudIlliquidity K :=
  fed (fun a (t : K × K) => a.update t.1 t.2) (AmihudIlliquidity.new window) (traded math past)

/-- The regime follows the value that a volatility has at each close. -/
def regime_over (window : Nat) : List K → VolatilityBucket K
  | [] => VolatilityBucket.new window
  | price :: prices =>
    (regime_over window prices).update
      ((volatility_of math cfg window (returns_between math (price :: prices))).value math)

/-- Without a realised volatility there is none to follow. -/
def volatility_regime (window : Nat) : VolatilityBucket K :=
  if cfg.volatility_windows = [] then VolatilityBucket.new window else regime_over math cfg window (closes past)

def vwap (window : Nat) : RollingVwap K :=
  fed (fun v (b : market.Bar × Option market.Session) => v.update (close_of b) (b.1.volume : Rat))
    (RollingVwap.new window) (bars_in past)

def twap (window : Nat) : RollingTwap K := fed RollingTwap.update (RollingTwap.new window) (closes past)

def vwap_of_session : SessionVwap K :=
  fed (fun v (b : market.Bar × Option market.Session) => v.update (close_of b) (b.1.volume : Rat))
    SessionVwap.new (since_open past)

def season : SeasonalControls K :=
  if cfg.include_seasonal then
    fed (fun s (m : market.Bar × market.Session) => s.update math (progress_of m.1.close_time m.2)) SeasonalControls.new
      (minutes_in past)
  else SeasonalControls.new

def market_beta (window : Nat) : RollingBeta K :=
  fed (fun b (p : K × K) => b.update p.1 p.2) (RollingBeta.new window) (market_pairs math past)

/-! ### A feature set is its estimators -/

/-- Every part of a feature set is an estimator fed by the history. -/
structure FeatureSet.Tracks (s : FeatureSet K) (cfg : FeatureConfig K) (past : List (FeatureCall K)) : Prop where
  cfg_eq : s.cfg = cfg
  length_values : s.values.length = min (feature_names cfg).length 64
  returns : s.returns = cfg.return_lags.map (lagged_return past)
  reversals : s.reversals = cfg.reversal_lags.map (short_term_reversal past)
  ma_devs : s.ma_devs = cfg.ma_windows.map (ma_deviation past)
  vols : s.vols = cfg.volatility_windows.map (realized_volatility math cfg past)
  return_z : s.return_z = return_zscore math past cfg.zscore_window
  atr : s.atr = true_range past cfg.atr_period
  volume_profile : s.volume_profile = volume_baseline cfg past cfg.volume_profile_lookback
  spread : s.spread = spread_statistics past cfg.spread_window
  illiquidity : s.illiquidity = amihud math past cfg.illiquidity_window
  vol_bucket : s.vol_bucket = volatility_regime math cfg past cfg.regime_window
  beta : s.beta = market_beta math past cfg.beta_window
  session_vwap : s.session_vwap = vwap_of_session past
  rolling_vwap : s.rolling_vwap = vwap past cfg.vwap_window
  rolling_twap : s.rolling_twap = twap past cfg.vwap_window
  seasonal : s.seasonal = season math cfg past
  last_close : s.last_close = (closes past).head?.getD 0
  last_log_return : s.last_log_return = (log_returns math past).head?.getD 0
  has_return : s.has_return = !(log_returns math past).isEmpty
  pending_market_return : s.pending_market_return = (past.filterMap market_of).head?.getD 0
  last_minute : s.last_minute = ((minutes_in past).head?.map fun m => minute_of_session m.1.close_time m.2).getD (-1)
  last_volume : s.last_volume = ((minutes_in past).head?.map fun m => ((m.1.volume : Rat) : K)).getD 0

theorem FeatureSet.new_tracks (instrument : InstrumentId) :
    (FeatureSet.new math cfg instrument).Tracks math cfg [] := by
  refine ⟨rfl, List.length_replicate, rfl, rfl, rfl, rfl, rfl, rfl, rfl, rfl, rfl, ?_, rfl, rfl, rfl, rfl, ?_, rfl, rfl,
    rfl, rfl, rfl, rfl⟩
  · rw [volatility_regime]
    split <;> rfl
  · rw [season]
    split <;> rfl

/-! ### One call -/

section Calls

variable {math cfg past} {s : FeatureSet K}

/-- What the loops over a set's own estimators come to, when one more input is
fed. -/
theorem map_fed_cons {S A : Type*} (update : S → A → S) (start : Nat → S) (params : List Nat) (x : A)
    (inputs : List A) :
    (params.map fun n => fed update (start n) inputs).map (fun f => update f x) =
      params.map fun n => fed update (start n) (x :: inputs) := by
  rw [List.map_map]
  rfl

/-- Showing the values keeps what they are shown from. -/
theorem FeatureSet.Tracks.refresh (htracks : s.Tracks math cfg past) : (s.refresh math).Tracks math cfg past := by
  refine { htracks with length_values := ?_ }
  have hlength := htracks.length_values
  simp only [FeatureSet.refresh, List.length_append, List.length_map, List.length_drop, List.length_take]
  omega

theorem bars_in_cons (bar : market.Bar) (session : Option market.Session) (past : List (FeatureCall K))
    (hpos : 0 < ((bar.close : Rat) : K)) : bars_in (.on_bar bar session :: past) = (bar, session) :: bars_in past :=
  List.filterMap_cons_some (if_pos hpos)

/-- Every price folded in is above zero. -/
theorem closes_pos {price : K} (hmem : price ∈ closes past) : 0 < price := by
  obtain ⟨b, hb, rfl⟩ := List.mem_map.mp hmem
  obtain ⟨call, -, hfolded⟩ := List.mem_filterMap.mp hb
  cases call with
  | on_bar bar session =>
    rw [folded] at hfolded
    split at hfolded
    · rename_i hpos
      obtain rfl := Option.some.inj hfolded
      exact hpos
    · exact nomatch hfolded
  | on_quote quote => exact nomatch hfolded
  | on_market_context r => exact nomatch hfolded
  | on_session_open => exact nomatch hfolded

/-- A bar brings a return when there was one before it. -/
theorem FeatureSet.Tracks.observe_return (htracks : s.Tracks math cfg past) (price : K) :
    (returns_between math (price :: closes past) = [] ∧ log_returns math past = [] ∧
        (s.observe_return math price).has_return = false ∧ (s.observe_return math price).last_log_return = 0) ∨
      ∃ r, returns_between math (price :: closes past) = r :: log_returns math past ∧
        (s.observe_return math price).has_return = true ∧ (s.observe_return math price).last_log_return = r := by
  have hlast := htracks.last_close
  cases hcloses : closes past with
  | nil =>
    have hnone : log_returns math past = [] := congrArg (returns_between math) hcloses
    have hzero : s.last_close = 0 := by rw [hlast, hcloses]; rfl
    have hsame : s.observe_return math price = s := by
      rw [FeatureSet.observe_return, hzero, if_neg (lt_irrefl _)]
    rw [hsame, htracks.has_return, htracks.last_log_return, hnone]
    exact .inl ⟨rfl, rfl, rfl, rfl⟩
  | cons before prices =>
    have hbefore : s.last_close = before := by rw [hlast, hcloses]; rfl
    have hpos : 0 < s.last_close := hbefore ▸ closes_pos (hcloses ▸ List.mem_cons_self)
    rw [FeatureSet.observe_return, if_pos hpos, hbefore, log_returns, hcloses]
    exact .inr ⟨_, rfl, rfl, rfl⟩

theorem FeatureSet.Tracks.on_quote (htracks : s.Tracks math cfg past) (quote : market.Quote) :
    (s.on_quote math quote).Tracks math cfg (.on_quote quote :: past) := by
  refine FeatureSet.Tracks.refresh { htracks with spread := ?_ }
  exact congrArg (fun f : SpreadStatistics K => f.update (quote.bid : Rat) (quote.ask : Rat)) htracks.spread

theorem FeatureSet.Tracks.on_session_open (htracks : s.Tracks math cfg past) :
    s.on_session_open.Tracks math cfg (.on_session_open :: past) :=
  { htracks with session_vwap := rfl }

theorem FeatureSet.Tracks.on_market_context (htracks : s.Tracks math cfg past) (r : K) :
    (s.on_market_context math r).Tracks math cfg (.on_market_context r :: past) := by
  refine FeatureSet.Tracks.refresh { htracks with beta := ?_, pending_market_return := rfl }
  rw [htracks.has_return, htracks.last_log_return, htracks.beta]
  unfold market_beta
  rw [market_pairs]
  cases log_returns math past with
  | nil => rfl
  | cons own rs => rfl

/-- The session of a bar, when it is open. -/
def opened (session : Option market.Session) : Option market.Session := session.filter fun s => s.is_open

/-- All that a bar changes, as one record. -/
theorem FeatureSet.fold_bar_eq (s : FeatureSet K) (bar : market.Bar) (session : Option market.Session) :
    s.fold_bar math bar session =
      { s with
        last_log_return := (s.observe_return math (bar.close : Rat)).last_log_return
        has_return := (s.observe_return math (bar.close : Rat)).has_return
        returns := s.returns.map fun f => f.update (bar.close : Rat)
        reversals := s.reversals.map fun f => f.update (bar.close : Rat)
        ma_devs := s.ma_devs.map fun f => f.update (bar.close : Rat)
        vols := ((s.observe_return math (bar.close : Rat)).update_returns ((bar.close : Rat) * (bar.volume : Rat))).vols
        return_z :=
          ((s.observe_return math (bar.close : Rat)).update_returns ((bar.close : Rat) * (bar.volume : Rat))).return_z
        illiquidity :=
          ((s.observe_return math (bar.close : Rat)).update_returns ((bar.close : Rat) * (bar.volume : Rat))).illiquidity
        atr := s.atr.update (bar.high : Rat) (bar.low : Rat) (bar.close : Rat)
        vol_bucket :=
          ((s.observe_return math (bar.close : Rat)).update_returns
              ((bar.close : Rat) * (bar.volume : Rat))).vols.head?.elim s.vol_bucket
            fun f => s.vol_bucket.update (f.value math)
        rolling_vwap := s.rolling_vwap.update (bar.close : Rat) (bar.volume : Rat)
        rolling_twap := s.rolling_twap.update (bar.close : Rat)
        session_vwap := s.session_vwap.update (bar.close : Rat) (bar.volume : Rat)
        last_minute := (opened session).elim s.last_minute fun o => minute_of_session bar.close_time o
        last_volume := (opened session).elim s.last_volume fun _ => (bar.volume : Rat)
        volume_profile := (opened session).elim s.volume_profile fun o =>
          s.volume_profile.update (minute_of_session bar.close_time o) (bar.volume : Rat)
        seasonal := (opened session).elim s.seasonal fun o =>
          if s.cfg.include_seasonal then s.seasonal.update math (progress_of bar.close_time o) else s.seasonal
        last_close := (bar.close : Rat)
        feature_end_time := bar.close_time } := by
  have hsession : ∀ t : FeatureSet K, t.update_session math bar.close_time ((bar.volume : Rat) : K) session =
      { t with
        last_minute := (opened session).elim t.last_minute fun o => minute_of_session bar.close_time o
        last_volume := (opened session).elim t.last_volume fun _ => ((bar.volume : Rat) : K)
        volume_profile := (opened session).elim t.volume_profile fun o =>
          t.volume_profile.update (minute_of_session bar.close_time o) ((bar.volume : Rat) : K)
        seasonal := (opened session).elim t.seasonal fun o =>
          if t.cfg.include_seasonal then t.seasonal.update math (progress_of bar.close_time o) else t.seasonal } := by
    intro t
    cases session with
    | none => rfl
    | some o =>
      cases hopen : o.is_open with
      | false =>
        have hnone : opened (some o) = none := Option.filter_some_neg (by simp [hopen])
        simp [FeatureSet.update_session, hopen, hnone]
      | true =>
        have hsome : opened (some o) = some o := Option.filter_some_pos hopen
        simp [FeatureSet.update_session, hopen, hsome]
  unfold FeatureSet.fold_bar
  simp only [hsession]
  by_cases hlast : 0 < s.last_close
  · simp [FeatureSet.observe_return, FeatureSet.update_returns, FeatureSet.update_prices, FeatureSet.update_ranges,
      hlast]
  · cases hreturn : s.has_return with
    | false =>
      simp [FeatureSet.observe_return, FeatureSet.update_returns, FeatureSet.update_prices, FeatureSet.update_ranges,
        hlast, hreturn]
    | true =>
      simp [FeatureSet.observe_return, FeatureSet.update_returns, FeatureSet.update_prices, FeatureSet.update_ranges,
        hlast, hreturn]

/-- The estimators of returns, after a bar. -/
theorem FeatureSet.Tracks.update_returns (htracks : s.Tracks math cfg past) (bar : market.Bar)
    (session : Option market.Session) (hpos : 0 < ((bar.close : Rat) : K)) {t : FeatureSet K}
    (ht : t = (s.observe_return math (bar.close : Rat)).update_returns ((bar.close : Rat) * (bar.volume : Rat))) :
    t.vols = cfg.volatility_windows.map (realized_volatility math cfg (.on_bar bar session :: past)) ∧
      t.return_z = return_zscore math (.on_bar bar session :: past) cfg.zscore_window ∧
      t.illiquidity = amihud math (.on_bar bar session :: past) cfg.illiquidity_window := by
  have hbars := bars_in_cons bar session past hpos
  have hcloses : closes (.on_bar bar session :: past) = ((bar.close : Rat) : K) :: closes past :=
    congrArg (List.map close_of) hbars
  have hsame : ∀ r, (s.observe_return math r).vols = s.vols ∧ (s.observe_return math r).return_z = s.return_z ∧
      (s.observe_return math r).illiquidity = s.illiquidity := by
    intro r
    unfold FeatureSet.observe_return
    split <;> exact ⟨rfl, rfl, rfl⟩
  obtain ⟨hvols, hz, hilliquidity⟩ := hsame (bar.close : Rat)
  have hpast : traded math (.on_bar bar session :: past) = List.zipWith
      (fun r b => (|r|, close_of b * ((b.1.volume : Rat) : K))) (returns_between math ((bar.close : Rat) :: closes past))
      ((bar, session) :: bars_in past) := by
    rw [traded, log_returns, hcloses, hbars]
  rcases htracks.observe_return (bar.close : Rat) with ⟨hnew, hold, hreturn, -⟩ | ⟨r, hnew, hreturn, hlast⟩
  · have ht : t = s.observe_return math (bar.close : Rat) := by
      rw [ht, FeatureSet.update_returns, hreturn]
      rfl
    have hlog : log_returns math (.on_bar bar session :: past) = log_returns math past := by
      rw [log_returns, hcloses, hnew, hold]
    have htraded : traded math (.on_bar bar session :: past) = traded math past := by
      rw [hpast, hnew, traded, hold]
      rfl
    rw [ht, hvols, hz, hilliquidity, htracks.vols, htracks.return_z, htracks.illiquidity]
    unfold realized_volatility return_zscore amihud
    rw [hlog, htraded]
    exact ⟨rfl, rfl, rfl⟩
  · have hlog : log_returns math (.on_bar bar session :: past) = r :: log_returns math past := by
      rw [log_returns, hcloses, hnew]
    have htraded : traded math (.on_bar bar session :: past) =
        (|r|, ((bar.close : Rat) : K) * ((bar.volume : Rat) : K)) :: traded math past := by
      rw [hpast, hnew]
      rfl
    have hfields : t.vols = s.vols.map (fun f => f.update r) ∧ t.return_z = s.return_z.update r ∧
        t.illiquidity = s.illiquidity.update |r| ((bar.close : Rat) * (bar.volume : Rat)) := by
      rw [ht, FeatureSet.update_returns, hreturn, if_pos rfl]
      simp only [hlast, hvols, hz, hilliquidity, and_self]
    rw [hfields.1, hfields.2.1, hfields.2.2, htracks.vols, htracks.return_z, htracks.illiquidity]
    unfold realized_volatility return_zscore amihud volatility_of
    rw [hlog, htraded]
    exact ⟨map_fed_cons _ _ _ _ _, rfl, rfl⟩

theorem since_open_bar (bar : market.Bar) (session : Option market.Session) (past : List (FeatureCall K)) :
    since_open (.on_bar bar session :: past) = (folded (.on_bar bar session : FeatureCall K)).toList ++ since_open past :=
  rfl

/-- A history matters by what it feeds. -/
theorem FeatureSet.Tracks.of_bars (htracks : s.Tracks math cfg past) {past' : List (FeatureCall K)}
    (hbars : bars_in past' = bars_in past) (hquotes : quotes_in past' = quotes_in past)
    (hpairs : market_pairs math past' = market_pairs math past)
    (hmarket : past'.filterMap market_of = past.filterMap market_of) (hsince : since_open past' = since_open past) :
    s.Tracks math cfg past' := by
  have hcloses : closes past' = closes past := congrArg (List.map close_of) hbars
  have hreturns : log_returns math past' = log_returns math past := congrArg (returns_between math) hcloses
  have htraded : traded math past' = traded math past := by rw [traded, traded, hreturns, hbars]
  have hminutes : minutes_in past' = minutes_in past := by rw [minutes_in, minutes_in, hbars]
  exact {
    cfg_eq := htracks.cfg_eq
    length_values := htracks.length_values
    returns := htracks.returns.trans (by unfold lagged_return; rw [hcloses])
    reversals := htracks.reversals.trans (by unfold short_term_reversal; rw [hcloses])
    ma_devs := htracks.ma_devs.trans (by unfold ma_deviation; rw [hcloses])
    vols := htracks.vols.trans (by unfold realized_volatility; rw [hreturns])
    return_z := htracks.return_z.trans (by rw [return_zscore, return_zscore, hreturns])
    atr := htracks.atr.trans (by rw [true_range, true_range, hbars])
    volume_profile := htracks.volume_profile.trans (by rw [volume_baseline, volume_baseline, hminutes])
    spread := htracks.spread.trans (by rw [spread_statistics, spread_statistics, hquotes])
    illiquidity := htracks.illiquidity.trans (by rw [amihud, amihud, htraded])
    vol_bucket := htracks.vol_bucket.trans (by rw [volatility_regime, volatility_regime, hcloses])
    beta := htracks.beta.trans (by rw [market_beta, market_beta, hpairs])
    session_vwap := htracks.session_vwap.trans (by rw [vwap_of_session, vwap_of_session, hsince])
    rolling_vwap := htracks.rolling_vwap.trans (by rw [vwap, vwap, hbars])
    rolling_twap := htracks.rolling_twap.trans (by rw [twap, twap, hcloses])
    seasonal := htracks.seasonal.trans (by rw [season, season, hminutes])
    last_close := htracks.last_close.trans (by rw [hcloses])
    last_log_return := htracks.last_log_return.trans (by rw [hreturns])
    has_return := htracks.has_return.trans (by rw [hreturns])
    pending_market_return := htracks.pending_market_return.trans (by rw [hmarket])
    last_minute := htracks.last_minute.trans (by rw [hminutes])
    last_volume := htracks.last_volume.trans (by rw [hminutes]) }

theorem minutes_in_cons (bar : market.Bar) (session : Option market.Session) (past : List (FeatureCall K))
    (hpos : 0 < ((bar.close : Rat) : K)) :
    minutes_in (.on_bar bar session :: past) = ((opened session).map fun o => (bar, o)).toList ++ minutes_in past := by
  rw [minutes_in, bars_in_cons bar session past hpos]
  cases session with
  | none => rfl
  | some o =>
    cases hopen : o.is_open with
    | false => simp [opened, minutes_in, hopen]
    | true =>
      have hsome : opened (some o) = some o := Option.filter_some_pos hopen
      simp [minutes_in, hopen, hsome]

theorem FeatureSet.Tracks.on_bar (htracks : s.Tracks math cfg past) (bar : market.Bar)
    (session : Option market.Session) : (s.on_bar math bar session).Tracks math cfg (.on_bar bar session :: past) := by
  by_cases hpos : 0 < ((bar.close : Rat) : K)
  · have hbars := bars_in_cons bar session past hpos
    have hcloses : closes (.on_bar bar session :: past) = ((bar.close : Rat) : K) :: closes past :=
      congrArg (List.map close_of) hbars
    obtain ⟨hvols, hz, hilliquidity⟩ := htracks.update_returns bar session hpos rfl
    have hminutes := minutes_in_cons bar session past hpos
    rw [FeatureSet.on_bar, if_neg (not_not.mpr hpos), FeatureSet.fold_bar_eq]
    refine FeatureSet.Tracks.refresh {
      cfg_eq := htracks.cfg_eq
      length_values := htracks.length_values
      returns := ?_, reversals := ?_, ma_devs := ?_, vols := hvols, return_z := hz, atr := ?_
      volume_profile := ?_, spread := htracks.spread, illiquidity := hilliquidity, vol_bucket := ?_
      beta := htracks.beta, session_vwap := ?_, rolling_vwap := ?_, rolling_twap := ?_, seasonal := ?_
      last_close := ?_, last_log_return := ?_, has_return := ?_
      pending_market_return := htracks.pending_market_return, last_minute := ?_, last_volume := ?_ }
    · rw [htracks.returns]
      unfold lagged_return
      rw [hcloses]
      exact map_fed_cons _ _ _ _ _
    · rw [htracks.reversals]
      unfold short_term_reversal
      rw [hcloses]
      exact map_fed_cons _ _ _ _ _
    · rw [htracks.ma_devs]
      unfold ma_deviation
      rw [hcloses]
      exact map_fed_cons _ _ _ _ _
    · rw [htracks.atr, true_range, true_range, hbars]
      rfl
    · rw [htracks.volume_profile, volume_baseline, volume_baseline, hminutes]
      cases opened session <;> rfl
    · rw [hvols, htracks.vol_bucket, volatility_regime, volatility_regime, hcloses]
      cases hwindows : cfg.volatility_windows with
      | nil => rfl
      | cons window windows =>
        have hregime : cfg.regime_window = window := by rw [FeatureConfig.regime_window, hwindows]; rfl
        rw [if_neg (List.cons_ne_nil _ _), if_neg (List.cons_ne_nil _ _), hregime]
        simp only [List.map_cons, List.head?_cons, Option.elim_some, regime_over, realized_volatility, log_returns,
          hcloses]
    · rw [htracks.session_vwap, vwap_of_session, vwap_of_session, since_open_bar, folded, if_pos hpos]
      rfl
    · rw [htracks.rolling_vwap, vwap, vwap, hbars]
      rfl
    · rw [htracks.rolling_twap, twap, twap, hcloses]
      rfl
    · rw [htracks.seasonal, htracks.cfg_eq, season, season, hminutes]
      cases opened session with
      | none => rfl
      | some o => cases cfg.include_seasonal <;> rfl
    · rw [hcloses]
      rfl
    · rw [log_returns, hcloses]
      rcases htracks.observe_return (bar.close : Rat) with ⟨hnew, -, -, hlast⟩ | ⟨r, hnew, -, hlast⟩
      · rw [hnew, hlast]
        rfl
      · rw [hnew, hlast]
        rfl
    · rw [log_returns, hcloses]
      rcases htracks.observe_return (bar.close : Rat) with ⟨hnew, -, hreturn, -⟩ | ⟨r, hnew, hreturn, -⟩
      · rw [hnew, hreturn]
        rfl
      · rw [hnew, hreturn]
        rfl
    · rw [hminutes, htracks.last_minute]
      cases opened session <;> rfl
    · rw [hminutes, htracks.last_volume]
      cases opened session <;> rfl
  · have hskip : folded (.on_bar bar session : FeatureCall K) = none := if_neg hpos
    have hbars : bars_in (.on_bar bar session :: past) = bars_in past := List.filterMap_cons_none hskip
    have hsince : since_open (.on_bar bar session :: past) = since_open past := by
      rw [since_open_bar, hskip]
      rfl
    rw [FeatureSet.on_bar, if_pos hpos]
    exact htracks.of_bars hbars rfl rfl rfl hsince

theorem FeatureSet.Tracks.step (htracks : s.Tracks math cfg past) (call : FeatureCall K) :
    (s.step math call).Tracks math cfg (call :: past) := by
  cases call with
  | on_bar bar session => exact htracks.on_bar bar session
  | on_quote quote => exact htracks.on_quote quote
  | on_market_context r => exact htracks.on_market_context r
  | on_session_open => exact htracks.on_session_open

end Calls

/-- After a whole history the set is its estimators, each fed on its own. -/
theorem FeatureSet.tracks_run (instrument : InstrumentId) (calls : List (FeatureCall K)) :
    ((FeatureSet.new math cfg instrument).run math calls).Tracks math cfg calls.reverse :=
  Series.foldl_tracks (P := fun (s : FeatureSet K) past => s.Tracks math cfg past)
    (FeatureSet.new_tracks math cfg instrument) (fun _ _ call htracks => htracks.step call) calls

end ptl.features
