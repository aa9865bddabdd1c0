import TradingLab.Core.Numbers
import TradingLab.Features.Intraday
import TradingLab.Market.Merge

namespace ptl.features

/-- Windows are in bars. -/
structure FeatureConfig (K : Type*) [Field K] where
  return_lags : List Nat := [1, 5, 15, 30, 60, 390]
  reversal_lags : List Nat := [1, 5]
  ma_windows : List Nat := [30, 60, 390]
  volatility_windows : List Nat := [15, 60, 390]
  zscore_window : Nat := 60
  atr_period : Nat := 14
  volume_profile_lookback : Nat := 20
  volume_profile_slots : Nat := 390
  spread_window : Nat := 60
  illiquidity_window : Nat := 60
  beta_window : Nat := 390
  annualization_periods : K := 252 * 390
  include_seasonal : Bool := true
  include_market_relative : Bool := true

variable {K : Type*} [Field K]

/-! ### Names -/

/-- The name of a feature with one parameter, as a signature or as a name. -/
def parameterised (with_params : Bool) (base : String) (param : Nat) : String :=
  if with_params then base ++ "(" ++ toString param ++ ")" else base ++ "_" ++ toString param

def parameterless (with_params : Bool) (base : String) : String :=
  if with_params then base ++ "()" else base

def FeatureConfig.regime_window (c : FeatureConfig K) : Nat := c.volatility_windows.head?.getD 60

def FeatureConfig.vwap_window (c : FeatureConfig K) : Nat := c.ma_windows.head?.getD 60

/-- In emission order. -/
def build_names (c : FeatureConfig K) (with_params : Bool) : List String :=
  let push := parameterised with_params
  let emplace := parameterless with_params
  c.return_lags.map (push "ret") ++
  c.reversal_lags.map (push "reversal") ++
  c.ma_windows.map (push "ma_dev") ++
  c.volatility_windows.map (push "realized_vol") ++
  [push "ret_zscore" c.zscore_window,
    push "atr" c.atr_period,
    push "relative_volume" c.volume_profile_lookback,
    push "spread_bps" c.spread_window,
    push "spread_zscore" c.spread_window,
    push "illiquidity" c.illiquidity_window,
    push "vol_regime" c.regime_window,
    push "vwap_dev" c.vwap_window,
    emplace "session_vwap_dev",
    emplace "twap_vwap_gap"] ++
  (if c.include_seasonal then [emplace "seasonal_sin", emplace "seasonal_cos"] else []) ++
  (if c.include_market_relative then [push "beta" c.beta_window, emplace "market_relative_return"] else [])

def feature_names (c : FeatureConfig K) : List String := build_names c false

def feature_signatures (c : FeatureConfig K) : List String := build_names c true

/-- The separator tells signatures apart from their concatenation. -/
def compute_feature_set_id (signatures : List String) : UInt64 :=
  signatures.foldl (fun h s => hash_bytes (hash_bytes h (characters s)) [0x1f]) kFnvOffset

/-! ### The estimators of one instrument -/

structure FeatureSet (K : Type*) [Field K] where
  cfg : FeatureConfig K
  instrument : InstrumentId
  feature_set_id : UInt64
  values : List K
  ready_mask : Nat := 0
  feature_end_time : Timestamp := kNoTimestamp
  returns : List (LaggedReturn K)
  reversals : List (ShortTermReversal K)
  ma_devs : List (MaDeviation K)
  vols : List (RealizedVolatility K)
  return_z : RollingZScore K
  atr : AverageTrueRange K
  volume_profile : MinuteOfDayVolumeProfile K
  spread : SpreadStatistics K
  illiquidity : AmihudIlliquidity K
  vol_bucket : VolatilityBucket K
  beta : RollingBeta K
  session_vwap : SessionVwap K
  rolling_vwap : RollingVwap K
  rolling_twap : RollingTwap K
  seasonal : SeasonalControls K
  last_close : K := 0
  last_log_return : K := 0
  has_return : Bool := false
  pending_market_return : K := 0
  last_minute : Int := -1
  last_volume : K := 0

variable [LinearOrder K] (math : MathFunctions K)

/-- As many values as the ready mask has bits, at most. -/
def FeatureSet.new (cfg : FeatureConfig K) (instrument : InstrumentId) : FeatureSet K where
  cfg := cfg
  instrument := instrument
  feature_set_id := compute_feature_set_id (feature_signatures cfg)
  values := List.replicate (min (feature_names cfg).length 64) 0
  returns := cfg.return_lags.map LaggedReturn.new
  reversals := cfg.reversal_lags.map ShortTermReversal.new
  ma_devs := cfg.ma_windows.map MaDeviation.new
  vols := cfg.volatility_windows.map fun w => RealizedVolatility.new math w cfg.annualization_periods
  return_z := RollingZScore.new cfg.zscore_window
  atr := AverageTrueRange.new cfg.atr_period
  volume_profile := MinuteOfDayVolumeProfile.new cfg.volume_profile_slots cfg.volume_profile_lookback
  spread := SpreadStatistics.new cfg.spread_window
  illiquidity := AmihudIlliquidity.new cfg.illiquidity_window
  vol_bucket := VolatilityBucket.new cfg.regime_window
  beta := RollingBeta.new cfg.beta_window
  session_vwap := SessionVwap.new
  rolling_vwap := RollingVwap.new cfg.vwap_window
  rolling_twap := RollingTwap.new cfg.vwap_window
  seasonal := SeasonalControls.new

/-! ### What is emitted -/

/-- The relative distance of one price from another, zero without the other. -/
def relative_gap (price base : K) : K := if 0 < base then (price - base) / base else 0

/-- The features before the volume profile's. -/
def FeatureSet.emitted_returns (s : FeatureSet K) : List (K × Bool) :=
  s.returns.map (fun f => (f.value math, f.ready)) ++
  s.reversals.map (fun f => (f.value math, f.ready)) ++
  s.ma_devs.map (fun f => (f.value, f.ready))

def FeatureSet.emitted_context (s : FeatureSet K) : List (K × Bool) :=
  (if s.cfg.include_seasonal then [(s.seasonal.sin_component, true), (s.seasonal.cos_component, true)] else []) ++
  (if s.cfg.include_market_relative then
    [(s.beta.value, s.beta.ready),
      (if s.has_return then s.beta.residual s.pending_market_return s.last_log_return else 0,
        s.beta.ready && s.has_return)]
  else [])

/-- The features from the volume profile's on. -/
def FeatureSet.emitted_market (s : FeatureSet K) : List (K × Bool) :=
  let vwap := s.rolling_vwap.value
  let twap := s.rolling_twap.value
  [(s.volume_profile.relative_volume s.last_minute s.last_volume, s.volume_profile.ready s.last_minute),
    (s.spread.last_bps, s.spread.ready),
    (s.spread.zscore math, s.spread.ready),
    (s.illiquidity.value, s.illiquidity.ready),
    (s.vol_bucket.value math, s.vol_bucket.ready),
    (relative_gap s.last_close vwap, s.rolling_vwap.ready),
    (relative_gap s.last_close s.session_vwap.value, s.session_vwap.ready),
    (if 0 < twap ∧ 0 < vwap then (twap - vwap) / vwap else 0, s.rolling_twap.ready)] ++
  s.emitted_context

/-- Every feature with its ready flag, in emission order. -/
def FeatureSet.emitted (s : FeatureSet K) : List (K × Bool) :=
  s.emitted_returns math ++
  s.vols.map (fun f => (f.value math, f.ready)) ++
  [(s.return_z.value math, s.return_z.ready), (s.atr.value, s.atr.ready)] ++
  s.emitted_market math

/-- One bit for each feature that is ready. -/
def mask_of (emitted : List (K × Bool)) : Nat :=
  emitted.zipIdx.foldl (fun mask e => if e.1.2 then mask ||| 1 <<< e.2 else mask) 0

/-- What does not fit the values is dropped. -/
def FeatureSet.refresh (s : FeatureSet K) : FeatureSet K :=
  let shown := (s.emitted math).take s.values.length
  { s with
    values := shown.map Prod.fst ++ s.values.drop shown.length
    ready_mask := mask_of shown }

/-! ### Updates -/

def FeatureSet.observe_return (s : FeatureSet K) (close : K) : FeatureSet K :=
  if 0 < s.last_close then { s with last_log_return := math.log (close / s.last_close), has_return := true } else s

def FeatureSet.update_prices (s : FeatureSet K) (close : K) : FeatureSet K :=
  { s with
    returns := s.returns.map fun f => f.update close
    reversals := s.reversals.map fun f => f.update close
    ma_devs := s.ma_devs.map fun f => f.update close }

def FeatureSet.update_returns (s : FeatureSet K) (dollar_volume : K) : FeatureSet K :=
  if s.has_return then
    { s with
      vols := s.vols.map fun f => f.update s.last_log_return
      return_z := s.return_z.update s.last_log_return
      illiquidity := s.illiquidity.update |s.last_log_return| dollar_volume }
  else s

def FeatureSet.update_ranges (s : FeatureSet K) (high low close volume : K) : FeatureSet K :=
  { s with
    atr := s.atr.update high low close
    vol_bucket := s.vols.head?.elim s.vol_bucket fun f => s.vol_bucket.update (f.value math)
    rolling_vwap := s.rolling_vwap.update close volume
    rolling_twap := s.rolling_twap.update close
    session_vwap := s.session_vwap.update close volume }

/-- How far a session has gone. -/
def progress_of (ts : Timestamp) (session : market.Session) : K :=
  if 0 < session.length then ((ts - session.open_ : Int) : K) / ((session.length : Int) : K) else 0

/-- The volume is stored beside the baseline, then folded into it. -/
def FeatureSet.update_session (s : FeatureSet K) (ts : Timestamp) (volume : K) :
    Option market.Session → FeatureSet K
  | none => s
  | some session =>
    if session.is_open then
      let minute := minute_of_session ts session
      { s with
        last_minute := minute
        last_volume := volume
        volume_profile := s.volume_profile.update minute volume
        seasonal := if s.cfg.include_seasonal then s.seasonal.update math (progress_of ts session) else s.seasonal }
    else s

/-- All of a bar, up to showing it. -/
def FeatureSet.fold_bar (s : FeatureSet K) (bar : market.Bar) (session : Option market.Session) : FeatureSet K :=
  let close : K := (bar.close : Rat)
  let volume : K := (bar.volume : Rat)
  let s := (s.observe_return math close).update_prices close
  let s := s.update_returns (close * volume)
  let s := s.update_ranges math (bar.high : Rat) (bar.low : Rat) close volume
  let s := s.update_session math bar.close_time volume session
  { s with last_close := close, feature_end_time := bar.close_time }

def FeatureSet.on_bar (s : FeatureSet K) (bar : market.Bar) (session : Option market.Session) : FeatureSet K :=
  if ¬ 0 < ((bar.close : Rat) : K) then s else (s.fold_bar math bar session).refresh math

def FeatureSet.on_quote (s : FeatureSet K) (quote : market.Quote) : FeatureSet K :=
  let ts := quote.time.exchange_time
  { s with
    spread := s.spread.update (quote.bid : Rat) (quote.ask : Rat)
    feature_end_time := if ¬ is_set s.feature_end_time ∨ s.feature_end_time < ts then ts
      else s.feature_end_time }.refresh math

def FeatureSet.on_market_context (s : FeatureSet K) (market_log_return : K) : FeatureSet K :=
  { s with
    pending_market_return := market_log_return
    beta := if s.has_return then s.beta.update market_log_return s.last_log_return else s.beta }.refresh math

/-- Nothing is emitted. -/
def FeatureSet.on_session_open (s : FeatureSet K) : FeatureSet K := { s with session_vwap := SessionVwap.new }

/-- One call of the interface. -/
inductive FeatureCall (K : Type*) where
  | on_bar (bar : market.Bar) (session : Option market.Session)
  | on_quote (quote : market.Quote)
  | on_market_context (market_log_return : K)
  | on_session_open

def FeatureSet.step (s : FeatureSet K) : FeatureCall K → FeatureSet K
  | .on_bar bar session => s.on_bar math bar session
  | .on_quote quote => s.on_quote math quote
  | .on_market_context r => s.on_market_context math r
  | .on_session_open => s.on_session_open

def FeatureSet.run (s : FeatureSet K) (calls : List (FeatureCall K)) : FeatureSet K :=
  calls.foldl (FeatureSet.step math) s

end ptl.features

namespace ptl.features

/-! ### Reading signatures -/

/-- The base and the parameter of a signature. Without a parameter the digits
are none, and their number is zero. -/
def signature_token (signature : String) : String × Nat :=
  let rest := (Scan.fromStop (· == '(') signature.toList).drop 1
  (String.ofList (Scan.upTo (· == '(') signature.toList), Numeral.ofDigits 10 (Scan.upTo (· == ')') rest))

theorem signature_token_append {base : String} {digits : List Char} (hbase : '(' ∉ base.toList)
    (hdigits : ')' ∉ digits) :
    signature_token (base ++ "(" ++ String.ofList digits ++ ")") = (base, Numeral.ofDigits 10 digits) := by
  have htext : (base ++ "(" ++ String.ofList digits ++ ")").toList = base.toList ++ '(' :: (digits ++ [')']) := by
    simp
  have hfree : ∀ c ∈ base.toList, (c == '(') = false := by
    intro c hc
    exact beq_false_of_ne fun heq => hbase (heq ▸ hc)
  have hclosed : ∀ c ∈ digits, (c == ')') = false := by
    intro c hc
    exact beq_false_of_ne fun heq => hdigits (heq ▸ hc)
  rw [signature_token, htext, Scan.upTo_append hfree rfl, Scan.fromStop_append hfree rfl, List.drop_one,
    List.tail_cons, Scan.upTo_append hclosed rfl, String.ofList_toList]

theorem signature_token_parameterised {base : String} (hbase : '(' ∉ base.toList) (param : Nat) :
    signature_token (parameterised true base param) = (base, param) := by
  have hdigits : ')' ∉ (toString param).toList := fun hmem => by
    have hdigit := isDigit_of_mem_toString hmem
    cases hdigit
  have htoken := signature_token_append hbase hdigits
  rw [String.ofList_toList, ofDigits_toString] at htoken
  exact htoken

theorem signature_token_parameterless {base : String} (hbase : '(' ∉ base.toList) :
    signature_token (parameterless true base) = (base, 0) := by
  have hnone : ')' ∉ ([] : List Char) := List.not_mem_nil
  have htoken := signature_token_append hbase hnone
  have htext : base ++ "(" ++ String.ofList [] ++ ")" = base ++ "()" := by
    rw [← String.toList_inj]
    simp
  rw [htext] at htoken
  exact htoken

variable {K : Type*} [Field K]

/-- What a configuration declares: each feature's base with its parameter. -/
def FeatureConfig.declared (c : FeatureConfig K) : List (String × Nat) :=
  c.return_lags.map (Prod.mk "ret") ++
  c.reversal_lags.map (Prod.mk "reversal") ++
  c.ma_windows.map (Prod.mk "ma_dev") ++
  c.volatility_windows.map (Prod.mk "realized_vol") ++
  [("ret_zscore", c.zscore_window), ("atr", c.atr_period), ("relative_volume", c.volume_profile_lookback),
    ("spread_bps", c.spread_window), ("spread_zscore", c.spread_window), ("illiquidity", c.illiquidity_window),
    ("vol_regime", c.regime_window), ("vwap_dev", c.vwap_window), ("session_vwap_dev", 0), ("twap_vwap_gap", 0)] ++
  (if c.include_seasonal then [("seasonal_sin", 0), ("seasonal_cos", 0)] else []) ++
  (if c.include_market_relative then [("beta", c.beta_window), ("market_relative_return", 0)] else [])

theorem map_signature_token (c : FeatureConfig K) :
    (feature_signatures c).map signature_token = c.declared := by
  have hmap : ∀ (base : String) (params : List Nat), '(' ∉ base.toList →
      (params.map (parameterised true base)).map signature_token = params.map (Prod.mk base) := by
    intro base params hbase
    rw [List.map_map]
    exact List.map_congr_left fun param _ => signature_token_parameterised hbase param
  rw [feature_signatures, build_names, FeatureConfig.declared]
  simp only [List.map_append, List.map_cons, List.map_nil, apply_ite (List.map signature_token)]
  rw [hmap "ret" _ (by decide), hmap "reversal" _ (by decide), hmap "ma_dev" _ (by decide),
    hmap "realized_vol" _ (by decide)]
  rw [signature_token_parameterised (by decide), signature_token_parameterised (by decide),
    signature_token_parameterised (by decide), signature_token_parameterised (by decide),
    signature_token_parameterised (by decide), signature_token_parameterised (by decide),
    signature_token_parameterised (by decide), signature_token_parameterised (by decide),
    signature_token_parameterised (by decide), signature_token_parameterless (by decide),
    signature_token_parameterless (by decide), signature_token_parameterless (by decide),
    signature_token_parameterless (by decide), signature_token_parameterless (by decide)]

/-- The parameters declared under a base. -/
def declared_under (base : String) (tokens : List (String × Nat)) : List Nat :=
  tokens.filterMap fun t => if t.1 = base then some t.2 else none

section Declared

variable {c c₁ c₂ : FeatureConfig K}

theorem declared_under_map (base base' : String) (params : List Nat) :
    declared_under base (params.map (Prod.mk base')) = if base' = base then params else [] := by
  rw [declared_under, List.filterMap_map]
  split
  · rename_i heq
    subst heq
    simp
  · rename_i hne
    simp [hne]

theorem declared_under_append (base : String) (ts us : List (String × Nat)) :
    declared_under base (ts ++ us) = declared_under base ts ++ declared_under base us :=
  List.filterMap_append

/-- Each base stands for one part of the configuration. -/
theorem declared_under_declared (base : String) (c : FeatureConfig K) :
    declared_under base c.declared =
      (if "ret" = base then c.return_lags else []) ++ (if "reversal" = base then c.reversal_lags else []) ++
      (if "ma_dev" = base then c.ma_windows else []) ++
      (if "realized_vol" = base then c.volatility_windows else []) ++
      declared_under base [("ret_zscore", c.zscore_window), ("atr", c.atr_period),
        ("relative_volume", c.volume_profile_lookback), ("spread_bps", c.spread_window),
        ("spread_zscore", c.spread_window), ("illiquidity", c.illiquidity_window),
        ("vol_regime", c.regime_window), ("vwap_dev", c.vwap_window), ("session_vwap_dev", 0),
        ("twap_vwap_gap", 0)] ++
      (if c.include_seasonal then declared_under base [("seasonal_sin", 0), ("seasonal_cos", 0)] else []) ++
      (if c.include_market_relative then
        declared_under base [("beta", c.beta_window), ("market_relative_return", 0)] else []) := by
  have hnone : declared_under base [] = [] := rfl
  simp only [FeatureConfig.declared, declared_under_append, declared_under_map, apply_ite (declared_under base),
    hnone]

/-- Two configurations with the same signatures. The beta window is declared
only beside the market-relative features. -/
structure FeatureConfig.SameDeclared (c₁ c₂ : FeatureConfig K) : Prop where
  return_lags : c₁.return_lags = c₂.return_lags
  reversal_lags : c₁.reversal_lags = c₂.reversal_lags
  ma_windows : c₁.ma_windows = c₂.ma_windows
  volatility_windows : c₁.volatility_windows = c₂.volatility_windows
  zscore_window : c₁.zscore_window = c₂.zscore_window
  atr_period : c₁.atr_period = c₂.atr_period
  volume_profile_lookback : c₁.volume_profile_lookback = c₂.volume_profile_lookback
  spread_window : c₁.spread_window = c₂.spread_window
  illiquidity_window : c₁.illiquidity_window = c₂.illiquidity_window
  include_seasonal : c₁.include_seasonal = c₂.include_seasonal
  include_market_relative : c₁.include_market_relative = c₂.include_market_relative
  beta_window : c₁.include_market_relative = true → c₁.beta_window = c₂.beta_window

theorem FeatureConfig.SameDeclared.build_names_eq (hsame : c₁.SameDeclared c₂) (with_params : Bool) :
    build_names c₁ with_params = build_names c₂ with_params := by
  unfold build_names FeatureConfig.regime_window FeatureConfig.vwap_window
  rw [← hsame.return_lags, ← hsame.reversal_lags, ← hsame.ma_windows, ← hsame.volatility_windows,
    ← hsame.zscore_window, ← hsame.atr_period, ← hsame.volume_profile_lookback, ← hsame.spread_window,
    ← hsame.illiquidity_window, ← hsame.include_seasonal, ← hsame.include_market_relative]
  cases hrelative : c₁.include_market_relative with
  | true => rw [hsame.beta_window hrelative]
  | false => rfl

theorem sameDeclared_of_signatures (hsame : feature_signatures c₁ = feature_signatures c₂) :
    c₁.SameDeclared c₂ := by
  have hunder (base : String) : declared_under base c₁.declared = declared_under base c₂.declared := by
    rw [← map_signature_token, ← map_signature_token, hsame]
  simp only [declared_under_declared] at hunder
  have hseasonal : c₁.include_seasonal = c₂.include_seasonal := by
    have hsin := hunder "seasonal_sin"
    cases hfirst : c₁.include_seasonal <;> cases hsecond : c₂.include_seasonal <;>
      simp [declared_under, hfirst, hsecond] at hsin ⊢
  have hrelative : c₁.include_market_relative = c₂.include_market_relative := by
    have hmarket := hunder "market_relative_return"
    cases hfirst : c₁.include_market_relative <;> cases hsecond : c₂.include_market_relative <;>
      simp [declared_under, hfirst, hsecond] at hmarket ⊢
  exact {
    return_lags := by simpa [declared_under] using hunder "ret"
    reversal_lags := by simpa [declared_under] using hunder "reversal"
    ma_windows := by simpa [declared_under] using hunder "ma_dev"
    volatility_windows := by simpa [declared_under] using hunder "realized_vol"
    zscore_window := by simpa [declared_under] using hunder "ret_zscore"
    atr_period := by simpa [declared_under] using hunder "atr"
    volume_profile_lookback := by simpa [declared_under] using hunder "relative_volume"
    spread_window := by simpa [declared_under] using hunder "spread_bps"
    illiquidity_window := by simpa [declared_under] using hunder "illiquidity"
    include_seasonal := hseasonal
    include_market_relative := hrelative
    beta_window := by
      intro hincluded
      simpa [declared_under, hincluded, hrelative ▸ hincluded] using hunder "beta" }

end Declared

end ptl.features
