import TradingLab.Features.FeatureSet
import TradingLab.Features.Streams

namespace ptl.features

/-! ### Features and their names -/

/-- The features with a parameter in their name. -/
inductive Parameterised where
  | ret
  | reversal
  | ma_dev
  | realized_vol
  | ret_zscore
  | atr
  | relative_volume
  | spread_bps
  | spread_zscore
  | illiquidity
  | vol_regime
  | vwap_dev
  | beta
  deriving DecidableEq, Repr

inductive Parameterless where
  | session_vwap_dev
  | twap_vwap_gap
  | seasonal_sin
  | seasonal_cos
  | market_relative_return
  deriving DecidableEq, Repr

inductive Feature where
  | windowed (kind : Parameterised) (param : Nat)
  | plain (kind : Parameterless)
  deriving DecidableEq, Repr

def Parameterised.base : Parameterised → String
  | .ret => "ret"
  | .reversal => "reversal"
  | .ma_dev => "ma_dev"
  | .realized_vol => "realized_vol"
  | .ret_zscore => "ret_zscore"
  | .atr => "atr"
  | .relative_volume => "relative_volume"
  | .spread_bps => "spread_bps"
  | .spread_zscore => "spread_zscore"
  | .illiquidity => "illiquidity"
  | .vol_regime => "vol_regime"
  | .vwap_dev => "vwap_dev"
  | .beta => "beta"

def Parameterless.base : Parameterless → String
  | .session_vwap_dev => "session_vwap_dev"
  | .twap_vwap_gap => "twap_vwap_gap"
  | .seasonal_sin => "seasonal_sin"
  | .seasonal_cos => "seasonal_cos"
  | .market_relative_return => "market_relative_return"

def Feature.name : Feature → String
  | .windowed kind param => parameterised false kind.base param
  | .plain kind => parameterless false kind.base

/-- What a name says: the digits it ends in, as a number, and what stands before
their separator. -/
def name_token (name : String) : List Char × Option Nat :=
  let digits := Scan.upTo (fun c => !c.isDigit) name.toList.reverse
  if digits = [] then (name.toList, none)
  else
    ((Scan.fromStop (fun c => !c.isDigit) name.toList.reverse).tail.reverse, some (Numeral.ofDigits 10 digits.reverse))

theorem name_token_windowed (kind : Parameterised) (param : Nat) :
    name_token (Feature.windowed kind param).name = (kind.base.toList, some param) := by
  have htext : (Feature.windowed kind param).name.toList.reverse =
      (toString param).toList.reverse ++ '_' :: kind.base.toList.reverse := by
    simp [Feature.name, parameterised]
  have hdigits : ∀ c ∈ (toString param).toList.reverse, (!c.isDigit) = false := by
    intro c hc
    rw [isDigit_of_mem_toString (List.mem_reverse.mp hc)]
    rfl
  have hne : (toString param).toList.reverse ≠ [] := by simp
  rw [name_token, htext, Scan.upTo_append hdigits (by decide), Scan.fromStop_append hdigits (by decide), if_neg hne,
    List.tail_cons, List.reverse_reverse, List.reverse_reverse, ofDigits_toString]

theorem name_token_plain (kind : Parameterless) : name_token (Feature.plain kind).name = (kind.base.toList, none) := by
  cases kind <;> decide

theorem Parameterised.base_injective {k k' : Parameterised} (hbase : k.base.toList = k'.base.toList) : k = k' := by
  have hmem : ∀ k : Parameterised, k ∈ [ret, reversal, ma_dev, realized_vol, ret_zscore, atr, relative_volume, spread_bps,
      spread_zscore, illiquidity, vol_regime, vwap_dev, beta] := by
    intro k
    cases k <;> decide
  have hnodup : ([ret, reversal, ma_dev, realized_vol, ret_zscore, atr, relative_volume, spread_bps, spread_zscore,
      illiquidity, vol_regime, vwap_dev, beta].map fun k => k.base.toList).Nodup := by decide
  exact List.inj_on_of_nodup_map hnodup (hmem k) (hmem k') hbase

theorem Parameterless.base_injective {k k' : Parameterless} (hbase : k.base.toList = k'.base.toList) : k = k' := by
  have hmem : ∀ k : Parameterless, k ∈ [session_vwap_dev, twap_vwap_gap, seasonal_sin, seasonal_cos,
      market_relative_return] := by
    intro k
    cases k <;> decide
  have hnodup : ([session_vwap_dev, twap_vwap_gap, seasonal_sin, seasonal_cos, market_relative_return].map
      fun k => k.base.toList).Nodup := by decide
  exact List.inj_on_of_nodup_map hnodup (hmem k) (hmem k') hbase

/-- A name tells the feature with its parameter. -/
theorem Feature.name_injective : Function.Injective Feature.name := by
  intro f g hname
  have htoken := congrArg name_token hname
  cases f with
  | windowed kind param =>
    cases g with
    | windowed kind' param' =>
      rw [name_token_windowed, name_token_windowed] at htoken
      obtain ⟨hkind, hparam⟩ := Prod.mk.inj htoken
      rw [Parameterised.base_injective hkind, Option.some.inj hparam]
    | plain kind' =>
      rw [name_token_windowed, name_token_plain] at htoken
      exact nomatch (Prod.mk.inj htoken).2
  | plain kind =>
    cases g with
    | windowed kind' param' =>
      rw [name_token_windowed, name_token_plain] at htoken
      exact nomatch (Prod.mk.inj htoken).2
    | plain kind' =>
      rw [name_token_plain, name_token_plain] at htoken
      rw [Parameterless.base_injective (Prod.mk.inj htoken).1]

/-! ### What a feature shows -/

variable {K : Type*} [Field K] [LinearOrder K] (math : MathFunctions K) (cfg : FeatureConfig K)
  (past : List (FeatureCall K))

/-- The market's latest return, with the instrument's own, zero before each. -/
def latest_market : K := (past.filterMap market_of).head?.getD 0

def latest_return : K := (log_returns math past).head?.getD 0

def latest_close : K := (closes past).head?.getD 0

/-- The value and the ready flag of a feature, by estimators fed on their own. What
its name does not say is taken from the configuration. -/
def Feature.shown : Feature → K × Bool
  | .windowed .ret lag => ((lagged_return past lag).value math, (lagged_return past lag).ready)
  | .windowed .reversal lag => ((short_term_reversal past lag).value math, (short_term_reversal past lag).ready)
  | .windowed .ma_dev window => ((ma_deviation past window).value, (ma_deviation past window).ready)
  | .windowed .realized_vol window =>
    ((realized_volatility math cfg past window).value math, (realized_volatility math cfg past window).ready)
  | .windowed .ret_zscore window => ((return_zscore math past window).value math, (return_zscore math past window).ready)
  | .windowed .atr period => ((true_range past period).value, (true_range past period).ready)
  | .windowed .relative_volume lookback =>
    let minute := ((minutes_in past).head?.map fun m => minute_of_session m.1.close_time m.2).getD (-1)
    let volume := ((minutes_in past).head?.map fun m => ((m.1.volume : Rat) : K)).getD 0
    ((volume_baseline cfg past lookback).relative_volume minute volume, (volume_baseline cfg past lookback).ready minute)
  | .windowed .spread_bps window => ((spread_statistics past window).last_bps, (spread_statistics past window).ready)
  | .windowed .spread_zscore window =>
    ((spread_statistics past window).zscore math, (spread_statistics past window).ready)
  | .windowed .illiquidity window => ((amihud math past window).value, (amihud math past window).ready)
  | .windowed .vol_regime window =>
    ((volatility_regime math cfg past window).value math, (volatility_regime math cfg past window).ready)
  | .windowed .vwap_dev window => (relative_gap (latest_close past) (vwap past window).value, (vwap past window).ready)
  | .plain .session_vwap_dev =>
    (relative_gap (latest_close past) (vwap_of_session past).value, (vwap_of_session past).ready)
  | .plain .twap_vwap_gap =>
    let vwap := (vwap past cfg.vwap_window).value
    let average := twap past cfg.vwap_window
    (if 0 < average.value ∧ 0 < vwap then (average.value - vwap) / vwap else 0, average.ready)
  | .plain .seasonal_sin => ((season math cfg past).sin_component, true)
  | .plain .seasonal_cos => ((season math cfg past).cos_component, true)
  | .windowed .beta window => ((market_beta math past window).value, (market_beta math past window).ready)
  | .plain .market_relative_return =>
    let beta := market_beta math past cfg.beta_window
    let has_return := !(log_returns math past).isEmpty
    (if has_return then beta.residual (latest_market past) (latest_return math past) else 0, beta.ready && has_return)

/-- The features of a configuration, in order. -/
def features_of : List Feature :=
  cfg.return_lags.map (.windowed .ret) ++
  cfg.reversal_lags.map (.windowed .reversal) ++
  cfg.ma_windows.map (.windowed .ma_dev) ++
  cfg.volatility_windows.map (.windowed .realized_vol) ++
  [.windowed .ret_zscore cfg.zscore_window, .windowed .atr cfg.atr_period,
    .windowed .relative_volume cfg.volume_profile_lookback, .windowed .spread_bps cfg.spread_window,
    .windowed .spread_zscore cfg.spread_window, .windowed .illiquidity cfg.illiquidity_window,
    .windowed .vol_regime cfg.regime_window, .windowed .vwap_dev cfg.vwap_window, .plain .session_vwap_dev,
    .plain .twap_vwap_gap] ++
  (if cfg.include_seasonal then [.plain .seasonal_sin, .plain .seasonal_cos] else []) ++
  (if cfg.include_market_relative then [.windowed .beta cfg.beta_window, .plain .market_relative_return] else [])

omit [LinearOrder K] in
theorem feature_names_eq : feature_names cfg = (features_of cfg).map Feature.name := by
  rw [feature_names, build_names, features_of]
  simp only [List.map_append, List.map_map, List.map_cons, List.map_nil, apply_ite (List.map Feature.name)]
  rfl

variable {math cfg past} {s : FeatureSet K}

/-- What is emitted is what the features show, in the order of their names. -/
theorem FeatureSet.Tracks.emitted_eq (htracks : s.Tracks math cfg past) :
    s.emitted math = (features_of cfg).map (Feature.shown math cfg past) := by
  rw [features_of]
  simp only [List.map_append, List.map_map, List.map_cons, List.map_nil,
    apply_ite (List.map (Feature.shown math cfg past))]
  simp only [FeatureSet.emitted, FeatureSet.emitted_returns, FeatureSet.emitted_market, FeatureSet.emitted_context,
    htracks.cfg_eq, htracks.returns, htracks.reversals, htracks.ma_devs, htracks.vols, htracks.return_z, htracks.atr,
    htracks.volume_profile, htracks.spread, htracks.illiquidity, htracks.vol_bucket, htracks.beta, htracks.session_vwap,
    htracks.rolling_vwap, htracks.rolling_twap, htracks.seasonal, htracks.last_close, htracks.last_log_return,
    htracks.has_return, htracks.pending_market_return, htracks.last_minute, htracks.last_volume, List.map_map,
    List.append_assoc, List.cons_append, List.nil_append]
  rfl

/-- Showing writes every emitted value when there are at most as many as there is
room for. -/
theorem FeatureSet.Tracks.refresh_eq (htracks : s.Tracks math cfg past) (hfits : (feature_names cfg).length ≤ 64) :
    (s.refresh math).values = (s.emitted math).map Prod.fst ∧
      (s.refresh math).ready_mask = mask_of (s.emitted math) := by
  have hroom : s.values.length = (s.emitted math).length := by
    rw [htracks.length_values, min_eq_left hfits, feature_names_eq, htracks.emitted_eq, List.length_map, List.length_map]
  have hshown : (s.emitted math).take s.values.length = s.emitted math := List.take_of_length_le hroom.ge
  simp only [FeatureSet.refresh, hshown]
  refine ⟨?_, trivial⟩
  rw [List.drop_eq_nil_of_le hroom.le, List.append_nil]

/-- Names describe values: after any history, each place of the values and of the
ready mask is the feature's that is named there. -/
theorem names_describe_values (cfg : FeatureConfig K) (instrument : InstrumentId) (calls : List (FeatureCall K))
    (hfits : (feature_names cfg).length ≤ 64) :
    let s := ((FeatureSet.new math cfg instrument).run math calls).refresh math
    s.values.length = (feature_names cfg).length ∧
      (∀ name ∈ feature_names cfg, ∃ f : Feature, f.name = name) ∧
      ∀ (i : Nat) (f : Feature), (feature_names cfg)[i]? = some f.name →
        s.values[i]? = some (f.shown math cfg calls.reverse).1 ∧
          s.ready_mask.testBit i = (f.shown math cfg calls.reverse).2 := by
  have htracks := FeatureSet.tracks_run math cfg instrument calls
  obtain ⟨hvalues, hmask⟩ := htracks.refresh_eq hfits
  intro s
  refine ⟨?_, fun name hmem => ?_, fun i f hname => ?_⟩
  · rw [hvalues, htracks.emitted_eq, feature_names_eq, List.length_map, List.length_map, List.length_map]
  · rw [feature_names_eq] at hmem
    obtain ⟨f, -, hname⟩ := List.mem_map.mp hmem
    exact ⟨f, hname⟩
  · rw [feature_names_eq, List.getElem?_map] at hname
    obtain ⟨g, hg, hsame⟩ := Option.map_eq_some_iff.mp hname
    obtain rfl := Feature.name_injective hsame
    have hemitted : (((FeatureSet.new math cfg instrument).run math calls).emitted math)[i]? =
        some (g.shown math cfg calls.reverse) := by
      rw [htracks.emitted_eq, List.getElem?_map, hg]
      rfl
    refine ⟨?_, ?_⟩
    · rw [hvalues, List.getElem?_map, hemitted]
      rfl
    · rw [hmask, testBit_mask_of, hemitted]
      rfl

theorem names_describe_values_default :
    let s := ((FeatureSet.new realMath {} 0).run realMath []).refresh realMath
    s.values.length = (feature_names ({} : FeatureConfig ℝ)).length ∧
      (∀ name ∈ feature_names ({} : FeatureConfig ℝ), ∃ f : Feature, f.name = name) ∧
      ∀ (i : Nat) (f : Feature), (feature_names ({} : FeatureConfig ℝ))[i]? = some f.name →
        s.values[i]? = some (f.shown realMath {} []).1 ∧ s.ready_mask.testBit i = (f.shown realMath {} []).2 :=
  @names_describe_values ℝ _ _ realMath {} 0 [] (by decide)

end ptl.features
