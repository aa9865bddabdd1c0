import TradingLab.Features.FeatureSet

namespace ptl.features

variable {K : Type*} [Field K] [LinearOrder K] (math : MathFunctions K)

/-! ### What the values have no room for -/

/-- The place of the first realised volatility. -/
def FeatureConfig.vol_index (c : FeatureConfig K) : Nat :=
  c.return_lags.length + c.reversal_lags.length + c.ma_windows.length

/-- The place of the relative volume. -/
def FeatureConfig.volume_index (c : FeatureConfig K) : Nat := c.vol_index + c.volatility_windows.length + 2

/-- The annualisation is the same, or enters no value that is kept. -/
def FeatureConfig.SameAnnualised (c₁ c₂ : FeatureConfig K) : Prop :=
  c₁.volatility_windows = [] ∨ 64 ≤ c₁.vol_index ∨
    max 1 c₁.annualization_periods = max 1 c₂.annualization_periods

/-- The slots are as many, or enter no value that is kept. -/
def FeatureConfig.SameSlots (c₁ c₂ : FeatureConfig K) : Prop :=
  64 ≤ c₁.volume_index ∨ max 1 c₁.volume_profile_slots = max 1 c₂.volume_profile_slots

def FeatureSet.vol_index (s : FeatureSet K) : Nat :=
  s.returns.length + s.reversals.length + s.ma_devs.length

open FeatureSet

/-! ### Two sets that show the same -/

/-- A set with the parts of another that the signatures do not fix. -/
def FeatureSet.with_unsigned (s t : FeatureSet K) : FeatureSet K :=
  { s with
    cfg := t.cfg, vols := t.vols, vol_bucket := t.vol_bucket, volume_profile := t.volume_profile, beta := t.beta }

/-- The two sets differ only where no value is kept or no feature is emitted. -/
structure FeatureSet.Alike (s t : FeatureSet K) : Prop where
  rest_eq : t = s.with_unsigned t
  fits : s.values.length ≤ 64
  include_seasonal : s.cfg.include_seasonal = t.cfg.include_seasonal
  include_market_relative : s.cfg.include_market_relative = t.cfg.include_market_relative
  vols_length : s.vols.length = t.vols.length
  vols_eq : s.vols = t.vols ∧ s.vol_bucket = t.vol_bucket ∨ 64 ≤ s.vol_index
  volume_profile_eq : s.volume_profile = t.volume_profile ∨ 64 ≤ s.vol_index + s.vols.length + 2
  beta_eq : s.cfg.include_market_relative = true → s.beta = t.beta

section Alike

variable {s t : FeatureSet K}

theorem take_append_of_le {A : Type*} {n m : Nat} {l l₁ l₂ : List A} (hn : n ≤ m) (hm : m ≤ l.length) :
    (l ++ l₁).take n = (l ++ l₂).take n := by
  rw [List.take_append_of_le_length (hn.trans hm), List.take_append_of_le_length (hn.trans hm)]

theorem FeatureSet.length_emitted_returns (s : FeatureSet K) :
    (s.emitted_returns math).length = s.vol_index := by
  rw [emitted_returns, vol_index]
  simp only [List.length_append, List.length_map]

theorem FeatureSet.Alike.emitted_returns_eq (halike : s.Alike t) :
    s.emitted_returns math = t.emitted_returns math := by
  rw [halike.rest_eq]
  rfl

theorem FeatureSet.Alike.emitted_context_eq (halike : s.Alike t) : s.emitted_context = t.emitted_context := by
  have hrest := halike.rest_eq
  rw [emitted_context, emitted_context, ← halike.include_seasonal,
    ← halike.include_market_relative]
  cases hrelative : s.cfg.include_market_relative with
  | true =>
    rw [← halike.beta_eq hrelative, hrest]
    rfl
  | false =>
    rw [hrest]
    rfl

/-- With the volatilities and the profile the same, so is all that is emitted. -/
theorem FeatureSet.Alike.emitted_market_eq (halike : s.Alike t) (hbucket : s.vol_bucket = t.vol_bucket)
    (hprofile : s.volume_profile = t.volume_profile) : s.emitted_market math = t.emitted_market math := by
  rw [emitted_market, emitted_market, ← halike.emitted_context_eq, ← hbucket, ← hprofile,
    halike.rest_eq]
  rfl

/-- As much as is kept of what the sets emit is the same. -/
theorem FeatureSet.Alike.take_emitted_eq (halike : s.Alike t) {n : Nat} (hn : n ≤ 64) :
    (s.emitted math).take n = (t.emitted math).take n := by
  have hranges : [(s.return_z.value math, s.return_z.ready), (s.atr.value, s.atr.ready)] =
      [(t.return_z.value math, t.return_z.ready), (t.atr.value, t.atr.ready)] := by
    rw [halike.rest_eq]
    rfl
  rw [emitted, emitted, ← halike.emitted_returns_eq math, ← hranges]
  rcases halike.vols_eq with ⟨hvols, hbucket⟩ | hbeyond
  · rw [← hvols]
    rcases halike.volume_profile_eq with hprofile | hbeyond
    · rw [halike.emitted_market_eq math hbucket hprofile]
    · -- The relative volume comes after all that is kept.
      refine take_append_of_le hn (hbeyond.trans_eq ?_)
      simp only [List.length_append, List.length_map, length_emitted_returns, List.length_cons,
        List.length_nil]
  · simp only [List.append_assoc]
    exact take_append_of_le hn (hbeyond.trans_eq (s.length_emitted_returns math).symm)

/-- Showing what was emitted keeps the sets alike. -/
theorem FeatureSet.Alike.refresh (halike : s.Alike t) : (s.refresh math).Alike (t.refresh math) := by
  have hshown := halike.take_emitted_eq math halike.fits
  have hvalues : t.values = s.values := by
    rw [halike.rest_eq]
    rfl
  have hlength : (s.refresh math).values.length = s.values.length := by
    simp only [FeatureSet.refresh, List.length_append, List.length_map, List.length_drop, List.length_take]
    omega
  have hrefresh : t.refresh math =
      { t with values := (s.refresh math).values, ready_mask := (s.refresh math).ready_mask } := by
    simp only [FeatureSet.refresh, hvalues, hshown]
  refine { halike with rest_eq := ?_, fits := hlength.trans_le halike.fits }
  rw [hrefresh]
  exact congrArg (fun u : FeatureSet K =>
    { u with values := (s.refresh math).values, ready_mask := (s.refresh math).ready_mask }) halike.rest_eq

/-! ### One call on each -/

theorem FeatureSet.Alike.observe_return (halike : s.Alike t) (close : K) :
    (s.observe_return math close).Alike (t.observe_return math close) := by
  have hclose : t.last_close = s.last_close := by
    rw [halike.rest_eq]
    rfl
  unfold FeatureSet.observe_return
  rw [hclose]
  split
  · exact { halike with
      rest_eq := congrArg (fun u : FeatureSet K =>
        { u with
          last_close := s.last_close
          last_log_return := math.log (close / s.last_close)
          has_return := true }) halike.rest_eq }
  · exact halike

theorem FeatureSet.Alike.update_prices (halike : s.Alike t) (close : K) :
    (s.update_prices close).Alike (t.update_prices close) := by
  have hindex : (s.update_prices close).vol_index = s.vol_index := by
    simp only [FeatureSet.update_prices, FeatureSet.vol_index, List.length_map]
  exact { halike with
    rest_eq := congrArg (FeatureSet.update_prices · close) halike.rest_eq
    vols_eq := hindex ▸ halike.vols_eq
    volume_profile_eq := hindex ▸ halike.volume_profile_eq }

theorem FeatureSet.Alike.update_returns (halike : s.Alike t) (dollar_volume : K) :
    (s.update_returns dollar_volume).Alike (t.update_returns dollar_volume) := by
  have hreturn : t.has_return = s.has_return ∧ t.last_log_return = s.last_log_return := by
    rw [halike.rest_eq]
    exact ⟨rfl, rfl⟩
  unfold FeatureSet.update_returns
  rw [hreturn.1, hreturn.2]
  split
  · have hlength : (s.vols.map fun f : RealizedVolatility K => f.update s.last_log_return).length =
        (t.vols.map fun f : RealizedVolatility K => f.update s.last_log_return).length := by
      rw [List.length_map, List.length_map, halike.vols_length]
    exact { halike with
      rest_eq := congrArg (fun u : FeatureSet K =>
        { u with
          vols := t.vols.map fun f : RealizedVolatility K => f.update s.last_log_return
          return_z := u.return_z.update s.last_log_return
          illiquidity := u.illiquidity.update |s.last_log_return| dollar_volume
          last_log_return := s.last_log_return
          has_return := s.has_return }) halike.rest_eq
      vols_length := hlength
      vols_eq := halike.vols_eq.imp_left fun hsame => ⟨by rw [hsame.1], hsame.2⟩
      volume_profile_eq := by
        rw [List.length_map]
        exact halike.volume_profile_eq }
  · exact halike

theorem FeatureSet.Alike.update_ranges (halike : s.Alike t) (high low close volume : K) :
    (s.update_ranges math high low close volume).Alike (t.update_ranges math high low close volume) :=
  { halike with
    rest_eq := congrArg (fun u : FeatureSet K =>
      { u with
        vol_bucket := (t.update_ranges math high low close volume).vol_bucket
        atr := u.atr.update high low close
        rolling_vwap := u.rolling_vwap.update close volume
        rolling_twap := u.rolling_twap.update close
        session_vwap := u.session_vwap.update close volume }) halike.rest_eq
    vols_eq := halike.vols_eq.imp_left fun hsame => ⟨hsame.1, by
      simp only [FeatureSet.update_ranges]
      rw [hsame.1, hsame.2]⟩ }

theorem FeatureSet.Alike.update_session (halike : s.Alike t) (ts : Timestamp) (volume : K)
    (session : Option market.Session) :
    (s.update_session math ts volume session).Alike (t.update_session math ts volume session) := by
  unfold FeatureSet.update_session
  cases session with
  | none => exact halike
  | some session =>
    dsimp only
    split
    · rw [← halike.include_seasonal]
      exact { halike with
        rest_eq := congrArg (fun u : FeatureSet K =>
          { u with
            last_minute := minute_of_session ts session
            last_volume := volume
            volume_profile := t.volume_profile.update (minute_of_session ts session) volume
            seasonal := if s.cfg.include_seasonal then u.seasonal.update math (progress_of ts session)
              else u.seasonal }) halike.rest_eq
        volume_profile_eq := halike.volume_profile_eq.imp_left fun hsame => by rw [hsame] }
    · exact halike

theorem FeatureSet.Alike.fold_bar (halike : s.Alike t) (bar : market.Bar) (session : Option market.Session) :
    (s.fold_bar math bar session).Alike (t.fold_bar math bar session) := by
  let close : K := (bar.close : Rat)
  let volume : K := (bar.volume : Rat)
  have hprices := (halike.observe_return math close).update_prices close
  have hranges := (hprices.update_returns (close * volume)).update_ranges math (bar.high : Rat)
    (bar.low : Rat) close volume
  have hsession := hranges.update_session math bar.close_time volume session
  exact { hsession with
    rest_eq := congrArg (fun u : FeatureSet K =>
      { u with last_close := close, feature_end_time := bar.close_time }) hsession.rest_eq }

/-- After any one call the sets are alike again. -/
theorem FeatureSet.Alike.step (halike : s.Alike t) (call : FeatureCall K) :
    (s.step math call).Alike (t.step math call) := by
  cases call with
  | on_bar bar session =>
    unfold FeatureSet.step FeatureSet.on_bar
    dsimp only
    split
    · exact halike
    · exact FeatureSet.Alike.refresh math (halike.fold_bar math bar session)
  | on_quote quote =>
    have htime : t.feature_end_time = s.feature_end_time := by
      rw [halike.rest_eq]
      rfl
    unfold FeatureSet.step FeatureSet.on_quote
    dsimp only
    rw [htime]
    refine FeatureSet.Alike.refresh math { halike with rest_eq := ?_ }
    exact congrArg (fun u : FeatureSet K =>
      { u with
        spread := u.spread.update (quote.bid : Rat) (quote.ask : Rat)
        feature_end_time := if ¬ is_set s.feature_end_time ∨ s.feature_end_time < quote.time.exchange_time then
          quote.time.exchange_time else s.feature_end_time }) halike.rest_eq
  | on_market_context r =>
    have hreturn : t.has_return = s.has_return ∧ t.last_log_return = s.last_log_return := by
      rw [halike.rest_eq]
      exact ⟨rfl, rfl⟩
    unfold FeatureSet.step FeatureSet.on_market_context
    rw [hreturn.1, hreturn.2]
    refine FeatureSet.Alike.refresh math { halike with rest_eq := ?_, beta_eq := ?_ }
    · exact congrArg (fun u : FeatureSet K =>
        { u with
          pending_market_return := r
          last_log_return := s.last_log_return
          has_return := s.has_return
          beta := if s.has_return then t.beta.update r s.last_log_return else t.beta }) halike.rest_eq
    · intro hrelative
      dsimp only
      rw [halike.beta_eq hrelative]
  | on_session_open =>
    exact { halike with
      rest_eq := congrArg on_session_open halike.rest_eq }

/-- After any calls the sets show the same values and the same mask. -/
theorem FeatureSet.Alike.run (halike : s.Alike t) (calls : List (FeatureCall K)) :
    (s.run math calls).Alike (t.run math calls) := by
  induction calls generalizing s t with
  | nil => exact halike
  | cons call calls ih => exact ih (halike.step math call)

end Alike

/-! ### Two configurations -/

section Configurations

variable {c₁ c₂ : FeatureConfig K} (instrument : InstrumentId)

/-- The sets of two configurations with the same signatures start alike, unless
a value that is kept is of another annualisation or of other slots. -/
theorem FeatureSet.new_alike (hsame : c₁.SameDeclared c₂) (hannualised : c₁.SameAnnualised c₂)
    (hslots : c₁.SameSlots c₂) :
    (FeatureSet.new math c₁ instrument).Alike (FeatureSet.new math c₂ instrument) := by
  have hregime : c₁.regime_window = c₂.regime_window := by
    rw [FeatureConfig.regime_window, FeatureConfig.regime_window, hsame.volatility_windows]
  have hvwap : c₁.vwap_window = c₂.vwap_window := by
    rw [FeatureConfig.vwap_window, FeatureConfig.vwap_window, hsame.ma_windows]
  have hindex : (FeatureSet.new math c₁ instrument).vol_index = c₁.vol_index := by
    simp only [FeatureSet.new, vol_index, FeatureConfig.vol_index, List.length_map]
  have hlength : (FeatureSet.new math c₁ instrument).vols.length = c₁.volatility_windows.length :=
    List.length_map _
  have hbucket : (FeatureSet.new math c₁ instrument).vol_bucket = (FeatureSet.new math c₂ instrument).vol_bucket :=
    congrArg VolatilityBucket.new hregime
  exact {
    rest_eq := by
      simp only [FeatureSet.new, with_unsigned, feature_names, feature_signatures,
        hsame.build_names_eq, hsame.return_lags, hsame.reversal_lags, hsame.ma_windows, hsame.zscore_window,
        hsame.atr_period, hsame.spread_window, hsame.illiquidity_window, hvwap]
    fits := by
      simp only [FeatureSet.new, List.length_replicate]
      exact Nat.min_le_right _ _
    include_seasonal := hsame.include_seasonal
    include_market_relative := hsame.include_market_relative
    vols_length := by rw [hlength, hsame.volatility_windows]; exact (List.length_map _).symm
    vols_eq := by
      rcases hannualised with hnone | hbeyond | hsame_scale
      · refine .inl ⟨?_, hbucket⟩
        simp only [FeatureSet.new, ← hsame.volatility_windows, hnone, List.map_nil]
      · exact .inr (hbeyond.trans_eq hindex.symm)
      · refine .inl ⟨?_, hbucket⟩
        simp only [FeatureSet.new, ← hsame.volatility_windows, RealizedVolatility.new, hsame_scale]
    volume_profile_eq := by
      rcases hslots with hbeyond | hsame_slots
      · rw [hindex, hlength]
        exact .inr hbeyond
      · refine .inl ?_
        simp only [FeatureSet.new, MinuteOfDayVolumeProfile.new, hsame_slots, hsame.volume_profile_lookback]
    beta_eq := fun hrelative => congrArg RollingBeta.new (hsame.beta_window hrelative) }

/-- What the values and the mask are after any calls. -/
theorem FeatureSet.run_eq_of_same (hsame : c₁.SameDeclared c₂) (hannualised : c₁.SameAnnualised c₂)
    (hslots : c₁.SameSlots c₂) (calls : List (FeatureCall K)) :
    ((FeatureSet.new math c₁ instrument).run math calls).values =
        ((FeatureSet.new math c₂ instrument).run math calls).values ∧
      ((FeatureSet.new math c₁ instrument).run math calls).ready_mask =
        ((FeatureSet.new math c₂ instrument).run math calls).ready_mask := by
  have halike := (new_alike math instrument hsame hannualised hslots).run math calls
  rw [halike.rest_eq]
  exact ⟨rfl, rfl⟩

end Configurations

end ptl.features
