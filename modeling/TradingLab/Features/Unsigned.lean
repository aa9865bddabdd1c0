import Mathlib.Analysis.SpecialFunctions.Log.Basic
import Mathlib.Analysis.SpecialFunctions.Trigonometric.Basic
import TradingLab.Features.Visible

open Series

namespace ptl.features

open MinuteOfDayVolumeProfile

/-! ### One place of what is emitted -/

section Places

variable {K : Type*} [Field K] [LinearOrder K] (math : MathFunctions K) {s : FeatureSet K}

omit [Field K] [LinearOrder K] in
theorem testBit_mask_fold (es : List (K × Bool)) (k mask i : Nat) :
    ((es.zipIdx k).foldl (fun mask e => if e.1.2 then mask ||| 1 <<< e.2 else mask) mask).testBit i =
      (mask.testBit i || decide (k ≤ i) && (es[i - k]?).any Prod.snd) := by
  induction es generalizing k mask with
  | nil => simp
  | cons e es ih =>
    have hadded : (if e.2 then mask ||| 1 <<< k else mask).testBit i =
        (mask.testBit i || decide (k = i) && e.2) := by
      cases he : e.2 <;> simp [Nat.testBit_or, Nat.shiftLeft_eq, Nat.testBit_two_pow]
    rw [List.zipIdx_cons, List.foldl_cons, ih, hadded, Bool.or_assoc]
    congr 1
    rcases lt_trichotomy i k with hlt | rfl | hlt
    · have hbefore : ¬ k ≤ i := not_le.mpr hlt
      have hnext : ¬ k + 1 ≤ i := by omega
      simp [hbefore, hnext, Nat.ne_of_gt hlt]
    · simp
    · obtain ⟨d, rfl⟩ := Nat.exists_eq_add_of_lt hlt
      have hshift : k + d + 1 - k = d + 1 := by omega
      have hnext : k + d + 1 - (k + 1) = d := by omega
      have hne : ¬ k = k + d + 1 := by omega
      rw [hshift, hnext, List.getElem?_cons_succ]
      simp [hne]
      omega

omit [Field K] [LinearOrder K] in
theorem testBit_mask_of (es : List (K × Bool)) (i : Nat) :
    (mask_of es).testBit i = (es[i]?).any Prod.snd := by
  have hfold := testBit_mask_fold es 0 0 i
  simpa [mask_of] using hfold

/-- What a set shows at a place it keeps. -/
theorem FeatureSet.refresh_at {i : Nat} {e : K × Bool} (hkept : i < s.values.length)
    (hemitted : (s.emitted math)[i]? = some e) :
    (s.refresh math).values[i]? = some e.1 ∧ (s.refresh math).ready_mask.testBit i = e.2 := by
  have htaken : ((s.emitted math).take s.values.length)[i]? = some e := by
    rw [List.getElem?_take_of_lt hkept, hemitted]
  constructor
  · simp only [refresh]
    rw [List.getElem?_append_left, List.getElem?_map, htaken]
    · rfl
    · rw [List.length_map]
      exact (List.getElem?_eq_some_iff.mp htaken).1
  · simp only [refresh]
    rw [testBit_mask_of, htaken]
    rfl

/-- The realised volatilities follow the returns. -/
theorem FeatureSet.emitted_vol (s : FeatureSet K) {v : RealizedVolatility K} (hfirst : s.vols.head? = some v) :
    (s.emitted math)[s.vol_index]? = some (v.value math, v.ready) := by
  obtain ⟨vs, hvols⟩ := List.head?_eq_some_iff.mp hfirst
  rw [emitted, hvols, List.append_assoc, List.append_assoc, ← s.length_emitted_returns math,
    List.getElem?_append_right (le_refl _), Nat.sub_self]
  rfl

/-- The relative volume comes third after them. -/
theorem FeatureSet.emitted_volume (s : FeatureSet K) :
    (s.emitted math)[s.vol_index + s.vols.length + 2]? =
      some (s.volume_profile.relative_volume s.last_minute s.last_volume,
        s.volume_profile.ready s.last_minute) := by
  have hlength : (s.emitted_returns math ++ s.vols.map (fun f => (f.value math, f.ready)) ++
      [(s.return_z.value math, s.return_z.ready), (s.atr.value, s.atr.ready)]).length =
        s.vol_index + s.vols.length + 2 := by
    simp only [List.length_append, List.length_map, length_emitted_returns, List.length_cons,
      List.length_nil]
  rw [emitted, ← hlength, List.getElem?_append_right (le_refl _), Nat.sub_self]
  rfl

end Places

/-! ### What a bar leaves as it was -/

section Bars

variable {K : Type*} [Field K] [LinearOrder K] (math : MathFunctions K) {s : FeatureSet K} {bar : market.Bar}

/-- The profile of a set, and how many values and estimators it has. -/
def FeatureSet.frame (s : FeatureSet K) : MinuteOfDayVolumeProfile K × Nat × Nat × Nat :=
  (s.volume_profile, s.values.length, s.vol_index, s.vols.length)

open FeatureSet

theorem FeatureSet.observe_return_frame (s : FeatureSet K) (close : K) :
    (s.observe_return math close).frame = s.frame := by
  unfold observe_return
  split <;> rfl

omit [LinearOrder K] in
theorem FeatureSet.update_prices_frame [LinearOrder K] (s : FeatureSet K) (close : K) :
    (s.update_prices close).frame = s.frame := by
  simp only [frame, update_prices, vol_index, List.length_map]

theorem FeatureSet.update_returns_frame (s : FeatureSet K) (dollar_volume : K) :
    (s.update_returns dollar_volume).frame = s.frame := by
  unfold update_returns
  split
  · simp only [frame, vol_index, List.length_map]
  · rfl

/-- Outside a session a bar leaves the profile, and no bar changes the places. -/
theorem FeatureSet.fold_bar_frame (s : FeatureSet K) (bar : market.Bar) :
    (s.fold_bar math bar none).frame = s.frame := by
  have hreturns := ((s.observe_return math ((bar.close : Rat) : K)).update_prices
    ((bar.close : Rat) : K)).update_returns_frame (((bar.close : Rat) : K) * (bar.volume : Rat))
  rw [update_prices_frame, observe_return_frame] at hreturns
  exact hreturns

variable (bar) in
/-- In a session only the minute's slot is changed. -/
theorem FeatureSet.fold_bar_open (s : FeatureSet K) {session : market.Session} (hopen : session.is_open = true) :
    (s.fold_bar math bar (some session)).frame =
        (s.volume_profile.update (minute_of_session bar.close_time session) (bar.volume : Rat), s.values.length,
          s.vol_index, s.vols.length) ∧
      (s.fold_bar math bar (some session)).last_minute = minute_of_session bar.close_time session := by
  have hframe := s.fold_bar_frame math bar
  simp only [frame, Prod.mk.injEq] at hframe
  obtain ⟨hprofile, hvalues, hindex, hvols⟩ := hframe
  unfold fold_bar update_session
  dsimp only
  rw [if_pos hopen]
  refine ⟨?_, rfl⟩
  simp only [frame, Prod.mk.injEq]
  exact ⟨congrArg (update · _ _) hprofile, hvalues, hindex, hvols⟩

theorem FeatureSet.refresh_frame (s : FeatureSet K) : (s.refresh math).frame = s.frame := by
  have hlength : (s.refresh math).values.length = s.values.length := by
    simp only [refresh, List.length_append, List.length_map, List.length_drop, List.length_take]
    omega
  simp only [frame, hlength]
  rfl

/-- The first bar has no return. -/
theorem FeatureSet.fold_bar_first (hlast : s.last_close = 0) (hnone : s.has_return = false) :
    (s.fold_bar math bar none).vols = s.vols := by
  have hobserve : s.observe_return math ((bar.close : Rat) : K) = s :=
    if_neg (by rw [hlast]; exact lt_irrefl 0)
  have hreturns : (s.update_prices ((bar.close : Rat) : K)).update_returns
      (((bar.close : Rat) : K) * (bar.volume : Rat)) = s.update_prices ((bar.close : Rat) : K) :=
    if_neg (Bool.eq_false_iff.mp hnone)
  unfold fold_bar
  dsimp only
  rw [hobserve, hreturns]
  rfl

variable (bar) in
theorem FeatureSet.fold_bar_vols (hlast : 0 < s.last_close) :
    (s.fold_bar math bar none).vols =
      s.vols.map fun f => f.update (math.log (((bar.close : Rat) : K) / s.last_close)) := by
  unfold fold_bar observe_return
  dsimp only
  rw [if_pos hlast]
  rfl

end Bars

/-! ### The slots of the profile -/

section Slots

variable {K : Type*} [Field K] [LinearOrder K] {minute : Int}

theorem MinuteOfDayVolumeProfile.slot_update {p : MinuteOfDayVolumeProfile K} {volume : K} (hminute : 0 ≤ minute)
    (hvolume : 0 ≤ volume) :
    (p.update minute volume).slot minute = (p.slot minute).map fun m => m.update volume := by
  have hguard : ¬ (minute < 0 ∨ volume < 0) := not_or.mpr ⟨not_lt.mpr hminute, not_lt.mpr hvolume⟩
  rw [update, if_neg hguard, slot,
    slot, if_neg (not_lt.mpr hminute), if_neg (not_lt.mpr hminute),
    List.getElem?_modify_eq]
  rfl

theorem MinuteOfDayVolumeProfile.slot_foldl (hminute : 0 ≤ minute) (volumes : List K)
    (hvolumes : ∀ v ∈ volumes, 0 ≤ v) (p : MinuteOfDayVolumeProfile K) :
    (volumes.foldl (fun p v => p.update minute v) p).slot minute =
      (p.slot minute).map fun m => volumes.foldl RollingMean.update m := by
  induction volumes generalizing p with
  | nil => simp
  | cons v volumes ih =>
    rw [List.foldl_cons, ih (fun w hw => hvolumes w (List.mem_cons_of_mem _ hw)),
      slot_update hminute (hvolumes v List.mem_cons_self), Option.map_map]
    rfl

/-- A minute is ready after as many bars as the lookback, if it has a slot. -/
theorem MinuteOfDayVolumeProfile.ready_foldl (slots lookback minute : Nat) (volumes : List K)
    (hvolumes : ∀ v ∈ volumes, 0 ≤ v) :
    (volumes.foldl (fun p v => p.update minute v) (MinuteOfDayVolumeProfile.new slots lookback)).ready minute =
        true ↔ minute < max 1 slots ∧ max 1 lookback ≤ volumes.length := by
  have hslot := slot_foldl (Int.natCast_nonneg minute) volumes hvolumes
    (MinuteOfDayVolumeProfile.new slots lookback)
  have hnew : (MinuteOfDayVolumeProfile.new slots lookback : MinuteOfDayVolumeProfile K).slot minute =
      if minute < max 1 slots then some (RollingMean.new (max 1 lookback)) else none := by
    rw [slot, if_neg (not_lt.mpr (Int.natCast_nonneg minute)), Int.toNat_natCast]
    exact List.getElem?_replicate
  rw [ready, hslot, hnew]
  split
  · rename_i hhas
    simp only [Option.map_some, Option.elim_some, RollingMean.ready_stream, hhas, true_and]
    omega
  · rename_i hhasnot
    simp [hhasnot]

end Slots

/-! ### Telling configurations apart -/

/-- A bar without a range or a volume. -/
def barAt (ts : Timestamp) (price : Price) (hpos : 0 < price) : market.Bar where
  instrument := 0
  open_time := ts - 1
  close_time := ts
  time := { exchange_time := ts, receive_time := ts }
  open_ := price
  high := price
  low := price
  close := price
  volume := 0
  instrument_valid := by decide
  opens_first := sub_one_lt ts
  exchange_time_eq := rfl
  causal := le_refl ts
  low_pos := hpos
  open_in_range := ⟨le_refl price, le_refl price⟩
  close_in_range := ⟨le_refl price, le_refl price⟩
  volume_nonneg := le_refl 0

section Apart

variable {K : Type*} [Field K] [LinearOrder K] (math : MathFunctions K) (c : FeatureConfig K)
  (instrument : InstrumentId)

omit [LinearOrder K] in
theorem FeatureConfig.volume_index_lt : c.volume_index < (feature_names c).length := by
  simp only [feature_names, build_names, FeatureConfig.volume_index, FeatureConfig.vol_index, List.length_append,
    List.length_map, List.length_cons, List.length_nil]
  omega

theorem FeatureSet.new_frame : (FeatureSet.new math c instrument).frame =
    (MinuteOfDayVolumeProfile.new c.volume_profile_slots c.volume_profile_lookback,
      min (feature_names c).length 64, c.vol_index, c.volatility_windows.length) := by
  simp only [frame, FeatureSet.new, vol_index, FeatureConfig.vol_index, List.length_map,
    List.length_replicate]

variable [IsStrictOrderedRing K]

theorem FeatureSet.on_bar_eq (s : FeatureSet K) (bar : market.Bar) (session : Option market.Session) :
    s.on_bar math bar session = (s.fold_bar math bar session).refresh math := by
  have hpos : 0 < ((bar.close : Rat) : K) := Rat.cast_pos.mpr (bar.low_pos.trans_le bar.close_in_range.1)
  exact if_neg (not_not.mpr hpos)

theorem RealizedVolatility.value_update_new (window : Nat) (annualization_periods r : K) :
    ((RealizedVolatility.new math window annualization_periods).update r).value math =
      math.sqrt (r * r) * math.sqrt (max 1 annualization_periods) := by
  have hmean := RealizedVolatility.mean_sq_stream math window annualization_periods [r]
  have hpos := max_one_pos window
  rw [List.foldl_cons, List.foldl_nil] at hmean
  have hrecent : recent (max 1 window) [r] = [r] := by
    rw [recent, List.reverse_singleton]
    exact List.take_of_length_le hpos
  have hsize : ((RealizedVolatility.new math window annualization_periods).update r).sq.size = 1 := rfl
  rw [RealizedVolatility.value, if_neg (by rw [hsize]; exact one_ne_zero), hmean, hrecent, List.map_singleton, mean,
    List.sum_singleton, List.length_singleton, Nat.cast_one, div_one]
  rfl

def twoBars : List (FeatureCall K) :=
  [.on_bar (barAt 1 1 (by decide +kernel)) none, .on_bar (barAt 2 2 (by decide +kernel)) none]

/-- The second of two bars, from a price of one to a price of two, shows the
annualisation. -/
theorem FeatureSet.second_bar_vol {w : Nat} {ws : List Nat} (hwindows : c.volatility_windows = w :: ws)
    (hkept : c.vol_index < 64) :
    ((FeatureSet.new math c instrument).run math twoBars).values[c.vol_index]? =
      some (math.sqrt (math.log 2 * math.log 2) * math.sqrt (max 1 c.annualization_periods)) := by
  let before := (FeatureSet.new math c instrument).fold_bar math (barAt 1 1 (by decide +kernel)) none
  let after := (before.refresh math).fold_bar math (barAt 2 2 (by decide +kernel)) none
  have hrun : (FeatureSet.new math c instrument).run math twoBars = after.refresh math := by
    rw [run, twoBars, List.foldl_cons, List.foldl_cons, List.foldl_nil, step, step,
      on_bar_eq, on_bar_eq]
  have hframe : after.frame = (FeatureSet.new math c instrument).frame := by
    rw [fold_bar_frame, refresh_frame, fold_bar_frame]
  rw [new_frame] at hframe
  simp only [frame, Prod.mk.injEq] at hframe
  obtain ⟨-, hvalues, hindex, -⟩ := hframe
  have hbefore : before.vols = (FeatureSet.new math c instrument).vols := fold_bar_first math rfl rfl
  have hlast : (before.refresh math).last_close = 1 := Rat.cast_one
  have hvols : after.vols = before.vols.map fun f => f.update (math.log 2) := by
    have hpos : 0 < (before.refresh math).last_close := by
      rw [hlast]
      exact zero_lt_one
    have hfold := fold_bar_vols math (barAt 2 2 (by decide +kernel)) hpos
    have hclose : (((barAt 2 2 (by decide +kernel)).close : Rat) : K) = 2 := Rat.cast_ofNat 2
    rw [hlast, div_one, hclose] at hfold
    exact hfold
  have hfirst : after.vols.head? =
      some ((RealizedVolatility.new math w c.annualization_periods).update (math.log 2)) := by
    rw [hvols, hbefore]
    simp only [FeatureSet.new, hwindows, List.map_cons, List.head?_cons]
  have hemitted := after.emitted_vol math hfirst
  rw [hindex, RealizedVolatility.value_update_new] at hemitted
  rw [hrun]
  refine (refresh_at math ?_ hemitted).1
  have hnamed := c.volume_index_lt
  have hbelow : c.vol_index ≤ c.volume_index := by
    unfold FeatureConfig.volume_index
    omega
  rw [hvalues]
  omega

/-- A session from the start of time. -/
def longSession : market.Session := { open_ := 0, kind := .Regular }

/-- A bar at one minute of the session. -/
def minuteBar (minute : Nat) : market.Bar := barAt (minute * 60000000000) 1 (by decide +kernel)

theorem minute_of_minuteBar (minute : Nat) :
    minute_of_session (minuteBar minute).close_time longSession = minute := by
  have hafter : ¬ (¬ longSession.is_open ∨ (minuteBar minute).close_time < longSession.open_) := by
    rintro (hclosed | hbefore)
    · exact hclosed rfl
    · have htime : (minute : Int) * 60000000000 < 0 := hbefore
      omega
  rw [minute_of_session, if_neg hafter]
  have htime : (minuteBar minute).close_time - longSession.open_ = (minute : Int) * 60000000000 := sub_zero _
  rw [htime]
  omega

/-- Bars at one minute, one after the other. -/
theorem FeatureSet.run_minuteBars (s : FeatureSet K) (minute n : Nat) :
    (s.run math (List.replicate n (.on_bar (minuteBar minute) (some longSession)))).frame =
      ((List.replicate n 0).foldl (fun p v => p.update minute v) s.volume_profile, s.values.length, s.vol_index,
        s.vols.length) := by
  induction n generalizing s with
  | zero => rfl
  | succ n ih =>
    have hopen : longSession.is_open = true := rfl
    have hstep := (s.fold_bar_open math (minuteBar minute) hopen).1
    have hvolume : (((minuteBar minute).volume : Rat) : K) = 0 := Rat.cast_zero
    rw [minute_of_minuteBar, hvolume, ← refresh_frame math, ← on_bar_eq] at hstep
    simp only [frame, Prod.mk.injEq] at hstep
    obtain ⟨hprofile, hvalues, hindex, hvols⟩ := hstep
    have hrest := ih (s.on_bar math (minuteBar minute) (some longSession))
    rw [hprofile, hvalues, hindex, hvols] at hrest
    exact hrest

/-- After as many bars as the lookback, the mask tells whether their minute has
a slot. -/
theorem FeatureSet.minuteBars_bit (minute : Nat) (hkept : c.volume_index < 64) :
    ((FeatureSet.new math c instrument).run math (List.replicate (max 1 c.volume_profile_lookback)
        (.on_bar (minuteBar minute) (some longSession)))).ready_mask.testBit c.volume_index =
      decide (minute < max 1 c.volume_profile_slots) := by
  obtain ⟨n, hn⟩ := Nat.exists_eq_add_of_le' (max_one_pos c.volume_profile_lookback)
  let before := (FeatureSet.new math c instrument).run math
    (List.replicate n (.on_bar (minuteBar minute) (some longSession)))
  let after := before.fold_bar math (minuteBar minute) (some longSession)
  have hrun : (FeatureSet.new math c instrument).run math (List.replicate (n + 1)
      (.on_bar (minuteBar minute) (some longSession))) = after.refresh math := by
    rw [List.replicate_succ', run, List.foldl_append, List.foldl_cons, List.foldl_nil, step,
      on_bar_eq]
    rfl
  have hbefore := (FeatureSet.new math c instrument).run_minuteBars math minute n
  have hnew := new_frame math c instrument
  have hopen : longSession.is_open = true := rfl
  obtain ⟨hafter, hminute⟩ := before.fold_bar_open math (minuteBar minute) hopen
  have hvolume : (((minuteBar minute).volume : Rat) : K) = 0 := Rat.cast_zero
  rw [minute_of_minuteBar] at hminute
  rw [minute_of_minuteBar, hvolume] at hafter
  simp only [frame, Prod.mk.injEq] at hbefore hnew hafter
  obtain ⟨hprofile, hvalues, hindex, hvols⟩ := hafter
  have hall : after.volume_profile = (List.replicate (n + 1) 0).foldl (fun p v => p.update minute v)
      (MinuteOfDayVolumeProfile.new c.volume_profile_slots c.volume_profile_lookback) := by
    rw [List.replicate_succ', List.foldl_append, ← hnew.1, ← hbefore.1]
    exact hprofile
  have hready := MinuteOfDayVolumeProfile.ready_foldl c.volume_profile_slots c.volume_profile_lookback minute
    (List.replicate (n + 1) (0 : K)) fun v hv => (List.eq_of_mem_replicate hv).ge
  have hplace : c.vol_index + c.volatility_windows.length + 2 = c.volume_index := rfl
  have hemitted := after.emitted_volume math
  rw [hindex, hvols, hbefore.2.2.1, hbefore.2.2.2, hnew.2.2.1, hnew.2.2.2, hplace, hminute, hall] at hemitted
  rw [hn, hrun]
  rw [(refresh_at math ?_ hemitted).2]
  · rw [Bool.eq_iff_iff, hready, decide_eq_true_eq, List.length_replicate, ← hn]
    exact ⟨fun h => h.1, fun h => ⟨h, le_refl _⟩⟩
  · have hnamed := c.volume_index_lt
    rw [hvalues, hbefore.2.1, hnew.2.1]
    omega

end Apart

/-! ### What the signatures leave out -/

section Unsigned

noncomputable def realMath : MathFunctions ℝ where
  log := Real.log
  sqrt := Real.sqrt
  sin := Real.sin
  cos := Real.cos
  pi := Real.pi

/-- After any calls the sets of the two configurations have the same values and
the same mask. -/
def FeatureConfig.SameRows (c₁ c₂ : FeatureConfig ℝ) (instrument : InstrumentId) : Prop :=
  ∀ calls : List (FeatureCall ℝ),
    ((FeatureSet.new realMath c₁ instrument).run realMath calls).values =
        ((FeatureSet.new realMath c₂ instrument).run realMath calls).values ∧
      ((FeatureSet.new realMath c₁ instrument).run realMath calls).ready_mask =
        ((FeatureSet.new realMath c₂ instrument).run realMath calls).ready_mask

variable {c₁ c₂ : FeatureConfig ℝ} {instrument : InstrumentId}

theorem FeatureConfig.SameDeclared.index_eq (hsame : c₁.SameDeclared c₂) :
    c₁.vol_index = c₂.vol_index ∧ c₁.volume_index = c₂.volume_index := by
  unfold FeatureConfig.volume_index FeatureConfig.vol_index
  rw [hsame.return_lags, hsame.reversal_lags, hsame.ma_windows, hsame.volatility_windows]
  exact ⟨rfl, rfl⟩

theorem sameAnnualised_of_rows (hsame : c₁.SameDeclared c₂) (hrows : c₁.SameRows c₂ instrument) :
    c₁.SameAnnualised c₂ := by
  by_contra hnot
  rw [FeatureConfig.SameAnnualised, not_or, not_or, not_le] at hnot
  obtain ⟨hsome, hkept, hdiffer⟩ := hnot
  obtain ⟨w, ws, hwindows⟩ := List.exists_cons_of_ne_nil hsome
  have hfirst := FeatureSet.second_bar_vol realMath c₁ instrument hwindows hkept
  have hsecond := FeatureSet.second_bar_vol realMath c₂ instrument (hsame.volatility_windows ▸ hwindows)
    (hsame.index_eq.1 ▸ hkept)
  rw [(hrows twoBars).1, hsame.index_eq.1, hsecond, Option.some_inj] at hfirst
  have hmoved : Real.sqrt (Real.log 2 * Real.log 2) ≠ 0 := by
    rw [Real.sqrt_mul_self (Real.log_nonneg one_le_two)]
    exact (Real.log_pos one_lt_two).ne'
  have hroots : Real.sqrt (max 1 c₂.annualization_periods) = Real.sqrt (max 1 c₁.annualization_periods) :=
    mul_left_cancel₀ hmoved hfirst
  have hpos (a : ℝ) : 0 ≤ max 1 a := zero_le_one.trans (le_max_left 1 a)
  exact hdiffer ((Real.sqrt_inj (hpos _) (hpos _)).mp hroots).symm

theorem sameSlots_of_rows (hsame : c₁.SameDeclared c₂) (hrows : c₁.SameRows c₂ instrument) :
    c₁.SameSlots c₂ := by
  rcases Nat.lt_or_ge c₁.volume_index 64 with hkept | hbeyond
  · have hslots (minute : Nat) :
        minute < max 1 c₁.volume_profile_slots ↔ minute < max 1 c₂.volume_profile_slots := by
      have hfirst := FeatureSet.minuteBars_bit realMath c₁ instrument minute hkept
      have hsecond := FeatureSet.minuteBars_bit realMath c₂ instrument minute (hsame.index_eq.2 ▸ hkept)
      rw [(hrows _).2, hsame.index_eq.2, hsame.volume_profile_lookback, hsecond] at hfirst
      exact (decide_eq_decide.mp hfirst).symm
    refine .inr (le_antisymm ?_ ?_)
    · exact not_lt.mp fun hlt => lt_irrefl _ ((hslots _).mp hlt)
    · exact not_lt.mp fun hlt => lt_irrefl _ ((hslots _).mpr hlt)
  · exact .inl hbeyond

/-- Two configurations with the same signatures have the same rows exactly when
neither their annualisation nor their slots enter a value that is kept
differently. -/
theorem sameRows_iff (hsame : feature_signatures c₁ = feature_signatures c₂) :
    c₁.SameRows c₂ instrument ↔ c₁.SameAnnualised c₂ ∧ c₁.SameSlots c₂ := by
  have hdeclared := sameDeclared_of_signatures hsame
  constructor
  · exact fun hrows => ⟨sameAnnualised_of_rows hdeclared hrows, sameSlots_of_rows hdeclared hrows⟩
  · rintro ⟨hannualised, hslots⟩
    exact FeatureSet.run_eq_of_same realMath instrument hdeclared hannualised hslots

/-- A beta window that no feature shows. -/
theorem sameRows_iff_betaWindow :
    ({ include_market_relative := false, beta_window := 60 } : FeatureConfig ℝ).SameRows
      { include_market_relative := false, beta_window := 390 } 0 := by
  have hdeclared : ({ include_market_relative := false, beta_window := 60 } : FeatureConfig ℝ).SameDeclared
      { include_market_relative := false, beta_window := 390 } :=
    ⟨rfl, rfl, rfl, rfl, rfl, rfl, rfl, rfl, rfl, rfl, rfl, fun hincluded => (by cases hincluded)⟩
  exact (sameRows_iff (hdeclared.build_names_eq true)).mpr ⟨.inr (.inr rfl), .inr rfl⟩

theorem feature_signatures_annualised (c : FeatureConfig ℝ) (annualization_periods : ℝ) :
    feature_signatures { c with annualization_periods } = feature_signatures c := rfl

/-- The library for one-minute bars, and for daily bars: the signatures are the
same, and the second bar shows another volatility. -/
theorem sameRows_not_of_signatures :
    ¬ ∀ (c₁ c₂ : FeatureConfig ℝ) (instrument : InstrumentId), feature_signatures c₁ = feature_signatures c₂ →
      c₁.SameRows c₂ instrument := by
  intro hall
  have hsame := feature_signatures_annualised {} 252
  rcases sameAnnualised_of_rows (sameDeclared_of_signatures hsame) (hall _ _ 0 hsame) with hnone | hbeyond | hequal
  · cases hnone
  · exact absurd hbeyond (by decide)
  · norm_num at hequal

end Unsigned

end ptl.features
