import Mathlib.Algebra.Order.Field.Rat
import Mathlib.Data.Rat.Cast.Order
import TradingLab.Features.Unsigned
import TradingLab.Market.Merge
import TradingLab.TableSum

open Series
open Std (TreeMap)
open ptl.market ptl.features

namespace ptl.pipeline

/-! ### The statistics of an instrument -/

/-- What bars leave of an instrument. The log returns are in a field of their
own. -/
structure MarketStatistics (K : Type*) [Field K] where
  last_close : Price := 0
  last_bar_time : Timestamp := kNoTimestamp
  volatility : K := 0
  interval_volume : Rat := 0
  average_volume : Rat := 0
  spread_bps : Bps := 0
  return_mean : K := 0
  return_m2 : K := 0
  return_count : Nat := 0
  previous_close : Rat := 0

variable {K : Type*} [Field K] (math : MathFunctions K)

/-- The log return from one close to the next. -/
def log_return (before close : Price) : K := math.log ((close / before : Rat) : K)

/-- Welford over log returns. -/
def MarketStatistics.observe_return (st : MarketStatistics K) (r : K) : MarketStatistics K :=
  let return_count := st.return_count + 1
  let delta := r - st.return_mean
  let return_mean := st.return_mean + delta / return_count
  let return_m2 := st.return_m2 + delta * (r - return_mean)
  { st with
    return_count, return_mean, return_m2
    volatility :=
      if 1 < return_count then math.sqrt (return_m2 / ((return_count - 1 : Nat) : K)) else st.volatility }

/-- The rest of a bar: the volumes, and a spread made up from the range. -/
def MarketStatistics.observe_interval (st : MarketStatistics K) (bar : Bar) : MarketStatistics K :=
  let n : Rat := (max 1 st.return_count : Nat)
  let range := bar.high - bar.low
  { st with
    previous_close := bar.close
    last_close := bar.close
    last_bar_time := bar.close_time
    interval_volume := bar.volume
    average_volume := st.average_volume + (bar.volume - st.average_volume) / n
    spread_bps := if 0 < bar.close then range / bar.close * 1e4 * 0.1 else 0 }

def MarketStatistics.update (st : MarketStatistics K) (bar : Bar) : MarketStatistics K :=
  if 0 < st.previous_close ∧ 0 < bar.close then
    (st.observe_return math (log_return math st.previous_close bar.close)).observe_interval bar
  else st.observe_interval bar

/-- The statistics of every instrument seen. -/
abbrev StatisticsTable (K : Type*) [Field K] := TreeMap InstrumentId (MarketStatistics K)

/-- What is kept of an instrument, a new entry if nothing is. -/
def statistics_of (state : StatisticsTable K) (instrument : InstrumentId) : MarketStatistics K :=
  (state[instrument]?).getD {}

def update_state (state : StatisticsTable K) (bar : Bar) : StatisticsTable K :=
  state.insert bar.instrument ((statistics_of state bar.instrument).update math bar)

def run_bars (bars : List Bar) : StatisticsTable K := bars.foldl (update_state math) ∅

/-- The bars of one instrument. -/
def bars_of (instrument : InstrumentId) (bars : List Bar) : List Bar := bars.filter (·.instrument = instrument)

/-- Bars of other instruments do not touch an instrument's statistics. -/
theorem statistics_of_run (bars : List Bar) (instrument : InstrumentId) :
    statistics_of (run_bars math bars) instrument =
      (bars_of instrument bars).foldl (MarketStatistics.update math) {} := by
  have hgen : ∀ (bars : List Bar) (state : StatisticsTable K),
      statistics_of (bars.foldl (update_state math) state) instrument =
        (bars_of instrument bars).foldl (MarketStatistics.update math) (statistics_of state instrument) := by
    intro bars
    induction bars with
    | nil => exact fun state => rfl
    | cons bar bars ih =>
      intro state
      rw [List.foldl_cons, ih]
      by_cases hown : bar.instrument = instrument
      · have hkeep : bars_of instrument (bar :: bars) = bar :: bars_of instrument bars :=
          List.filter_cons_of_pos (decide_eq_true hown)
        rw [hkeep, List.foldl_cons, ← hown]
        simp only [statistics_of, update_state, Table.getElem?_insert_self, Option.getD_some]
      · have hdrop : bars_of instrument (bar :: bars) = bars_of instrument bars :=
          List.filter_cons_of_neg (by simpa using hown)
        rw [hdrop]
        simp only [statistics_of, update_state, Table.getElem?_insert_of_ne _ _ hown]
  rw [run_bars, hgen]
  simp [statistics_of]

/-! ### The batch definitions -/

/-- The log returns of some bars, the newest first. -/
def log_returns : List Bar → List K
  | bar :: before :: past => log_return math before.close bar.close :: log_returns (before :: past)
  | _ => []

/-- The sample standard deviation, zero of fewer than two. -/
def sample_deviation (rs : List K) : K := if rs.length < 2 then 0 else math.sqrt (sampleCovariance id id rs)

/-- The volumes the running mean is of: all but the first bar's, when there is
another. -/
def averaged_volumes (past : List Bar) : List Rat :=
  if past.length ≤ 1 then past.map Bar.volume else past.dropLast.map Bar.volume

/-! ### What is kept -/

/-- Statistics that are those of some bars, the newest first. -/
structure MarketStatistics.Tracks (st : MarketStatistics K) (past : List Bar) : Prop where
  previous_close : st.previous_close = past.head?.elim 0 Bar.close
  return_count : st.return_count = (log_returns math past).length
  return_mean : st.return_mean = mean (log_returns math past)
  return_m2 : st.return_m2 = comoment id id (log_returns math past)
  volatility : st.volatility = sample_deviation math (log_returns math past)
  average_volume : st.average_volume = mean (averaged_volumes past)

theorem length_log_returns (past : List Bar) : (log_returns math past).length = past.length - 1 := by
  induction past with
  | nil => rfl
  | cons bar past ih =>
    cases past with
    | nil => rfl
    | cons before past =>
      rw [log_returns, List.length_cons, ih]
      rfl

theorem bar_close_pos (bar : Bar) : 0 < bar.close := bar.low_pos.trans_le bar.close_in_range.1

theorem tracks_new : ({} : MarketStatistics K).Tracks math [] where
  previous_close := rfl
  return_count := rfl
  return_mean := by simp [log_returns, mean]
  return_m2 := rfl
  volatility := rfl
  average_volume := by simp [averaged_volumes, mean]

variable [CharZero K]

/-- One return more, by the running formulas and by the batch ones. -/
theorem observe_return_tracks {st : MarketStatistics K} {rs : List K} (r : K) (hcount : st.return_count = rs.length)
    (hmean : st.return_mean = mean rs) (hm2 : st.return_m2 = comoment id id rs)
    (hvolatility : st.volatility = sample_deviation math rs) :
    (st.observe_return math r).return_count = (r :: rs).length ∧
      (st.observe_return math r).return_mean = mean (r :: rs) ∧
      (st.observe_return math r).return_m2 = comoment id id (r :: rs) ∧
      (st.observe_return math r).volatility = sample_deviation math (r :: rs) := by
  have hnext : st.return_mean + (r - st.return_mean) / ((st.return_count + 1 : Nat) : K) = mean (r :: rs) := by
    rw [mean_cons, hmean, hcount, Nat.cast_add, Nat.cast_one]
  have hmoment : st.return_m2 + (r - st.return_mean) * (r - mean (r :: rs)) = comoment id id (r :: rs) := by
    rw [comoment_cons, hm2, hmean]
  simp only [MarketStatistics.observe_return, hnext, hmoment, true_and]
  refine ⟨congrArg (· + 1) hcount, ?_⟩
  rw [sample_deviation, List.length_cons, hcount]
  by_cases hfew : rs.length = 0
  · rw [if_neg (by omega), if_pos (by omega), hvolatility, sample_deviation, if_pos (by omega)]
  · rw [if_pos (by omega), if_neg (by omega), sampleCovariance, List.length_cons, Nat.add_sub_cancel, Nat.cast_add,
      Nat.cast_one, add_sub_cancel_right]

/-- The mean volume over one bar more. -/
theorem average_volume_cons (bar : Bar) (past : List Bar) :
    mean (averaged_volumes past) + (bar.volume - mean (averaged_volumes past)) / ((max 1 past.length : Nat) : Rat) =
      mean (averaged_volumes (bar :: past)) := by
  match past with
  | [] => simp [averaged_volumes, mean]
  | [before] => simp [averaged_volumes, mean]
  | before :: earlier :: past =>
    have hold : averaged_volumes (before :: earlier :: past) = ((before :: earlier :: past).dropLast).map Bar.volume :=
      if_neg (by simp)
    have hnew : averaged_volumes (bar :: before :: earlier :: past) =
        bar.volume :: averaged_volumes (before :: earlier :: past) := by
      rw [hold]
      exact if_neg (by simp)
    have hlength : ((averaged_volumes (before :: earlier :: past)).length : Rat) + 1 =
        ((max 1 (before :: earlier :: past).length : Nat) : Rat) := by
      rw [hold, List.length_map, List.length_dropLast, ← Nat.cast_add_one]
      exact congrArg Nat.cast (by simp only [List.length_cons]; omega)
    rw [hnew, mean_cons, hlength]

theorem MarketStatistics.Tracks.update {st : MarketStatistics K} {past : List Bar} (htracks : st.Tracks math past)
    (bar : Bar) : (st.update math bar).Tracks math (bar :: past) := by
  cases past with
  | nil =>
    have hfirst : ¬ (0 < st.previous_close ∧ 0 < bar.close) := fun hboth =>
      lt_irrefl _ (htracks.previous_close ▸ hboth.1)
    rw [MarketStatistics.update, if_neg hfirst]
    refine ⟨rfl, htracks.return_count, htracks.return_mean, htracks.return_m2, htracks.volatility, ?_⟩
    have hmean := average_volume_cons bar []
    rw [← htracks.average_volume] at hmean
    have hcount : st.return_count = ([] : List Bar).length := htracks.return_count
    rw [← hcount] at hmean
    exact hmean
  | cons before past =>
    have hnext : 0 < st.previous_close ∧ 0 < bar.close :=
      ⟨htracks.previous_close ▸ bar_close_pos before, bar_close_pos bar⟩
    rw [MarketStatistics.update, if_pos hnext]
    have hreturn : log_return math st.previous_close bar.close = log_return math before.close bar.close :=
      congrArg (fun close => log_return math close bar.close) htracks.previous_close
    obtain ⟨hcount, hmean, hm2, hvolatility⟩ := observe_return_tracks math
      (log_return math st.previous_close bar.close) htracks.return_count htracks.return_mean htracks.return_m2
      htracks.volatility
    rw [hreturn] at hcount hmean hm2 hvolatility ⊢
    refine ⟨rfl, hcount, hmean, hm2, hvolatility, ?_⟩
    have hvolume := average_volume_cons bar (before :: past)
    have hlength : (st.observe_return math (log_return math before.close bar.close)).return_count =
        (before :: past).length := by
      rw [hcount, List.length_cons, length_log_returns]
      rfl
    rw [← htracks.average_volume, ← hlength] at hvolume
    exact hvolume

/-- The statistics of an instrument are those of its bars. -/
theorem tracks_run (bars : List Bar) (instrument : InstrumentId) :
    (statistics_of (run_bars math bars) instrument).Tracks math (bars_of instrument bars).reverse := by
  rw [statistics_of_run]
  exact foldl_tracks (P := fun (st : MarketStatistics K) past => st.Tracks math past) (tracks_new math)
    (fun st past bar htracks => htracks.update math bar) _

/-! ### Against the batch definitions -/

/-- The statistics as they are defined over all the bars of an instrument, the
newest first. -/
structure MarketStatistics.Batch (st : MarketStatistics K) (past : List Bar) : Prop where
  return_mean : st.return_mean = mean (log_returns math past)
  volatility : st.volatility = sample_deviation math (log_returns math past)
  average_volume : st.average_volume = mean (past.map Bar.volume)

/-- The first volume is left out of the mean, which shows unless it is the mean of
the others. -/
theorem averaged_volumes_iff (first : Bar) (later : List Bar) :
    mean (averaged_volumes (first :: later).reverse) = mean ((first :: later).reverse.map Bar.volume) ↔
      later = [] ∨ first.volume = mean (later.map Bar.volume) := by
  rw [List.map_reverse, mean_reverse, List.map_cons, List.reverse_cons]
  rcases eq_or_ne later [] with rfl | hne
  · exact iff_of_true rfl (.inl rfl)
  · have hlong : ¬ (later.reverse ++ [first]).length ≤ 1 := by
      have hlength := List.length_pos_iff.mpr hne
      simp only [List.length_append, List.length_reverse, List.length_singleton]
      omega
    rw [averaged_volumes, if_neg hlong, List.dropLast_concat, List.map_reverse, mean_reverse, eq_comm,
      mean_cons_eq_iff]
    exact (or_iff_right hne).symm

/-- The statistics of an instrument are the batch ones just when it has one bar at
most, or the volume of its first is the mean of the others'. -/
theorem statistics_batch_iff (bars : List Bar) (instrument : InstrumentId) :
    (statistics_of (run_bars math bars) instrument).Batch math (bars_of instrument bars).reverse ↔
      ∀ first later, bars_of instrument bars = first :: later →
        later = [] ∨ first.volume = mean (later.map Bar.volume) := by
  have htracks := tracks_run math bars instrument
  constructor
  · intro hbatch first later hown
    rw [hown] at htracks hbatch
    exact (averaged_volumes_iff first later).mp (htracks.average_volume.symm.trans hbatch.average_volume)
  · intro hvolumes
    refine ⟨htracks.return_mean, htracks.volatility, htracks.average_volume.trans ?_⟩
    cases hown : bars_of instrument bars with
    | nil => rfl
    | cons first later => exact (averaged_volumes_iff first later).mpr (hvolumes first later hown)

/-- A single bar. -/
theorem statistics_batch_iff_one_bar :
    (statistics_of (run_bars realMath [(flatBar 0 1 10 100).value]) 0).Batch realMath
        (bars_of 0 [(flatBar 0 1 10 100).value]).reverse ↔
      ∀ first later, bars_of 0 [(flatBar 0 1 10 100).value] = first :: later →
        later = [] ∨ first.volume = mean (later.map Bar.volume) :=
  statistics_batch_iff realMath [(flatBar 0 1 10 100).value] 0

/-- Two bars of volume 100 and 300: their mean is taken to be 300. -/
theorem first_volume_left_out :
    ¬ ∀ (bars : List Bar) (instrument : InstrumentId),
      (statistics_of (run_bars realMath bars) instrument).Batch realMath (bars_of instrument bars).reverse := by
  intro hall
  have hbatch := hall [(flatBar 0 1 10 100).value, (flatBar 0 2 10 300).value] 0
  have htracks := tracks_run realMath [(flatBar 0 1 10 100).value, (flatBar 0 2 10 300).value] 0
  have hmeans := htracks.average_volume.symm.trans hbatch.average_volume
  rcases (averaged_volumes_iff (flatBar 0 1 10 100).value [(flatBar 0 2 10 300).value]).mp hmeans with hnil | hmean
  · exact List.cons_ne_nil _ _ hnil
  · exact absurd hmean (by decide +kernel)

end ptl.pipeline
