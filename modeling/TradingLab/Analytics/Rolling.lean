import Mathlib.Algebra.Order.Floor.Semiring
import TradingLab.Core.Types
import TradingLab.Features.Intraday
import TradingLab.SlidingWindow

open Series SlidingWindow
open ptl.features (MathFunctions)

namespace ptl.analytics

/-- A series of one statistic, absent where the window was not yet full. -/
structure RollingSeries (K : Type*) where
  name : String
  window : Nat
  timestamps : List Timestamp
  values : List (Option K)
  deriving DecidableEq, Repr

structure RollingConfig (K : Type*) [Field K] where
  window : Nat := 60
  periods_per_year : K := (252 : Rat)
  risk_free_rate : K := 0
  var_confidence : K := (0.05 : Rat)

structure RollingAnalyzer (K : Type*) [Field K] where
  cfg : RollingConfig K := {}

def invalid (message : String) : Error := make_error .InvalidArgument message

/-- The index of the first timestamp before the one ahead of it. -/
def firstBackwards (i : Nat) : List Timestamp → Option Nat
  | prev :: cur :: rest => if cur < prev then some i else firstBackwards (i + 1) (cur :: rest)
  | _ => none

variable {K : Type*}

/-- The shape every rolling method asks for. -/
def check_shape (ts : List Timestamp) (values : List K) (window : Nat) : Result Bool :=
  if window < 2 then .error (invalid "rolling window must be at least two")
  else if values.isEmpty then .error (invalid "cannot compute a rolling series of nothing")
  else if ts.length ≠ values.length then
    .error (invalid ("timestamp series has " ++ toString ts.length ++ " entries for " ++ toString values.length ++
      " values"))
  else if values.any fun v => ¬ is_finite v then .error (invalid "series contains a non-finite value")
  else
    match firstBackwards 1 ts with
    | some i => .error (invalid ("timestamps are not non-decreasing at index " ++ toString i))
    | none => .ok true

theorem check_shape_ok {ts : List Timestamp} {values : List K} {window : Nat} {done : Bool}
    (hok : check_shape ts values window = .ok done) : 2 ≤ window := by
  unfold check_shape at hok
  split at hok
  · cases hok
  · exact not_lt.mp ‹_›

variable [Field K]

/-! ### Moments -/

/-- The sums that `volatility` and `sharpe` keep. -/
structure RollingSums (K : Type*) [Field K] where
  sum : K := 0
  sum_sq : K := 0

def RollingSums.add (m : RollingSums K) (x : K) : RollingSums K where
  sum := m.sum + x
  sum_sq := m.sum_sq + x * x

def RollingSums.remove (m : RollingSums K) (leaving : K) : RollingSums K where
  sum := m.sum - leaving
  sum_sq := m.sum_sq - leaving * leaving

/-- The co-moments that `beta` keeps, of returns and benchmark. -/
structure RollingComoments (K : Type*) [Field K] where
  sx : K := 0
  sy : K := 0
  sxy : K := 0
  syy : K := 0

def RollingComoments.add (m : RollingComoments K) (p : K × K) : RollingComoments K where
  sx := m.sx + p.1
  sy := m.sy + p.2
  sxy := m.sxy + p.1 * p.2
  syy := m.syy + p.2 * p.2

def RollingComoments.remove (m : RollingComoments K) (leaving : K × K) : RollingComoments K where
  sx := m.sx - leaving.1
  sy := m.sy - leaving.2
  sxy := m.sxy - leaving.1 * leaving.2
  syy := m.syy - leaving.2 * leaving.2

theorem follows_sums : Follows (RollingSums.add : RollingSums K → K → RollingSums K) RollingSums.remove
    fun m l => m.sum = l.sum ∧ m.sum_sq = (l.map fun x => x * x).sum where
  joins m l x hm := by
    simp only [RollingSums.add, hm.1, hm.2, List.sum_append, List.map_append, List.map_singleton, List.sum_singleton,
      and_self]
  leaves m x l hm := by
    simp only [RollingSums.remove, hm.1, hm.2, List.map_cons, List.sum_cons, add_sub_cancel_left, and_self]

theorem follows_comoments :
    Follows (RollingComoments.add : RollingComoments K → K × K → RollingComoments K) RollingComoments.remove
      fun m l => m.sx = (l.map Prod.fst).sum ∧ m.sy = (l.map Prod.snd).sum ∧
        m.sxy = (l.map fun p => p.1 * p.2).sum ∧ m.syy = (l.map fun p => p.2 * p.2).sum where
  joins m l p hm := by
    obtain ⟨hx, hy, hxy, hyy⟩ := hm
    simp only [RollingComoments.add, hx, hy, hxy, hyy, List.map_append, List.map_singleton, List.sum_append,
      List.sum_singleton, and_self]
  leaves m p l hm := by
    obtain ⟨hx, hy, hxy, hyy⟩ := hm
    simp only [RollingComoments.remove, hx, hy, hxy, hyy, List.map_cons, List.sum_cons, add_sub_cancel_left, and_self]

variable [LinearOrder K]

/-- Clamped at zero, as rounding may take it below. -/
def RollingSums.variance (m : RollingSums K) (window : Nat) : K :=
  let n : K := window
  let mean := m.sum / n
  max 0 ((m.sum_sq - n * mean * mean) / (n - 1))

/-- The variance from the sums is the sample variance. -/
theorem RollingSums.variance_eq [IsStrictOrderedRing K] {m : RollingSums K} {l : List K} {window : Nat}
    (hwindow : 2 ≤ window) (hm : m.sum = l.sum ∧ m.sum_sq = (l.map fun x => x * x).sum) (hlength : l.length = window) :
    m.variance window = sampleCovariance id id l := by
  have hn : (window : K) ≠ 0 := Nat.cast_ne_zero.mpr (by omega)
  have hsums : m.sum_sq - window * (m.sum / window) * (m.sum / window) = comoment id id l := by
    rw [comoment_eq_sum, hm.1, hm.2, hlength, List.map_id]
    simp only [id_eq]
    field_simp
  have hnonneg : 0 ≤ sampleCovariance id id l := by
    refine div_nonneg (comoment_self_nonneg id l) (sub_nonneg.mpr ?_)
    rw [hlength]
    exact Nat.one_le_cast.mpr (by omega)
  rw [RollingSums.variance, hsums, ← hlength]
  exact max_eq_right hnonneg

open RollingAnalyzer

variable (math : MathFunctions K) (a : RollingAnalyzer K) (ts : List Timestamp) (returns benchmark : List K)

def RollingAnalyzer.annualization : K := math.sqrt (max 1 a.cfg.periods_per_year)

def RollingAnalyzer.rf_per_period : K := a.cfg.risk_free_rate / max 1 a.cfg.periods_per_year

def RollingAnalyzer.volatility : Result (RollingSeries K) :=
  match check_shape ts returns a.cfg.window with
  | .error err => .error err
  | .ok _ =>
    .ok {
      name := "rolling_volatility"
      window := a.cfg.window
      timestamps := ts
      values := roll a.cfg.window RollingSums.add RollingSums.remove (fun m : RollingSums K =>
        let vol := math.sqrt (m.variance a.cfg.window) * a.annualization math
        if is_finite vol then some vol else none) returns {} }

/-- Without dispersion the ratio is undefined. -/
def RollingAnalyzer.sharpe : Result (RollingSeries K) :=
  match check_shape ts returns a.cfg.window with
  | .error err => .error err
  | .ok _ =>
    .ok {
      name := "rolling_sharpe"
      window := a.cfg.window
      timestamps := ts
      values := roll a.cfg.window RollingSums.add RollingSums.remove (fun m : RollingSums K =>
        let mean : K := m.sum / a.cfg.window
        let sd := math.sqrt (m.variance a.cfg.window)
        let sharpe := (mean - a.rf_per_period) / sd * a.annualization math
        if sd > (1e-15 : Rat) then if is_finite sharpe then some sharpe else none
        else none) returns {} }

/-- A benchmark without variance explains nothing. -/
def RollingAnalyzer.beta : Result (RollingSeries K) :=
  match check_shape ts returns a.cfg.window with
  | .error err => .error err
  | .ok _ =>
    if benchmark.length ≠ returns.length then
      .error (invalid "benchmark length does not match the return series")
    else
      .ok {
        name := "rolling_beta"
        window := a.cfg.window
        timestamps := ts
        values := roll a.cfg.window RollingComoments.add RollingComoments.remove (fun m : RollingComoments K =>
          let n : K := a.cfg.window
          let covariance := m.sxy - m.sx * m.sy / n
          let variance_b := m.syy - m.sy * m.sy / n
          let b := covariance / variance_b
          if variance_b > (1e-18 : Rat) then if is_finite b then some b else none
          else none) (returns.zip benchmark) {} }

def RollingAnalyzer.sample_volatility (l : List K) : Option K :=
  some (math.sqrt (sampleCovariance id id l) * a.annualization math)

def RollingAnalyzer.sharpe_ratio (l : List K) : Option K :=
  if math.sqrt (sampleCovariance id id l) > (1e-15 : Rat) then
    some ((mean l - a.rf_per_period) / math.sqrt (sampleCovariance id id l) * a.annualization math)
  else none

def regression_beta (l : List (K × K)) : Option K :=
  if comoment Prod.snd Prod.snd l > (1e-18 : Rat) then
    some (comoment Prod.fst Prod.snd l / comoment Prod.snd Prod.snd l)
  else none

section Series

variable {math a ts returns benchmark} [IsStrictOrderedRing K] {r : RollingSeries K}

theorem RollingAnalyzer.beta_rolls (hok : a.beta ts returns benchmark = .ok r) :
    r.values = eachWindow a.cfg.window regression_beta (returns.zip benchmark) := by
  unfold beta at hok
  split at hok
  · cases hok
  · rename_i hshape
    split at hok
    · cases hok
    · cases hok
      have hwindow := check_shape_ok hshape
      refine roll_eq follows_comoments (by omega) (fun m l hm hlength => ?_) ⟨rfl, rfl, rfl, rfl⟩ _
      obtain ⟨hx, hy, hxy, hyy⟩ := hm
      simp only [is_finite_eq_true, if_true]
      rw [regression_beta, comoment_eq_sum, comoment_eq_sum, hx, hy, hxy, hyy, hlength]

theorem RollingAnalyzer.volatility_rolls (hok : a.volatility math ts returns = .ok r) :
    r.values = eachWindow a.cfg.window (a.sample_volatility math) returns := by
  unfold volatility at hok
  split at hok
  · cases hok
  · rename_i hshape
    cases hok
    have hwindow := check_shape_ok hshape
    refine roll_eq follows_sums (by omega) (fun m l hm hlength => ?_) ⟨rfl, rfl⟩ returns
    simp only [is_finite_eq_true, if_true]
    rw [sample_volatility, RollingSums.variance_eq hwindow hm hlength]

theorem RollingAnalyzer.sharpe_rolls (hok : a.sharpe math ts returns = .ok r) :
    r.values = eachWindow a.cfg.window (a.sharpe_ratio math) returns := by
  unfold sharpe at hok
  split at hok
  · cases hok
  · rename_i hshape
    cases hok
    have hwindow := check_shape_ok hshape
    refine roll_eq follows_sums (by omega) (fun m l hm hlength => ?_) ⟨rfl, rfl⟩ returns
    have hmean : m.sum / a.cfg.window = mean l := by rw [mean, hm.1, hlength]
    simp only [is_finite_eq_true, if_true]
    rw [sharpe_ratio, RollingSums.variance_eq hwindow hm hlength, hmean]

end Series

/-! ### Quantiles -/

/-- The loop over a sorted window. None where it reads outside the window. -/
def RollingAnalyzer.sorted_series (name : String) (read : List K → Option K) : Option (RollingSeries K) :=
  let reads := roll a.cfg.window insertSorted eraseSorted (fun window => some (read window)) returns []
  if reads.all fun r => r.elim true Option.isSome then
    some { name, window := a.cfg.window, timestamps := ts, values := reads.map Option.join }
  else none

/-- What is read of a sorted window, of each. -/
theorem RollingAnalyzer.sorted_series_iff (a : RollingAnalyzer K) (ts : List Timestamp) (returns : List K)
    (name : String) (read : List K → Option K) (hwindow : 0 < a.cfg.window) (r : RollingSeries K) :
    a.sorted_series ts returns name read = some r ↔
      (∀ i < returns.length, a.cfg.window ≤ i + 1 →
        (read ((ending a.cfg.window i returns).mergeSort (· ≤ ·))).isSome = true) ∧
      r = {
        name
        window := a.cfg.window
        timestamps := ts
        values := eachWindow a.cfg.window (fun l => read (l.mergeSort (· ≤ ·))) returns } := by
  have hreads : roll a.cfg.window insertSorted eraseSorted (fun window => some (read window)) returns [] =
      eachWindow a.cfg.window (fun l => some (read (l.mergeSort (· ≤ ·)))) returns := by
    refine roll_eq follows_sorts hwindow (fun s l hs _ => ?_) sorts_nil returns
    rw [hs.unique (sorts_mergeSort l)]
  have hall : ((eachWindow a.cfg.window (fun l => some (read (l.mergeSort (· ≤ ·)))) returns).all
      fun r => r.elim true Option.isSome) = true ↔ ∀ i < returns.length, a.cfg.window ≤ i + 1 →
        (read ((ending a.cfg.window i returns).mergeSort (· ≤ ·))).isSome = true := by
    rw [eachWindow, List.all_map, List.all_eq_true]
    refine forall_congr' fun i => ?_
    rw [List.mem_range]
    refine imp_congr_right fun _ => ?_
    by_cases hfull : i + 1 < a.cfg.window
    · simp [hfull, hfull.not_ge]
    · simp [hfull, not_lt.mp hfull]
  have hvalues : (eachWindow a.cfg.window (fun l => some (read (l.mergeSort (· ≤ ·)))) returns).map Option.join =
      eachWindow a.cfg.window (fun l => read (l.mergeSort (· ≤ ·))) returns := by
    rw [eachWindow, eachWindow, List.map_map]
    refine List.map_congr_left fun i _ => ?_
    simp only [Function.comp_apply]
    split <;> rfl
  rw [sorted_series, hreads, hvalues]
  split
  · rename_i hevery
    rw [Option.some_inj, and_iff_right (hall.mp hevery), eq_comm]
  · rename_i hsome
    exact iff_of_false (fun h => by cases h) fun h => hsome (hall.mpr h.1)

variable [FloorSemiring K]

/-- The conversion to an unsigned size. It truncates, and is undefined from minus
one down; what is too large for it is beyond any window. -/
def to_size (x : K) : Option Nat := if -1 < x then some ⌊x⌋₊ else none

/-- The entry at the nearest rank of a sorted window, as a loss. -/
def RollingAnalyzer.quantile (window : List K) : Option K :=
  let rank := ⌈a.cfg.var_confidence * window.length⌉₊
  let index := if rank > 0 then rank - 1 else 0
  (window[min index (window.length - 1)]?).map fun quantile => -quantile

/-- The mean of the tail of a sorted window, of one entry at least, as a loss. No
value is read from outside the window. -/
def RollingAnalyzer.tail_loss (window : List K) : Option K :=
  match to_size (a.cfg.var_confidence * window.length) with
  | none => none
  | some size =>
    let tail := max 1 size
    if tail ≤ window.length then some (-((window.take tail).foldl (· + ·) 0 / tail)) else none

def RollingAnalyzer.value_at_risk : Option (Result (RollingSeries K)) :=
  match check_shape ts returns a.cfg.window with
  | .error err => some (.error err)
  | .ok _ =>
    if a.cfg.var_confidence ≤ 0 ∨ a.cfg.var_confidence ≥ 1 then
      some (.error (invalid "VaR confidence must lie in (0, 1)"))
    else (a.sorted_series ts returns "rolling_var" a.quantile).map .ok

def RollingAnalyzer.conditional_var : Option (Result (RollingSeries K)) :=
  match check_shape ts returns a.cfg.window with
  | .error err => some (.error err)
  | .ok _ => (a.sorted_series ts returns "rolling_cvar" a.tail_loss).map .ok

/-- The loss at the least return with a share `q` of the returns at or below it. -/
def nearest_rank (q : K) (l : List K) : Option K :=
  ((l.mergeSort (· ≤ ·))[⌈q * l.length⌉₊ - 1]?).map fun x => -x

/-- The mean loss of the worst returns. -/
def expected_shortfall (q : K) (l : List K) : Option K :=
  some (-mean ((l.mergeSort (· ≤ ·)).take (max 1 ⌊q * l.length⌋₊)))

/-- Every series is the window's statistic, computed afresh for each full window,
nothing outside a window is read, and a tail loss is at least its quantile. -/
structure RollingAnalyzer.Lawful : Prop where
  volatility : ∀ r, a.volatility math ts returns = .ok r →
    r.values = eachWindow a.cfg.window (a.sample_volatility math) returns
  sharpe : ∀ r, a.sharpe math ts returns = .ok r →
    r.values = eachWindow a.cfg.window (a.sharpe_ratio math) returns
  beta : ∀ r, a.beta ts returns benchmark = .ok r →
    r.values = eachWindow a.cfg.window regression_beta (returns.zip benchmark)
  quantiles_inside : (a.value_at_risk ts returns).isSome = true ∧ (a.conditional_var ts returns).isSome = true
  value_at_risk : ∀ r, a.value_at_risk ts returns = some (.ok r) →
    r.values = eachWindow a.cfg.window (nearest_rank a.cfg.var_confidence) returns
  conditional_var : ∀ r, a.conditional_var ts returns = some (.ok r) →
    r.values = eachWindow a.cfg.window (expected_shortfall a.cfg.var_confidence) returns
  tail_beyond : ∀ v c, a.value_at_risk ts returns = some (.ok v) → a.conditional_var ts returns = some (.ok c) →
    ∀ (i : Nat) (x y : K), v.values[i]? = some (some x) → c.values[i]? = some (some y) → x ≤ y

/-- The tail is inside a window of this size. -/
def RollingAnalyzer.TailFits : Prop :=
  -1 < a.cfg.var_confidence * a.cfg.window ∧ a.cfg.var_confidence * a.cfg.window < a.cfg.window + 1

section Law

variable {math a ts returns benchmark}

/-- Beyond it the tail is read from outside the window, or has no size. -/
theorem RollingAnalyzer.tail_loss_none {l : List K} (hlength : l.length = a.cfg.window) (hbeyond : ¬ a.TailFits) :
    a.tail_loss (l.mergeSort (· ≤ ·)) = none := by
  rw [tail_loss, (sorts_mergeSort l).length_eq, hlength, to_size]
  by_cases hsized : -1 < a.cfg.var_confidence * a.cfg.window
  · rw [if_pos hsized]
    dsimp only
    have hlarge : (a.cfg.window : K) + 1 ≤ a.cfg.var_confidence * a.cfg.window :=
      not_lt.mp fun hless => hbeyond ⟨hsized, hless⟩
    have hfloor : a.cfg.window + 1 ≤ ⌊a.cfg.var_confidence * a.cfg.window⌋₊ :=
      Nat.le_floor (by exact_mod_cast hlarge)
    exact if_neg fun hle => absurd (hfloor.trans ((le_max_right _ _).trans hle)) (Nat.not_succ_le_self _)
  · rw [if_neg hsized]

variable [IsStrictOrderedRing K]

theorem RollingAnalyzer.quantile_eq {l : List K} (hpos : 0 < a.cfg.var_confidence) (hless : a.cfg.var_confidence < 1)
    (hne : l ≠ []) : a.quantile (l.mergeSort (· ≤ ·)) = nearest_rank a.cfg.var_confidence l := by
  have hlength := (sorts_mergeSort l).length_eq
  have hsome : (0 : K) < l.length := Nat.cast_pos.mpr (List.length_pos_iff.mpr hne)
  have hrank : 0 < ⌈a.cfg.var_confidence * l.length⌉₊ := Nat.ceil_pos.mpr (mul_pos hpos hsome)
  have hmost : ⌈a.cfg.var_confidence * l.length⌉₊ ≤ l.length :=
    Nat.ceil_le.mpr (mul_le_of_le_one_left hsome.le hless.le)
  rw [quantile, nearest_rank, hlength, if_pos hrank, min_eq_left (Nat.sub_le_sub_right hmost 1)]

theorem RollingAnalyzer.tail_loss_eq {l : List K} (hlength : l.length = a.cfg.window) (hwindow : 0 < a.cfg.window)
    (hfits : a.TailFits) : a.tail_loss (l.mergeSort (· ≤ ·)) = expected_shortfall a.cfg.var_confidence l := by
  have hsize : max 1 ⌊a.cfg.var_confidence * a.cfg.window⌋₊ ≤ a.cfg.window := by
    refine max_le hwindow (Nat.lt_succ_iff.mp ((Nat.floor_lt' (Nat.succ_ne_zero _)).mpr ?_))
    exact_mod_cast hfits.2
  rw [tail_loss, expected_shortfall, (sorts_mergeSort l).length_eq, hlength, to_size, if_pos hfits.1]
  dsimp only
  rw [if_pos hsize, mean, List.length_take, (sorts_mergeSort l).length_eq, hlength, min_eq_left hsize,
    List.sum_eq_foldl]

/-- The least return with a share of them at or below it is the one of nearest
rank. -/
theorem nearest_rank_isLeast {q : K} {l : List K} (hpos : 0 < q) (hless : q < 1) (hne : l ≠ []) :
    ∃ x, nearest_rank q l = some (-x) ∧ IsLeast {y | y ∈ l ∧ q * l.length ≤ l.countP (· ≤ y)} x := by
  have hsome : (0 : K) < l.length := Nat.cast_pos.mpr (List.length_pos_iff.mpr hne)
  have hmost : ⌈q * l.length⌉₊ ≤ l.length := Nat.ceil_le.mpr (mul_le_of_le_one_left hsome.le hless.le)
  obtain ⟨x, hx, hleast⟩ := (sorts_mergeSort l).isLeast_rank (Nat.ceil_pos.mpr (mul_pos hpos hsome)) hmost
  refine ⟨x, ?_, ?_⟩
  · rw [nearest_rank, hx]
    rfl
  · simpa only [Nat.ceil_le] using hleast

theorem RollingAnalyzer.value_at_risk_rolls (hshape : (check_shape ts returns a.cfg.window).toOption.isSome = true) :
    (a.value_at_risk ts returns).isSome = true ∧
      ∀ r, a.value_at_risk ts returns = some (.ok r) → 0 < a.cfg.var_confidence ∧ a.cfg.var_confidence < 1 ∧
        r.values = eachWindow a.cfg.window (nearest_rank a.cfg.var_confidence) returns := by
  unfold value_at_risk
  cases hcheck : check_shape ts returns a.cfg.window with
  | error err =>
    rw [hcheck] at hshape
    cases hshape
  | ok done =>
    have hwindow := check_shape_ok hcheck
    dsimp only
    split
    · exact ⟨rfl, fun r hr => by cases hr⟩
    · rename_i hconfidence
      obtain ⟨hpos, hless⟩ := not_or.mp hconfidence
      rw [not_le] at hpos hless
      have heach : ∀ l : List K, l.length = a.cfg.window →
          a.quantile (l.mergeSort (· ≤ ·)) = nearest_rank a.cfg.var_confidence l :=
        fun l hlength => quantile_eq hpos hless (List.ne_nil_of_length_pos (by omega))
      have hseries := (a.sorted_series_iff ts returns "rolling_var" a.quantile (by omega) _).mpr
        ⟨fun i hi hfull => ?_, rfl⟩
      · rw [hseries]
        refine ⟨rfl, fun r hr => ?_⟩
        cases hr
        exact ⟨hpos, hless, eachWindow_congr heach⟩
      · have hlength : (ending a.cfg.window i returns).length = a.cfg.window := length_ending hfull hi
        obtain ⟨x, hx, -⟩ := nearest_rank_isLeast hpos hless
          (List.ne_nil_of_length_pos (l := ending a.cfg.window i returns) (by omega))
        rw [heach _ hlength, hx]
        rfl

/-- A tail that is inside the window, or no window at all. -/
theorem RollingAnalyzer.conditional_var_rolls (hshape : (check_shape ts returns a.cfg.window).toOption.isSome = true) :
    ((a.conditional_var ts returns).isSome = true ↔ returns.length < a.cfg.window ∨ a.TailFits) ∧
      ∀ r, a.conditional_var ts returns = some (.ok r) →
        r.values = eachWindow a.cfg.window (expected_shortfall a.cfg.var_confidence) returns := by
  unfold conditional_var
  cases hcheck : check_shape ts returns a.cfg.window with
  | error err =>
    rw [hcheck] at hshape
    cases hshape
  | ok done =>
    have hwindow := check_shape_ok hcheck
    have hseries := a.sorted_series_iff ts returns "rolling_cvar" a.tail_loss (by omega)
    have hinside : (∀ i < returns.length, a.cfg.window ≤ i + 1 →
        (a.tail_loss ((ending a.cfg.window i returns).mergeSort (· ≤ ·))).isSome = true) ↔
          returns.length < a.cfg.window ∨ a.TailFits := by
      refine ⟨fun hall => ?_, ?_⟩
      · by_contra hnot
        obtain ⟨hlong, hbeyond⟩ := not_or.mp hnot
        have hlast : a.cfg.window - 1 < returns.length := by omega
        have hfull : a.cfg.window ≤ a.cfg.window - 1 + 1 := by omega
        have hnone := tail_loss_none (length_ending hfull hlast) hbeyond
        have hsome := hall _ hlast hfull
        rw [hnone] at hsome
        cases hsome
      · rintro (hshort | hfits) i hi hfull
        · omega
        · rw [tail_loss_eq (length_ending hfull hi) (by omega) hfits]
          rfl
    dsimp only
    rw [Option.isSome_map, Option.isSome_iff_exists]
    refine ⟨⟨fun ⟨r, hr⟩ => hinside.mp ((hseries r).mp hr).1, fun hor => ⟨_, (hseries _).mpr ⟨hinside.mpr hor, rfl⟩⟩⟩,
      fun r hr => ?_⟩
    obtain ⟨r, hr, ⟨⟩⟩ := Option.map_eq_some_iff.mp hr
    obtain ⟨hall, rfl⟩ := (hseries r).mp hr
    obtain hshort | hfits := hinside.mp hall
    · refine List.map_congr_left fun i hi => ?_
      have hearly : i + 1 < a.cfg.window := by
        rw [List.mem_range] at hi
        omega
      rw [if_pos hearly, if_pos hearly]
    · exact eachWindow_congr fun l hlength => tail_loss_eq hlength (by omega) hfits

/-- The mean of the worst returns is no better than the return of nearest rank. -/
theorem nearest_rank_le_expected_shortfall {q : K} {l : List K} (hpos : 0 < q) (hne : l ≠ []) {x y : K}
    (hx : nearest_rank q l = some x) (hy : expected_shortfall q l = some y) : x ≤ y := by
  obtain ⟨z, hz, rfl⟩ := Option.map_eq_some_iff.mp hx
  cases hy
  have hsome : (0 : K) < l.length := Nat.cast_pos.mpr (List.length_pos_iff.mpr hne)
  have hrank : 0 < ⌈q * l.length⌉₊ := Nat.ceil_pos.mpr (mul_pos hpos hsome)
  have htail : max 1 ⌊q * l.length⌋₊ ≤ ⌈q * l.length⌉₊ - 1 + 1 := by
    rw [Nat.sub_add_cancel hrank]
    exact max_le hrank (Nat.floor_le_ceil _)
  exact neg_le_neg ((sorts_mergeSort l).mean_take_le (Nat.lt_of_lt_of_le Nat.zero_lt_one (le_max_left _ _)) htail hz)

variable (math a ts returns benchmark) in
/-- The law holds unless a full window has a tail that reaches outside it, which
only `value_at_risk` checks the confidence for. -/
theorem RollingAnalyzer.lawful_iff : a.Lawful math ts returns benchmark ↔
    ((check_shape ts returns a.cfg.window).toOption.isSome = true →
      returns.length < a.cfg.window ∨ a.TailFits) := by
  constructor
  · exact fun hlawful hshape => (conditional_var_rolls hshape).1.mp hlawful.quantiles_inside.2
  · intro hfits
    by_cases hshape : (check_shape ts returns a.cfg.window).toOption.isSome = true
    · obtain ⟨hinside, hquantile⟩ := value_at_risk_rolls hshape
      obtain ⟨hinside', hmean⟩ := conditional_var_rolls hshape
      refine ⟨fun r => volatility_rolls, fun r => sharpe_rolls,
        fun r => beta_rolls, ⟨hinside, hinside'.mpr (hfits hshape)⟩, fun r hr => (hquantile r hr).2.2,
        hmean, ?_⟩
      intro v c hv hc i x y hx hy
      obtain ⟨hpos, -, hvalues⟩ := hquantile v hv
      rw [hvalues] at hx
      rw [hmean c hc] at hy
      obtain ⟨hi, hfull, hx⟩ := eachWindow_getElem? hx
      obtain ⟨-, -, hy⟩ := eachWindow_getElem? hy
      have hlength : (ending a.cfg.window i returns).length = a.cfg.window := length_ending hfull hi
      obtain ⟨done, hok⟩ := Option.isSome_iff_exists.mp hshape
      have hwindow := check_shape_ok (Result.toOption_eq_some.mp hok)
      exact nearest_rank_le_expected_shortfall hpos (List.ne_nil_of_length_pos (by omega)) hx hy
    · cases hcheck : check_shape ts returns a.cfg.window with
      | ok done =>
        rw [hcheck] at hshape
        exact absurd rfl hshape
      | error err =>
        refine ⟨?_, ?_, ?_, ?_, ?_, ?_, ?_⟩
        all_goals
          simp [volatility, sharpe, beta,
            value_at_risk, conditional_var, hcheck]

end Law

/-- Three days of returns in windows of two, with a confidence of one half. -/
theorem RollingAnalyzer.lawful_iff_half :
    ({ cfg := { window := 2, var_confidence := 1 / 2 } } : RollingAnalyzer Rat).Lawful
      { log := id, sqrt := id, sin := id, cos := id, pi := (0 : Rat) } [0, 1, 2] [1, -1, 2] [1, 2, 3] := by
  refine (lawful_iff _ _ _ _ _).mpr fun _ => .inr ?_
  unfold RollingAnalyzer.TailFits
  norm_num

/-- A confidence of two is not refused, and the mean of the tail reads two values
past the end of a window of two. -/
theorem RollingAnalyzer.tail_outside :
    ¬ ∀ (math : MathFunctions Rat) (a : RollingAnalyzer Rat) (ts : List Timestamp) (returns benchmark : List Rat),
      a.Lawful math ts returns benchmark := by
  intro hlawful
  have hinside := (hlawful { log := id, sqrt := id, sin := id, cos := id, pi := 0 }
    { cfg := { window := 2, var_confidence := 2 } } [0, 1] [1, -1] [1, 2]).quantiles_inside.2
  exact absurd hinside (by decide +kernel)

end ptl.analytics
