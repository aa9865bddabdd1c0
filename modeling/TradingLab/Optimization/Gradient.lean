import Mathlib.Algebra.Order.Star.Real
import Mathlib.Analysis.Matrix.PosDef
import Mathlib.Analysis.SpecialFunctions.Log.Deriv
import Mathlib.Analysis.SpecialFunctions.Sqrt
import TradingLab.Gradients
import TradingLab.Optimization.Objective

open Gradients

namespace ptl.optimization

noncomputable def realLibm : Libm ℝ where
  sqrt := Real.sqrt
  log := Real.log

theorem half_eq : (0.5 : ℝ) = 1 / 2 := by norm_num

theorem two_eq : (2.0 : ℝ) = 2 := by norm_num

theorem getD_ofFn {n : Nat} (x : Fin n → ℝ) (i : Fin n) : (List.ofFn x).getD i 0 = x i := by
  simp [List.getD_eq_getElem?_getD]

namespace RiskModel

variable {n : Nat} (m : RiskModel ℝ) (x : Fin n → ℝ)

/-- The covariance of a universe, which is zero where the model has none for it. -/
def fitted (n : Nat) : SymmetricMatrix ℝ n :=
  if h : n = m.size then m.at_.submatrix (Fin.cast h) (Fin.cast h) else 0

/-- The entries of `Σw`. -/
def times (i : Fin n) : ℝ := ∑ j, m.fitted n i j * x j

def form : ℝ := ∑ i, x i * m.times x i

theorem row_eq (h : n = m.size) (i : Fin n) :
    m.row (List.ofFn x) (Fin.cast h i) = m.times x i := by
  subst h
  simp only [row, times, fitted]
  exact Finset.sum_congr rfl fun j _ => by rw [getD_ofFn]; rfl

theorem fitted_other (h : n ≠ m.size) : m.fitted n = 0 := dif_neg h

theorem quadratic_form_eq : m.quadratic_form (List.ofFn x) = max 0 (m.form x) := by
  by_cases hsame : n = m.size
  · have hsum : (∑ i : Fin m.size, (List.ofFn x).getD i 0 * m.row (List.ofFn x) i) = m.form x := by
      subst hsame
      exact Finset.sum_congr rfl fun i _ => congrArg₂ _ (getD_ofFn x i) (m.row_eq x rfl i)
    rw [quadratic_form, hsum, List.length_ofFn]
    split
    case isTrue hempty =>
      have hzero : n = 0 := by omega
      subst hzero
      simp [form]
    case isFalse => rfl
  · rw [quadratic_form, if_pos (.inl (by simpa using hsame)), form]
    simp [times, m.fitted_other hsame]

/-- The entries of what is multiplied. -/
theorem multiply_getD (i : Fin n) : (m.multiply (List.ofFn x)).getD i 0 = m.times x i := by
  by_cases hsame : n = m.size
  · rw [multiply, if_neg (by simpa using hsame), ← m.row_eq x hsame i]
    exact getD_ofFn (m.row (List.ofFn x)) (Fin.cast hsame i)
  · rw [multiply, if_pos (by simpa using hsame), times, m.fitted_other hsame]
    simp only [List.getD_eq_getElem?_getD, List.getElem?_replicate]
    split <;> simp

theorem fitted_posSemidef (hpsd : m.at_.PosSemidef) (n : Nat) : (m.fitted n).PosSemidef := by
  by_cases hsame : n = m.size
  · rw [fitted, dif_pos hsame]
    exact hpsd.submatrix _
  · rw [m.fitted_other hsame]
    exact Matrix.PosSemidef.zero

variable {m}

theorem form_nonneg (hpsd : m.at_.PosSemidef) : 0 ≤ m.form x :=
  (m.fitted_posSemidef hpsd n).dotProduct_mulVec_nonneg x

theorem quadratic_form_nonneg (m : RiskModel ℝ) (w : List ℝ) : 0 ≤ m.quadratic_form w := by
  rw [quadratic_form]
  split
  · exact le_rfl
  · exact le_max_left ..

theorem hasGradient_quadratic_form (hpsd : m.at_.PosSemidef) :
    HasGradient (fun y => m.quadratic_form (List.ofFn y)) (fun i => 2 * m.times x i) x := by
  have hform : HasGradient m.form (fun i => 2 * m.times x i) x :=
    hasGradient_quadratic (m.fitted_posSemidef hpsd n).isHermitian x
  refine hform.congr (.of_forall fun y => ?_) fun _ => rfl
  exact (m.quadratic_form_eq y).trans (max_eq_right (form_nonneg y hpsd))

end RiskModel

namespace Objective

variable (o : Objective ℝ) (input : SolverInput ℝ)

/-- What `validate` and `check_requirements` leave an objective to read, where the covariance
is a symmetric and positive semi-definite matrix. -/
structure Reads : Prop where
  fits : input.covariance.size = 0 ∨ input.covariance.size = input.size
  psd : input.covariance.at_.PosSemidef
  benchmark : o.cfg.kind = .MinimizeTrackingError →
    o.cfg.benchmark_weights.length = input.size ∧ input.covariance.size ≠ 0

/-- Where the clamps of an objective do nothing. -/
def Smooth (x : Fin input.size → ℝ) : Prop :=
  match o.cfg.kind with
  | .MaximizeSharpe => 1e-12 < Real.sqrt (input.covariance.quadratic_form (List.ofFn x))
  | .RiskParity => 1e-18 < input.covariance.quadratic_form (List.ofFn x) ∧ ∀ i, 1e-12 < x i
  | _ => True

/-- The return forecast of each instrument. -/
def forecast (i : Fin input.size) : ℝ :=
  if input.expected_returns.length = input.size then input.expected_returns.getD i 0 else 0

def benchmark (i : Fin input.size) : ℝ := o.cfg.benchmark_weights.getD i 0

variable {o input} {x : Fin input.size → ℝ}

theorem expected_eq (y : Fin input.size → ℝ) : expected (List.ofFn y) input = ∑ i, y i * forecast input i := by
  rw [expected, List.length_ofFn]
  by_cases hlength : input.expected_returns.length = input.size
  · have hentries : List.zipWith (fun a mu => a * mu) (List.ofFn y) input.expected_returns =
        List.ofFn fun i => y i * forecast input i := by
      refine List.ext_getElem (by simp [hlength]) fun i hi _ => ?_
      simp [forecast, hlength, List.getD_eq_getElem?_getD]
    rw [if_pos hlength, hentries, List.sum_ofFn]
  · rw [if_neg hlength]
    simp [forecast, hlength]

theorem active_eq (hlength : o.cfg.benchmark_weights.length = input.size) (y : Fin input.size → ℝ) :
    o.active (List.ofFn y) = List.ofFn (y - o.benchmark input) := by
  refine List.ext_getElem (by simp [active, hlength]) fun i hi _ => ?_
  have hbound : i < o.cfg.benchmark_weights.length := by
    simp only [active, List.length_zipWith, lt_min_iff] at hi
    exact hi.2
  simp [active, benchmark, hbound, List.getD_eq_getElem?_getD]

theorem hasGradient_expected (x : Fin input.size → ℝ) :
    HasGradient (fun y => expected (List.ofFn y) input) (forecast input) x :=
  (hasGradient_linear (forecast input) x).congr (.of_forall expected_eq) fun _ => rfl

/-- The kinds that weigh the expected return against the variance. -/
theorem hasGradient_utility (hpsd : input.covariance.at_.PosSemidef) (a c : ℝ) :
    HasGradient (fun y => a * expected (List.ofFn y) input - c * input.covariance.quadratic_form (List.ofFn y))
      (fun i => a * forecast input i - 2 * c * input.covariance.times x i) x := by
  have hreturn := (hasGradient_expected x).const_mul a
  have hrisk := (RiskModel.hasGradient_quadratic_form x hpsd).const_mul c
  refine (hreturn.sub hrisk).congr (.of_forall fun _ => rfl) fun i => ?_
  simp only [Pi.sub_apply, Pi.smul_apply, smul_eq_mul]
  ring

/-- The ratio, away from zero volatility. -/
theorem hasGradient_sharpe (hpsd : input.covariance.at_.PosSemidef) (r : ℝ)
    (hvariance : 0 < input.covariance.quadratic_form (List.ofFn x)) {vol : ℝ}
    (heq : vol = Real.sqrt (input.covariance.quadratic_form (List.ofFn x))) :
    HasGradient
      (fun y => (expected (List.ofFn y) input - r) / Real.sqrt (input.covariance.quadratic_form (List.ofFn y)))
      (fun i => forecast input i / vol -
        (expected (List.ofFn x) input - r) * input.covariance.times x i / (vol * vol * vol)) x := by
  subst heq
  have hvol := (Real.sqrt_pos.mpr hvariance).ne'
  have hexcess := (hasGradient_expected x).sub (hasGradient_const r x)
  have hroot := (RiskModel.hasGradient_quadratic_form x hpsd).comp (Real.hasDerivAt_sqrt hvariance.ne')
  refine (hexcess.div hroot hvol).congr (.of_forall fun _ => rfl) fun i => ?_
  simp only [Pi.sub_apply, Pi.zero_apply, sub_zero, Pi.smul_apply, smul_eq_mul]
  field_simp

/-- The logarithms, away from where the clamps bind. -/
theorem hasGradient_parity (hpsd : input.covariance.at_.PosSemidef) (n : ℝ)
    (hvariance : 0 < input.covariance.quadratic_form (List.ofFn x)) (hpos : ∀ i, 0 < x i) :
    HasGradient
      (fun y => ∑ i, Real.log (y i) - 1 / 2 * n * Real.log (input.covariance.quadratic_form (List.ofFn y)))
      (fun i => 1 / x i - n * input.covariance.times x i / input.covariance.quadratic_form (List.ofFn x)) x := by
  have hlogs := hasGradient_sum_coordinates fun i => Real.hasDerivAt_log (hpos i).ne'
  have hrisk := (RiskModel.hasGradient_quadratic_form x hpsd).comp (Real.hasDerivAt_log hvariance.ne')
  refine (hlogs.sub (hrisk.const_mul (1 / 2 * n))).congr (.of_forall fun _ => rfl) fun i => ?_
  simp only [Pi.sub_apply, Pi.smul_apply, smul_eq_mul]
  field_simp

/-- The domain is open. -/
theorem Smooth.eventually (hpsd : input.covariance.at_.PosSemidef) (hsmooth : o.Smooth input x) :
    ∀ᶠ y in nhds x, o.Smooth input y := by
  have hvariance : ContinuousAt (fun y : Fin input.size → ℝ => input.covariance.quadratic_form (List.ofFn y)) x :=
    (RiskModel.hasGradient_quadratic_form x hpsd).continuousAt
  cases hkind : o.cfg.kind with
  | MaximizeSharpe =>
    simp only [Smooth, hkind] at hsmooth ⊢
    exact hvariance.sqrt.eventually_const_lt hsmooth
  | RiskParity =>
    simp only [Smooth, hkind] at hsmooth ⊢
    have hweights : ∀ᶠ y in nhds x, ∀ i, 1e-12 < y i :=
      Filter.eventually_all.mpr fun i => (continuousAt_apply i x).eventually_const_lt (hsmooth.2 i)
    exact (hvariance.eventually_const_lt hsmooth.1).and hweights
  | _ => exact .of_forall fun _ => by simp only [Smooth, hkind]

theorem sigma_w_eq (i : Fin input.size) :
    (if input.covariance.empty then List.replicate (List.ofFn x).length 0
      else input.covariance.multiply (List.ofFn x)).getD i 0 = input.covariance.times x i := by
  split
  case isTrue hempty =>
    have hsize : input.covariance.size = 0 := by simpa [RiskModel.empty] using hempty
    have hother : input.size ≠ input.covariance.size := by have := i.isLt; omega
    rw [RiskModel.times, input.covariance.fitted_other hother]
    simp
  case isFalse => exact input.covariance.multiply_getD x i

theorem forecast_eq (i : Fin input.size) :
    (if input.expected_returns.length = (List.ofFn x).length then input.expected_returns.getD i 0 else 0) =
      forecast input i := by
  rw [List.length_ofFn, forecast]

/-- Inside the domain every logarithm is taken. -/
theorem score_parity (hkind : o.cfg.kind = .RiskParity) {y : Fin input.size → ℝ} (hsmooth : o.Smooth input y) :
    o.score realLibm (List.ofFn y) input =
      ∑ i, Real.log (y i) - 1 / 2 * input.size * Real.log (input.covariance.quadratic_form (List.ofFn y)) := by
  simp only [Smooth, hkind] at hsmooth
  obtain ⟨hvariance, hweights⟩ := hsmooth
  have hdomain : (List.ofFn y).any (fun a => a ≤ 1e-12) = false := by
    simpa [List.any_eq_false, List.mem_ofFn] using hweights
  simp only [score, hkind, hdomain, realLibm, List.map_ofFn, List.sum_ofFn, List.length_ofFn,
    max_eq_left hvariance.le, half_eq]
  rfl

theorem hasGradient_score (hreads : o.Reads input) (hsmooth : o.Smooth input x) :
    HasGradient (fun y => o.score realLibm (List.ofFn y) input)
      (fun i => o.slope realLibm (List.ofFn x) input i) x := by
  have hutility := hasGradient_utility (x := x) hreads.psd
  have hnear := hsmooth.eventually hreads.psd
  cases hkind : o.cfg.kind with
  | MaximizeReturn =>
    simp only [score, slope, hkind, forecast_eq, sigma_w_eq, half_eq]
    refine (hutility 1 (1 / 2 * o.cfg.risk_aversion)).congr (.of_forall fun y => ?_) fun i => ?_ <;> ring
  | MaximizeSharpe =>
    simp only [Smooth, hkind] at hsmooth hnear
    have hvariance := Real.sqrt_pos.mp (lt_trans (by norm_num) hsmooth)
    have hsharpe := hasGradient_sharpe hreads.psd o.cfg.risk_free_rate hvariance rfl
    simp only [score, slope, hkind, forecast_eq, sigma_w_eq, realLibm,
      max_eq_right (RiskModel.quadratic_form_nonneg _ _)]
    exact hsharpe.congr (hnear.mono fun y hy => if_pos hy) fun i => (if_pos hsmooth).symm
  | MinimizeVariance =>
    simp only [score, slope, hkind, sigma_w_eq, two_eq]
    refine (hutility 0 1).congr (.of_forall fun y => ?_) fun i => ?_ <;> ring
  | MinimizeTrackingError =>
    have hactive := active_eq (hreads.benchmark hkind).1
    have hshifted := (RiskModel.hasGradient_quadratic_form (x - o.benchmark input) hreads.psd).shift
    simp only [score, slope, hkind, hactive, RiskModel.multiply_getD, two_eq]
    refine (hshifted.const_mul (-1)).congr (.of_forall fun y => ?_) fun i => ?_
    · ring
    · simp only [Pi.smul_apply, smul_eq_mul]
      ring
  | RiskParity =>
    have hscore := hnear.mono fun y hy => score_parity hkind hy
    simp only [Smooth, hkind] at hsmooth
    obtain ⟨hvariance, hweights⟩ := hsmooth
    have hpos : ∀ i, 0 < x i := fun i => lt_trans (by norm_num) (hweights i)
    have hparity := hasGradient_parity hreads.psd input.size (lt_trans (by norm_num) hvariance) hpos
    refine hparity.congr hscore fun i => ?_
    simp only [slope, hkind, sigma_w_eq]
    rw [getD_ofFn, max_eq_left (hweights i).le, max_eq_left hvariance.le, List.length_ofFn]
  | Kelly =>
    simp only [score, slope, hkind, forecast_eq, sigma_w_eq, half_eq]
    refine (hutility o.cfg.kelly_fraction (1 / 2)).congr (.of_forall fun y => ?_) fun i => ?_ <;> ring

theorem gradient_eq : o.gradient realLibm (List.ofFn x) input =
    .ok (List.ofFn fun i : Fin input.size => o.slope realLibm (List.ofFn x) input i) := by
  rw [gradient, if_neg (by simp)]
  refine congrArg Except.ok (List.ext_getElem (by simp) fun i hi _ => ?_)
  simp [is_finite]

/-- The analytic gradient is the gradient of the value. -/
theorem gradient_of_value (o : Objective ℝ) (input : SolverInput ℝ) (x : Fin input.size → ℝ)
    (hreads : o.Reads input) (hsmooth : o.Smooth input x) :
    ∃ (f : (Fin input.size → ℝ) → ℝ) (g : Fin input.size → ℝ),
      (∀ y, o.value realLibm (List.ofFn y) input = .ok (f y)) ∧
      o.gradient realLibm (List.ofFn x) input = .ok (List.ofFn g) ∧ HasGradient f g x := by
  refine ⟨fun y => o.score realLibm (List.ofFn y) input, _, fun y => ?_, gradient_eq, hasGradient_score hreads hsmooth⟩
  rw [value, if_neg (by simp)]
  simp [is_finite]

/-- Two instruments of unit variance, half of the book in each. -/
theorem gradient_of_value_halves :
    let input : SolverInput ℝ := { instruments := [0, 1], covariance := { size := 2, at_ := 1 } }
    let o : Objective ℝ := { cfg := { kind := .RiskParity } }
    let x : Fin input.size → ℝ := fun _ => 1 / 2
    ∃ (f : (Fin input.size → ℝ) → ℝ) (g : Fin input.size → ℝ),
      (∀ y, o.value realLibm (List.ofFn y) input = .ok (f y)) ∧
      o.gradient realLibm (List.ofFn x) input = .ok (List.ofFn g) ∧ HasGradient f g x := by
  intro input o x
  refine gradient_of_value o input x ⟨.inr rfl, Matrix.PosSemidef.one, fun hkind => by cases hkind⟩ ⟨?_, ?_⟩
  · have hvariance : input.covariance.quadratic_form [1 / 2, 1 / 2] = 1 / 2 := by
      rw [RiskModel.quadratic_form, if_neg (by simp [input])]
      change max 0 (∑ i : Fin 2, [1 / 2, 1 / 2].getD i 0 *
        ∑ j : Fin 2, (1 : SymmetricMatrix ℝ 2) i j * [1 / 2, 1 / 2].getD j 0) = 1 / 2
      norm_num [Fin.sum_univ_two, Matrix.one_apply]
    have hweights : List.ofFn x = [1 / 2, 1 / 2] := by simp [x, input, OptimizationInput.size]
    rw [hweights, hvariance]
    norm_num
  · intro i
    norm_num [x]

end Objective

end ptl.optimization
