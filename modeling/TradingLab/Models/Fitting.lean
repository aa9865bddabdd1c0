import Mathlib
import TradingLab.Gradients
import TradingLab.Gram
import TradingLab.Models.Linear

open Gradients Matrix

namespace ptl.models

/-- Training data that passed its checks. -/
structure Sample (K : Type) [Zero K] [LE K] (n p : Nat) where
  features : Matrix (Fin n) (Fin p) K
  targets : Fin n → K
  weights : Option (Fin n → K) := none
  weights_nonneg : ∀ w ∈ weights, ∀ i, 0 ≤ w i
  has_features : 0 < p
  determined : p < n

/-- What is used of the libraries. A factorisation may fail. -/
structure FitLibm (K : Type) where
  sqrt : K → K
  exp : K → K
  print : K → String
  solve : ∀ {ι : Type}, [Fintype ι] → [DecidableEq ι] → Matrix ι ι K → (ι → K) → Option (ι → K)

/-- The features, and the column of the intercept. -/
abbrev Column (p : Nat) (fit_intercept : Bool) : Type := Fin p ⊕ Fin (if fit_intercept then 1 else 0)

section Design

variable {K : Type} [Field K] [LE K] {n p : Nat} (fit_intercept : Bool)

/-- A column of ones for the intercept. -/
def Sample.design (data : Sample K n p) : Matrix (Fin n) (Column p fit_intercept) K :=
  fun r => Sum.elim (data.features r) fun _ => 1

/-- The slopes are penalised, the intercept is not. -/
def ridge (l2_penalty conditioning_epsilon : K) : Column p fit_intercept → K :=
  Sum.elim (fun _ => l2_penalty + conditioning_epsilon) fun _ => conditioning_epsilon

def intercept_of (beta : Column p fit_intercept → K) : K :=
  if h : 0 < if fit_intercept then 1 else 0 then beta (.inr ⟨0, h⟩) else 0

variable (data : Sample K n p)

/-- Times the weight of a row, if there are weights. -/
def sampled (i : Fin n) (v : K) : K :=
  match data.weights with
  | none => v
  | some w => v * w i

/-- The weight of a row, one where there are none. -/
def sample_weight (i : Fin n) : K := sampled data i 1

end Design

section Normal

variable {n p : Nat} {data : Sample ℝ n p}

theorem sampled_eq (i : Fin n) (v : ℝ) : sampled data i v = sample_weight data i * v := by
  unfold sample_weight sampled
  cases data.weights with
  | none => exact (one_mul v).symm
  | some w =>
    show v * w i = 1 * w i * v
    ring

theorem sample_weight_nonneg (i : Fin n) : 0 ≤ sample_weight data i := by
  unfold sample_weight sampled
  cases hweights : data.weights with
  | none => exact zero_le_one
  | some w => exact (data.weights_nonneg w hweights i).trans_eq (one_mul _).symm

/-- The matrix of normal equations is positive definite, whatever the data. -/
theorem posDef_normal {w : Fin n → ℝ} (hw : ∀ i, 0 ≤ w i) {fit_intercept : Bool} {l2_penalty conditioning_epsilon : ℝ}
    (hl2 : 0 ≤ l2_penalty) (heps : 0 < conditioning_epsilon) :
    (Gram.weighted w (data.design fit_intercept) +
      diagonal (ridge fit_intercept l2_penalty conditioning_epsilon)).PosDef := by
  have hridge : (diagonal (ridge (p := p) fit_intercept l2_penalty conditioning_epsilon)).PosDef := by
    refine .diagonal fun j => ?_
    cases j with
    | inl c => exact add_pos_of_nonneg_of_pos hl2 heps
    | inr c => exact heps
  exact hridge.posSemidef_add (Gram.posSemidef_weighted hw _)

/-- Factoring a positive definite matrix succeeds, and solves. -/
def FitLibm.Solves (m : FitLibm ℝ) : Prop :=
  ∀ {ι : Type} [Fintype ι] [DecidableEq ι] (A : Matrix ι ι ℝ) (b : ι → ℝ), A.PosDef →
    ∃ s, m.solve A b = some s ∧ A *ᵥ s = b

/-- A factorisation, by the inverse. -/
noncomputable def FitLibm.exact : FitLibm ℝ where
  sqrt := Real.sqrt
  exp := Real.exp
  print _ := ""
  solve A b :=
    have := Classical.propDecidable A.PosDef
    if A.PosDef then some (A⁻¹ *ᵥ b) else none

theorem FitLibm.exact_solves : FitLibm.exact.Solves := by
  intro ι _ _ A b hpos
  have hunit : IsUnit A.det := A.isUnit_iff_isUnit_det.mp hpos.isUnit
  exact ⟨A⁻¹ *ᵥ b, if_pos hpos, by rw [mulVec_mulVec, A.mul_nonsing_inv hunit, one_mulVec]⟩

/-- Two observations that one threshold separates. -/
def Sample.separated : Sample ℝ 2 1 where
  features := !![1; -1]
  targets := ![1, 0]
  weights_nonneg := by simp
  has_features := one_pos
  determined := Nat.one_lt_two

end Normal

/-! ### The line -/

/-- The parameters of a line. -/
structure LinearFit (K : Type) (p : Nat) where
  coef : Fin p → K
  intercept : K

namespace LinearRegression

section Fit

variable {K : Type} [Field K] [LinearOrder K] {n p : Nat}
variable (m : FitLibm K) (cfg : LinearConfig K) (data : Sample K n p)

/-- Times the root of the weight of a row: the ordinary equations then solve the weighted problem. -/
def rooted (i : Fin n) (v : K) : K :=
  match data.weights with
  | none => v
  | some w => v * m.sqrt (w i)

def xw : Matrix (Fin n) (Column p cfg.fit_intercept) K :=
  fun i j => rooted m data i (data.design cfg.fit_intercept i j)

def yw (i : Fin n) : K := rooted m data i (data.targets i)

def xtx : Matrix (Column p cfg.fit_intercept) (Column p cfg.fit_intercept) K :=
  (xw m cfg data)ᵀ * xw m cfg data + diagonal (ridge cfg.fit_intercept cfg.l2_penalty cfg.conditioning_epsilon)

def xty : Column p cfg.fit_intercept → K := (xw m cfg data)ᵀ *ᵥ yw m data

def fit : Result (LinearFit K p) :=
  if cfg.l2_penalty < 0 then .error (bad "l2 penalty cannot be negative")
  else
    match m.solve (xtx m cfg data) (xty m cfg data) with
    | none => .error (bad "normal equations are singular; increase the ridge penalty")
    | some beta =>
      if ¬ ∀ j, is_finite (beta j) then .error (bad "solver produced non-finite coefficients")
      else .ok { coef := fun c => beta (.inl c), intercept := intercept_of cfg.fit_intercept beta }

end Fit

variable {n p : Nat} {m : FitLibm ℝ} {cfg : LinearConfig ℝ} {data : Sample ℝ n p}

theorem rooted_mul (hsqrt : m.sqrt = Real.sqrt) (i : Fin n) (a b : ℝ) :
    rooted m data i a * rooted m data i b = sample_weight data i * a * b := by
  unfold rooted sample_weight sampled
  cases hweights : data.weights with
  | none =>
    show a * b = 1 * a * b
    ring
  | some w =>
    have hroot : √(w i) * √(w i) = w i := Real.mul_self_sqrt (data.weights_nonneg w hweights i)
    show a * m.sqrt (w i) * (b * m.sqrt (w i)) = 1 * w i * a * b
    rw [hsqrt]
    linear_combination a * b * hroot

variable (cfg data) in
/-- Products of scaled rows are weighted products. -/
theorem normal_eq (hsqrt : m.sqrt = Real.sqrt) :
    xtx m cfg data = Gram.weighted (sample_weight data) (data.design cfg.fit_intercept) +
        diagonal (ridge cfg.fit_intercept cfg.l2_penalty cfg.conditioning_epsilon) ∧
      xty m cfg data = (data.design cfg.fit_intercept)ᵀ *ᵥ (sample_weight data * data.targets) := by
  refine ⟨congrArg (· + _) ?_, ?_⟩
  · ext j k
    rw [Matrix.mul_apply]
    exact Finset.sum_congr rfl fun i _ => rooted_mul hsqrt i _ _
  · ext j
    show ∑ i, rooted m data i _ * rooted m data i _ =
      ∑ i, data.design cfg.fit_intercept i j * (sample_weight data i * _)
    refine Finset.sum_congr rfl fun i _ => ?_
    rw [rooted_mul hsqrt]
    ring

end LinearRegression

/-- A fit of validated data succeeds, and no other line loses less: its loss is that of the
weighted squares of the residuals, with the penalty of the slopes and what was added for
conditioning. -/
theorem linear_fit_sound {n p : Nat} (m : FitLibm ℝ) (hsqrt : m.sqrt = Real.sqrt) (hsolve : m.Solves)
    (cfg : LinearConfig ℝ) (hl2 : 0 ≤ cfg.l2_penalty) (heps : 0 < cfg.conditioning_epsilon) (data : Sample ℝ n p) :
    ∃ f beta, LinearRegression.fit m cfg data = .ok f ∧ (∀ c, f.coef c = beta (.inl c)) ∧
      f.intercept = intercept_of cfg.fit_intercept beta ∧ ∀ beta', beta' ≠ beta →
        let loss := Gram.loss (sample_weight data) (data.design cfg.fit_intercept) data.targets
          (ridge cfg.fit_intercept cfg.l2_penalty cfg.conditioning_epsilon)
        loss beta < loss beta' := by
  obtain ⟨hxtx, hxty⟩ := LinearRegression.normal_eq cfg data hsqrt
  have hpos : (Gram.weighted (sample_weight data) (data.design cfg.fit_intercept) + diagonal _).PosDef :=
    posDef_normal sample_weight_nonneg hl2 heps
  obtain ⟨beta, hbeta, hsolves⟩ := hsolve _ (LinearRegression.xty m cfg data) (hxtx ▸ hpos)
  have hfit : LinearRegression.fit m cfg data =
      .ok { coef := fun c => beta (.inl c), intercept := intercept_of cfg.fit_intercept beta } := by
    rw [LinearRegression.fit, if_neg (not_lt.mpr hl2), hbeta]
    exact if_neg (by simp)
  rw [hxtx, hxty] at hsolves
  exact ⟨_, beta, hfit, fun _ => rfl, rfl, fun beta' hne => Gram.loss_lt hpos hsolves hne⟩

theorem linear_fit_sound_separated :
    ∃ f, LinearRegression.fit .exact { l2_penalty := 1, conditioning_epsilon := 1 } .separated = .ok f := by
  obtain ⟨f, -, hfit, -⟩ := linear_fit_sound .exact rfl FitLibm.exact_solves
    { l2_penalty := 1, conditioning_epsilon := 1 } zero_le_one one_pos .separated
  exact ⟨f, hfit⟩


/-- The variables of the iteration. -/
structure Irls (K ι : Type) where
  beta : ι → K
  converged : Bool := false
  iterations : Nat := 0

/-- What a fit leaves behind. -/
structure LogisticFit (K : Type) (p : Nat) extends LinearFit K p where
  converged : Bool
  iterations : Nat

namespace LogisticRegression

section Fit

variable {K : Type} [Field K] [LinearOrder K] {n p : Nat}
variable (m : FitLibm K) (cfg : LogisticConfig K) (data : Sample K n p)

/-- With a negative exponent on both sides. -/
def stable_sigmoid (z : K) : K := if 0 ≤ z then 1 / (1 + m.exp (-z)) else m.exp z / (1 + m.exp z)

abbrev design : Matrix (Fin n) (Column p cfg.fit_intercept) K := data.design cfg.fit_intercept

variable (beta : Column p cfg.fit_intercept → K)

def mu (i : Fin n) : K := stable_sigmoid m ((design cfg data *ᵥ beta) i)

/-- Floored, so that separated classes leave no singular matrix. -/
def irls_weight (i : Fin n) : K := sampled data i (max (mu m cfg data beta i * (1 - mu m cfg data beta i)) 1e-10)

def residual (i : Fin n) : K := sampled data i (data.targets i - mu m cfg data beta i)

abbrev penalties : Column p cfg.fit_intercept → K :=
  ridge cfg.fit_intercept cfg.l2_penalty cfg.conditioning_epsilon

def hessian : Matrix (Column p cfg.fit_intercept) (Column p cfg.fit_intercept) K :=
  Gram.weighted (irls_weight m cfg data beta) (design cfg data) + diagonal (penalties cfg)

def gradient : Column p cfg.fit_intercept → K :=
  (design cfg data)ᵀ *ᵥ residual m cfg data beta -
    Sum.elim (fun c => cfg.l2_penalty * beta (.inl c)) fun _ => 0

/-- Iterations until one breaks or none is left. -/
def irls : Nat → Irls K (Column p cfg.fit_intercept) → Result (Irls K (Column p cfg.fit_intercept))
  | 0, st => .ok st
  | remaining + 1, st =>
    match m.solve (hessian m cfg data st.beta) (gradient m cfg data st.beta) with
    | none => .error (bad "logistic Hessian is singular; increase the l2 penalty")
    | some step =>
      if ¬ ∀ j, is_finite (step j) then .error (bad "logistic step is not finite")
      else
        let st := { st with beta := st.beta + step, iterations := st.iterations + 1 }
        if ∀ j, |step j| < cfg.tolerance then .ok { st with converged := true } else irls remaining st

def positives : Nat := (List.finRange n).countP fun i => 0.5 < data.targets i

def fit : Result (LogisticFit K p) :=
  match (List.finRange n).find? fun i => data.targets i ≠ 0 ∧ data.targets i ≠ 1 with
  | some i => .error (bad "logistic targets must be exactly 0 or 1" (m.print (data.targets i)))
  | none =>
    if positives data = 0 ∨ positives data = n then
      .error (bad "logistic regression needs both classes present in training")
    else
      match irls m cfg data cfg.max_iterations.toNat { beta := 0 } with
      | .error err => .error err
      | .ok st =>
        if ¬ ∀ j, is_finite (st.beta j) then .error (bad "logistic coefficients are not finite")
        else .ok {
          coef := fun c => st.beta (.inl c)
          intercept := intercept_of cfg.fit_intercept st.beta
          converged := st.converged
          iterations := st.iterations }

end Fit

/-! ### The likelihood -/

/-- The logarithm of the likelihood of one target, as a function of the sum of its row. -/
noncomputable def log_likelihood (y z : ℝ) : ℝ :=
  y * Real.log (Real.sigmoid z) + (1 - y) * Real.log (1 - Real.sigmoid z)

theorem hasDerivAt_log_likelihood (y z : ℝ) : HasDerivAt (log_likelihood y) (y - Real.sigmoid z) z := by
  have hpos := Real.sigmoid_pos z
  have hlt : 0 < 1 - Real.sigmoid z := sub_pos.mpr (Real.sigmoid_lt_one z)
  have hfirst := ((Real.hasDerivAt_sigmoid z).log hpos.ne').const_mul y
  have hsecond := (((Real.hasDerivAt_sigmoid z).const_sub 1).log hlt.ne').const_mul (1 - y)
  refine (hfirst.add hsecond).congr_deriv ?_
  field_simp
  ring

/-- A function lies below its tangents where its derivative falls. -/
theorem le_tangent {f f' : ℝ → ℝ} (hf : ∀ z, HasDerivAt f (f' z) z) (hfalls : Antitone f') (z z' : ℝ) :
    f z' ≤ f z + f' z * (z' - z) := by
  have hconcave : ConcaveOn ℝ Set.univ f := by
    refine Antitone.concaveOn_univ_of_deriv (fun z => (hf z).differentiableAt) ?_
    rw [show deriv f = f' from funext fun z => (hf z).deriv]
    exact hfalls
  rcases lt_trichotomy z z' with hlt | rfl | hgt
  · have hslope := hconcave.slope_le_of_hasDerivAt (Set.mem_univ z) (Set.mem_univ z') hlt (hf z)
    rw [slope_def_field, div_le_iff₀ (sub_pos.mpr hlt)] at hslope
    linarith only [hslope]
  · simp
  · have hslope := hconcave.le_slope_of_hasDerivAt (Set.mem_univ z') (Set.mem_univ z) hgt (hf z)
    rw [slope_def_field, le_div_iff₀ (sub_pos.mpr hgt)] at hslope
    linarith only [hslope]

theorem log_likelihood_le (y z z' : ℝ) :
    log_likelihood y z' ≤ log_likelihood y z + (y - Real.sigmoid z) * (z' - z) :=
  le_tangent (hasDerivAt_log_likelihood y) (fun _ _ hle => sub_le_sub_left (Real.sigmoid_monotone hle) y) z z'

section Real

variable {n p : Nat} (cfg : LogisticConfig ℝ) (data : Sample ℝ n p)

/-- What the fit is after: the likelihood of the sample, less the penalty of the slopes. -/
noncomputable def penalised (beta : Column p cfg.fit_intercept → ℝ) : ℝ :=
  ∑ i, sample_weight data i * log_likelihood (data.targets i) ((design cfg data *ᵥ beta) i) -
    0.5 * cfg.l2_penalty * ∑ c : Fin p, beta (.inl c) ^ 2

variable {m : FitLibm ℝ} (hexp : m.exp = Real.exp) {cfg data}

include hexp in
/-- Both branches are one function. -/
theorem stable_sigmoid_eq (z : ℝ) : stable_sigmoid m z = Real.sigmoid z := by
  rw [stable_sigmoid, hexp, Real.sigmoid_def]
  split
  · exact one_div _
  · rw [Real.exp_neg]
    field_simp
    ring

include hexp in
theorem mu_eq (beta : Column p cfg.fit_intercept → ℝ) (i : Fin n) :
    mu m cfg data beta i = Real.sigmoid ((design cfg data *ᵥ beta) i) := stable_sigmoid_eq hexp _

include hexp in
theorem gradient_apply (beta : Column p cfg.fit_intercept → ℝ) (j : Column p cfg.fit_intercept) :
    gradient m cfg data beta j =
      ∑ i, sample_weight data i *
        ((data.targets i - Real.sigmoid ((design cfg data *ᵥ beta) i)) * design cfg data i j) -
      Sum.elim (fun c => cfg.l2_penalty * beta (.inl c)) (fun _ => 0) j := by
  rw [gradient, Pi.sub_apply]
  refine congrArg (· - _) ?_
  show ∑ i : Fin n, (design cfg data)ᵀ j i * residual m cfg data beta i = _
  refine Finset.sum_congr rfl fun i _ => ?_
  rw [residual, sampled_eq, mu_eq hexp, transpose_apply]
  ring

include hexp in
/-- What the iteration takes for the gradient is that of the penalised likelihood. -/
theorem hasGradient_penalised (beta : Column p cfg.fit_intercept → ℝ) :
    HasGradient (penalised cfg data) (gradient m cfg data beta) beta := by
  have hrow : ∀ i, HasGradient (fun b => (design cfg data *ᵥ b) i) (design cfg data i) beta := fun i =>
    (hasGradient_linear (design cfg data i) beta).congr (.of_forall fun b => dotProduct_comm _ _) fun _ => rfl
  have hterm := fun i (_ : i ∈ Finset.univ) =>
    ((hrow i).comp (hasDerivAt_log_likelihood (data.targets i) _)).const_mul (sample_weight data i)
  have hslope := fun c (_ : c ∈ Finset.univ) =>
    (hasGradient_coordinate (Sum.inl c : Column p cfg.fit_intercept) beta).comp (hasDerivAt_pow 2 (beta (.inl c)))
  refine ((HasGradient.sum hterm).sub ((HasGradient.sum hslope).const_mul (0.5 * cfg.l2_penalty))).congr
    (.of_forall fun _ => rfl) fun j => ?_
  rw [gradient_apply hexp]
  simp only [Pi.sub_apply, Pi.smul_apply, Finset.sum_apply, smul_eq_mul]
  refine congrArg (_ - ·) ?_
  cases j with
  | inl c =>
    simp only [Pi.single_apply, Sum.inl.injEq, mul_ite, mul_one, mul_zero, Finset.sum_ite_eq, Finset.mem_univ, if_true,
      Sum.elim_inl]
    norm_num
    ring
  | inr c => simp

include hexp in
/-- The penalised likelihood lies below its tangents. -/
theorem penalised_le (hl2 : 0 ≤ cfg.l2_penalty) (beta beta' : Column p cfg.fit_intercept → ℝ) :
    penalised cfg data beta' ≤ penalised cfg data beta + gradient m cfg data beta ⬝ᵥ (beta' - beta) := by
  have hrows : ∑ i, sample_weight data i * log_likelihood (data.targets i) ((design cfg data *ᵥ beta') i) ≤
      ∑ i, sample_weight data i * log_likelihood (data.targets i) ((design cfg data *ᵥ beta) i) +
        ∑ i, sample_weight data i * ((data.targets i - Real.sigmoid ((design cfg data *ᵥ beta) i)) *
          ((design cfg data *ᵥ beta') i - (design cfg data *ᵥ beta) i)) := by
    rw [← Finset.sum_add_distrib]
    refine Finset.sum_le_sum fun i _ => ?_
    rw [← mul_add]
    exact mul_le_mul_of_nonneg_left (log_likelihood_le _ _ _) (sample_weight_nonneg i)
  have hslopes : ∑ c : Fin p, beta (.inl c) ^ 2 + 2 * ∑ c : Fin p, beta (.inl c) * (beta' (.inl c) - beta (.inl c)) ≤
      ∑ c : Fin p, beta' (.inl c) ^ 2 := by
    rw [Finset.mul_sum, ← Finset.sum_add_distrib]
    refine Finset.sum_le_sum fun c _ => ?_
    linarith only [sq_nonneg (beta' (.inl c) - beta (.inl c))]
  have hdot : gradient m cfg data beta ⬝ᵥ (beta' - beta) =
      ∑ i, sample_weight data i * ((data.targets i - Real.sigmoid ((design cfg data *ᵥ beta) i)) *
        ((design cfg data *ᵥ beta') i - (design cfg data *ᵥ beta) i)) -
      cfg.l2_penalty * ∑ c : Fin p, beta (.inl c) * (beta' (.inl c) - beta (.inl c)) := by
    rw [gradient, sub_dotProduct, mulVec_transpose, ← dotProduct_mulVec, mulVec_sub]
    refine congrArg₂ (· - ·) (Finset.sum_congr rfl fun i _ => ?_) ?_
    · rw [residual, sampled_eq, mu_eq hexp, Pi.sub_apply, mul_assoc]
    · rw [dotProduct, Fintype.sum_sum_type, Finset.mul_sum]
      simp [mul_assoc]
  have hpenalty := mul_le_mul_of_nonneg_left hslopes (div_nonneg hl2 zero_le_two)
  rw [hdot, penalised, penalised]
  linarith only [hrows, hpenalty]

/-- The matrix of a step is positive definite, whatever the data. -/
theorem posDef_hessian (hl2 : 0 ≤ cfg.l2_penalty) (heps : 0 < cfg.conditioning_epsilon)
    (beta : Column p cfg.fit_intercept → ℝ) : (hessian m cfg data beta).PosDef := by
  refine posDef_normal (fun i => ?_) hl2 heps
  rw [irls_weight, sampled_eq]
  exact mul_nonneg (sample_weight_nonneg i) (le_max_of_le_right (by norm_num))

include hexp in
/-- Where no weight is floored, that matrix is the curvature of the penalised likelihood, and
what was added for conditioning. -/
theorem hasGradient_gradient (beta : Column p cfg.fit_intercept → ℝ)
    (hfree : ∀ i, 1e-10 ≤ mu m cfg data beta i * (1 - mu m cfg data beta i)) (j : Column p cfg.fit_intercept) :
    HasGradient (fun b => gradient m cfg data b j)
      (fun k => -(hessian m cfg data beta - cfg.conditioning_epsilon • 1) j k) beta := by
  have hrow : ∀ i, HasGradient (fun b => (design cfg data *ᵥ b) i) (design cfg data i) beta := fun i =>
    (hasGradient_linear (design cfg data i) beta).congr (.of_forall fun b => dotProduct_comm _ _) fun _ => rfl
  have hterm := fun i (_ : i ∈ Finset.univ) => ((hrow i).comp
    ((Real.hasDerivAt_sigmoid _).const_sub (data.targets i))).const_mul (sample_weight data i * design cfg data i j)
  have hpenalty : HasGradient (fun b : Column p cfg.fit_intercept → ℝ =>
      Sum.elim (fun c => cfg.l2_penalty * b (.inl c)) (fun _ => 0) j)
      (fun k => (diagonal (penalties cfg) - cfg.conditioning_epsilon • 1 : Matrix _ _ ℝ) j k) beta := by
    cases j with
    | inl c =>
      refine ((hasGradient_coordinate (Sum.inl c) beta).const_mul cfg.l2_penalty).congr (.of_forall fun _ => rfl)
        fun k => ?_
      rw [Pi.smul_apply, Pi.single_apply, Matrix.sub_apply, Matrix.smul_apply, diagonal_apply, one_apply, penalties,
        ridge]
      by_cases hsame : k = Sum.inl c
      · rw [if_pos hsame, if_pos hsame.symm, if_pos hsame.symm]
        simp
      · rw [if_neg hsame, if_neg (Ne.symm hsame), if_neg (Ne.symm hsame)]
        simp
    | inr c =>
      refine (hasGradient_const 0 beta).congr (.of_forall fun _ => rfl) fun k => ?_
      rw [Pi.zero_apply, Matrix.sub_apply, Matrix.smul_apply, diagonal_apply, one_apply, penalties, ridge]
      split <;> simp
  refine ((HasGradient.sum hterm).sub hpenalty).congr (.of_forall fun b => ?_) fun k => ?_
  · show gradient m cfg data b j = _
    rw [gradient_apply hexp]
    refine congrArg (· - _) (Finset.sum_congr rfl fun i _ => ?_)
    ring
  · have hweight : ∀ i, irls_weight m cfg data beta i = sample_weight data i *
        (Real.sigmoid ((design cfg data *ᵥ beta) i) * (1 - Real.sigmoid ((design cfg data *ᵥ beta) i))) := by
      intro i
      rw [irls_weight, sampled_eq, max_eq_left (hfree i), mu_eq hexp]
    have hentry : (hessian m cfg data beta - cfg.conditioning_epsilon • 1) j k =
        ∑ i, irls_weight m cfg data beta i * design cfg data i j * design cfg data i k +
          (diagonal (penalties cfg) - cfg.conditioning_epsilon • 1 : Matrix _ _ ℝ) j k := by
      rw [hessian, add_sub_assoc]
      rfl
    rw [hentry, Pi.sub_apply, Finset.sum_apply, neg_add, ← sub_eq_add_neg, ← Finset.sum_neg_distrib]
    refine congrArg (· - _) (Finset.sum_congr rfl fun i _ => ?_)
    rw [hweight]
    simp only [Pi.smul_apply, smul_eq_mul]
    ring

include hexp in
/-- Only a maximum has no gradient. -/
theorem maximal_iff (hl2 : 0 ≤ cfg.l2_penalty) (beta : Column p cfg.fit_intercept → ℝ) :
    (∀ beta', penalised cfg data beta' ≤ penalised cfg data beta) ↔ gradient m cfg data beta = 0 := by
  constructor
  · exact (hasGradient_penalised hexp beta).eq_zero_of_max
  · intro hzero beta'
    have hle : penalised cfg data beta' ≤ _ := penalised_le hexp hl2 beta beta'
    rwa [hzero, zero_dotProduct, add_zero] at hle

end Real

end LogisticRegression

/-- Every step of the iteration, from wherever it is taken: its direction is the gradient of
the penalised likelihood under a positive definite matrix, which is the curvature where no
weight is floored. There is one step, it stands still at the maxima only, and anywhere else
the likelihood rises along it. -/
theorem irls_step_sound {n p : Nat} (m : FitLibm ℝ) (hexp : m.exp = Real.exp) (cfg : LogisticConfig ℝ)
    (hl2 : 0 ≤ cfg.l2_penalty) (heps : 0 < cfg.conditioning_epsilon) (data : Sample ℝ n p)
    (beta : Column p cfg.fit_intercept → ℝ) :
    HasGradient (LogisticRegression.penalised cfg data) (LogisticRegression.gradient m cfg data beta) beta ∧
    (LogisticRegression.hessian m cfg data beta).PosDef ∧
    ((∀ i, 1e-10 ≤ LogisticRegression.mu m cfg data beta i * (1 - LogisticRegression.mu m cfg data beta i)) →
      ∀ j, HasGradient (fun b => LogisticRegression.gradient m cfg data b j)
        (fun k => -(LogisticRegression.hessian m cfg data beta - cfg.conditioning_epsilon • 1) j k) beta) ∧
    ∃! step, LogisticRegression.hessian m cfg data beta *ᵥ step = LogisticRegression.gradient m cfg data beta ∧
      (step = 0 ↔ ∀ beta', LogisticRegression.penalised cfg data beta' ≤ LogisticRegression.penalised cfg data beta) ∧
      (step ≠ 0 → ∃ reach > (0 : ℝ), ∀ t, 0 < t → t < reach →
        LogisticRegression.penalised cfg data beta < LogisticRegression.penalised cfg data (beta + t • step)) := by
  have hgradient : HasGradient (LogisticRegression.penalised cfg data) (LogisticRegression.gradient m cfg data beta)
      beta := LogisticRegression.hasGradient_penalised hexp beta
  have hpos : (LogisticRegression.hessian m cfg data beta).PosDef := LogisticRegression.posDef_hessian hl2 heps beta
  refine ⟨hgradient, hpos, LogisticRegression.hasGradient_gradient hexp beta, ?_⟩
  obtain ⟨step, hsolves, hunique⟩ := Gram.existsUnique_solution hpos (LogisticRegression.gradient m cfg data beta)
  refine ⟨step, ⟨hsolves, ?_, fun hmoves => ?_⟩, fun step' h => hunique step' h.1⟩
  · rw [LogisticRegression.maximal_iff hexp hl2]
    refine ⟨?_, fun hzero => ?_⟩
    · rintro rfl
      rw [← hsolves, mulVec_zero]
    · exact (hunique 0 ((mulVec_zero _).trans hzero.symm)).symm
  · exact hgradient.rises (Gram.dot_pos_of_solution hpos hsolves hmoves)

noncomputable def LogisticConfig.plain : LogisticConfig ℝ where
  l2_penalty := 0
  tolerance := 1e-8
  conditioning_epsilon := 1e-10

theorem irls_step_sound_separated : ∃! step,
    LogisticRegression.hessian .exact .plain .separated 0 *ᵥ step =
      LogisticRegression.gradient .exact .plain .separated 0 ∧
    (step = 0 ↔ ∀ beta', LogisticRegression.penalised .plain .separated beta' ≤
      LogisticRegression.penalised .plain .separated 0) ∧
    (step ≠ 0 → ∃ reach > (0 : ℝ), ∀ t, 0 < t → t < reach →
      LogisticRegression.penalised .plain .separated 0 <
        LogisticRegression.penalised .plain .separated (0 + t • step)) :=
  (irls_step_sound .exact rfl .plain le_rfl (by norm_num [LogisticConfig.plain]) .separated 0).2.2.2

/-! ### A whole fit -/

namespace LogisticRegression

section Run

variable {n p : Nat} (m : FitLibm ℝ) (cfg : LogisticConfig ℝ) (data : Sample ℝ n p)

/-- What so many steps from zero come to. -/
inductive Iterated : Nat → (Column p cfg.fit_intercept → ℝ) → Prop where
  | start : Iterated 0 0
  | step {k : Nat} {beta s : Column p cfg.fit_intercept → ℝ} (hbefore : Iterated k beta)
      (hsolves : hessian m cfg data beta *ᵥ s = gradient m cfg data beta) : Iterated (k + 1) (beta + s)

/-- The last step was within the tolerance. -/
def Settled (beta : Column p cfg.fit_intercept → ℝ) : Prop :=
  ∃ before s, beta = before + s ∧ hessian m cfg data before *ᵥ s = gradient m cfg data before ∧
    ∀ j, |s j| < cfg.tolerance

/-- What a run of the iteration leaves. -/
structure Ran (most : Nat) (st : Irls ℝ (Column p cfg.fit_intercept)) : Prop where
  iterated : Iterated m cfg data st.iterations st.beta
  iterations_le : st.iterations ≤ most
  stopped : st.converged = false → st.iterations = most
  settled : st.converged = true → Settled m cfg data st.beta

variable {m cfg data}

/-- The iteration never fails. -/
theorem irls_ran (hl2 : 0 ≤ cfg.l2_penalty) (heps : 0 < cfg.conditioning_epsilon) (hsolve : m.Solves) (remaining : Nat)
    (st : Irls ℝ (Column p cfg.fit_intercept)) (hiterated : Iterated m cfg data st.iterations st.beta)
    (hgoing : st.converged = false) :
    ∃ out, irls m cfg data remaining st = .ok out ∧ Ran m cfg data (st.iterations + remaining) out := by
  induction remaining generalizing st with
  | zero => exact ⟨st, rfl, hiterated, le_rfl, fun _ => rfl, fun hdone => absurd (hgoing.symm.trans hdone) nofun⟩
  | succ remaining ih =>
    obtain ⟨step, hstep, hsolves⟩ :=
      hsolve _ (gradient m cfg data st.beta) (posDef_hessian hl2 heps st.beta)
    have hnext : Iterated m cfg data (st.iterations + 1) (st.beta + step) := .step hiterated hsolves
    unfold irls
    rw [hstep]
    dsimp only
    rw [if_neg (by simp)]
    split
    · rename_i hsmall
      exact ⟨_, rfl, hnext, by simp, nofun, fun _ => ⟨st.beta, step, rfl, hsolves, hsmall⟩⟩
    · obtain ⟨out, hout, hran⟩ := ih { st with
        beta := st.beta + step, iterations := st.iterations + 1 } hnext hgoing
      refine ⟨out, hout, hran.iterated, hran.iterations_le.trans ?_, fun hstopped => ?_, hran.settled⟩
      · exact (Nat.succ_add_eq_add_succ _ _).le
      · exact (hran.stopped hstopped).trans (Nat.succ_add_eq_add_succ _ _)

theorem positives_eq_zero_iff (hbinary : ∀ i, data.targets i = 0 ∨ data.targets i = 1) :
    positives data = 0 ↔ ¬ ∃ i, data.targets i = 1 := by
  rw [positives, List.countP_eq_zero]
  simp only [List.mem_finRange, true_implies, decide_eq_true_eq, not_exists]
  refine forall_congr' fun i => not_congr ?_
  rcases hbinary i with h | h <;> norm_num [h]

theorem positives_eq_iff (hbinary : ∀ i, data.targets i = 0 ∨ data.targets i = 1) :
    positives data = n ↔ ¬ ∃ i, data.targets i = 0 := by
  have hlength : positives data = n ↔ positives data = (List.finRange n).length := by rw [List.length_finRange]
  rw [hlength, positives, List.countP_eq_length]
  simp only [List.mem_finRange, true_implies, decide_eq_true_eq, not_exists]
  refine forall_congr' fun i => ?_
  rcases hbinary i with h | h <;> norm_num [h]

/-- A fit whose iteration comes to an end is decided by its targets. -/
theorem fit_of_irls {out : Irls ℝ (Column p cfg.fit_intercept)}
    (hout : irls m cfg data cfg.max_iterations.toNat { beta := 0 } = .ok out) :
    fit m cfg data =
      match (List.finRange n).find? fun i => data.targets i ≠ 0 ∧ data.targets i ≠ 1 with
      | some i => .error (bad "logistic targets must be exactly 0 or 1" (m.print (data.targets i)))
      | none =>
        if positives data = 0 ∨ positives data = n then
          .error (bad "logistic regression needs both classes present in training")
        else .ok {
          coef := fun c => out.beta (.inl c)
          intercept := intercept_of cfg.fit_intercept out.beta
          converged := out.converged
          iterations := out.iterations } := by
  unfold fit
  simp only [hout, is_finite_eq_true, implies_true, not_true_eq_false, if_false]

end Run

end LogisticRegression

/-- A fit succeeds exactly for targets of zero and one, both of which occur. It takes no more
steps than allowed, each of them the one that solves its system, and says whether the last
was within the tolerance. -/
theorem logistic_fit_sound {n p : Nat} (m : FitLibm ℝ) (cfg : LogisticConfig ℝ) (hl2 : 0 ≤ cfg.l2_penalty)
    (heps : 0 < cfg.conditioning_epsilon) (hsolve : m.Solves) (data : Sample ℝ n p) :
    ((∃ f, LogisticRegression.fit m cfg data = .ok f) ↔
      (∀ i, data.targets i = 0 ∨ data.targets i = 1) ∧ (∃ i, data.targets i = 0) ∧ ∃ i, data.targets i = 1) ∧
    ∀ f, LogisticRegression.fit m cfg data = .ok f →
      ∃ beta, LogisticRegression.Iterated m cfg data f.iterations beta ∧ (∀ c, f.coef c = beta (.inl c)) ∧
        f.intercept = intercept_of cfg.fit_intercept beta ∧ f.iterations ≤ cfg.max_iterations.toNat ∧
        (f.converged = false → f.iterations = cfg.max_iterations.toNat) ∧
        (f.converged = true → LogisticRegression.Settled m cfg data beta) := by
  obtain ⟨out, hout, hran⟩ : ∃ out,
      LogisticRegression.irls m cfg data cfg.max_iterations.toNat { beta := 0 } = .ok out ∧
      LogisticRegression.Ran m cfg data (0 + cfg.max_iterations.toNat) out :=
    LogisticRegression.irls_ran hl2 heps hsolve cfg.max_iterations.toNat _ .start rfl
  rw [Nat.zero_add] at hran
  rw [LogisticRegression.fit_of_irls hout]
  split
  · rename_i i hother
    have hneither := List.find?_some hother
    simp only [decide_eq_true_eq] at hneither
    refine ⟨iff_of_false (by simp) fun hall => ?_, by simp⟩
    exact (hall.1 i).elim hneither.1 hneither.2
  · rename_i hnone
    have hbinary : ∀ i, data.targets i = 0 ∨ data.targets i = 1 := by
      intro i
      have hfits := List.find?_eq_none.mp hnone i (List.mem_finRange i)
      simp only [decide_eq_true_eq, not_and_or, not_not] at hfits
      exact hfits
    split
    · rename_i hmissing
      rw [LogisticRegression.positives_eq_zero_iff hbinary, LogisticRegression.positives_eq_iff hbinary] at hmissing
      refine ⟨iff_of_false (by simp) fun hall => ?_, by simp⟩
      exact hmissing.elim (· hall.2.2) (· hall.2.1)
    · rename_i hboth
      rw [LogisticRegression.positives_eq_zero_iff hbinary, LogisticRegression.positives_eq_iff hbinary] at hboth
      simp only [not_or, not_not] at hboth
      refine ⟨iff_of_true ⟨_, rfl⟩ ⟨hbinary, hboth.2, hboth.1⟩, fun f hf => ?_⟩
      cases hf
      exact ⟨out.beta, hran.iterated, fun _ => rfl, rfl, hran.iterations_le, hran.stopped, hran.settled⟩

theorem logistic_fit_sound_separated : ∃ f, LogisticRegression.fit .exact .plain .separated = .ok f := by
  refine (logistic_fit_sound .exact .plain le_rfl (by norm_num [LogisticConfig.plain]) FitLibm.exact_solves
    .separated).1.mpr ⟨fun i => ?_, ⟨1, rfl⟩, ⟨0, rfl⟩⟩
  fin_cases i
  · exact .inr rfl
  · exact .inl rfl

end ptl.models
