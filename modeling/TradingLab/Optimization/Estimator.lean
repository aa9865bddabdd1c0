import Mathlib
import TradingLab.Gram
import TradingLab.Optimization.Covariance

open Matrix

namespace ptl.optimization

inductive CovarianceMethod where
  | Sample
  | Rolling
  | Ewma
  | Shrinkage
  | Identity
  deriving DecidableEq, Repr

structure CovarianceConfig (K : Type) [Field K] where
  method : CovarianceMethod := .Shrinkage
  window : Nat := 0
  ewma_lambda : K := 0.94
  shrinkage_intensity : K := -1
  min_eigenvalue_ratio : K := 1e-8
  annualization : K := 1
  min_observations_ratio : K := 1.5

structure CovarianceDiagnostics (K : Type) [Field K] where
  observations : Nat := 0
  assets : Nat := 0
  degraded : Bool := false
  applied_shrinkage : K := 0
  psd_repaired : Bool := false
  smallest_eigenvalue_before : K := 0

section Model

variable {K : Type} [Field K] [LinearOrder K] {used assets : Nat}

namespace CovarianceConfig

variable (cfg : CovarianceConfig K)

def first_row (rows : Nat) : Nat := if 0 < cfg.window ∧ cfg.window < rows then rows - cfg.window else 0

def degrades (used assets : Nat) : Bool :=
  cfg.method ≠ .Identity ∧ 1 < assets ∧ (used : K) / (assets : K) < cfg.min_observations_ratio

/-- The method that is used, which may be another than the one asked for. -/
def used_method (used assets : Nat) : CovarianceMethod :=
  if cfg.degrades used assets then .Identity else cfg.method

/-- The most recent row gets the largest weight, where rows are not all the same. -/
def weight (used assets : Nat) (r : Fin used) : K :=
  if cfg.used_method used assets = .Ewma then cfg.ewma_lambda ^ (used - 1 - r.val) else 1

def weight_sum (used assets : Nat) : K :=
  if cfg.used_method used assets = .Ewma then ∑ r, cfg.weight used assets r else used

def denominator (used assets : Nat) : K :=
  if cfg.used_method used assets = .Ewma then cfg.weight_sum used assets else cfg.weight_sum used assets - 1

def clamp (v lo hi : K) : K := if v < lo then lo else if hi < v then hi else v

def intensity (used assets : Nat) : K :=
  let asked :=
    if cfg.shrinkage_intensity < 0 then clamp ((assets : K) / ((used : K) + (assets : K))) 0 1
    else cfg.shrinkage_intensity
  clamp asked 0 1

/-- Shrinkage that is applied, none for one asset or by another method. -/
def applied (used assets : Nat) : K :=
  if cfg.used_method used assets = .Shrinkage ∧ 1 < assets then cfg.intensity used assets else 0

end CovarianceConfig

/-- The last rows of a buffer. -/
def trailing (observations : List K) (first_row used assets : Nat) : Matrix (Fin used) (Fin assets) K :=
  fun r c => observations.getD ((first_row + r.val) * assets + c.val) 0

variable (cfg : CovarianceConfig K) (x : Matrix (Fin used) (Fin assets) K)

def mean (c : Fin assets) : K :=
  (∑ r, cfg.weight used assets r * x r c) / cfg.weight_sum used assets

/-- Weighted products of deviations. A diagonal model has no others than squares. -/
def moments : SymmetricMatrix K assets :=
  SymmetricMatrix.set_symmetric fun i j =>
    if cfg.used_method used assets = .Identity ∧ i ≠ j then 0
    else
      (∑ r, cfg.weight used assets r * (x r i - mean cfg x i) * (x r j - mean cfg x j)) /
        cfg.denominator used assets

def mean_variance (cov : SymmetricMatrix K assets) : K := (∑ i, cov i i) / (assets : K)

variable (used) in
/-- Towards a scaled identity. -/
def shrunk (cov : SymmetricMatrix K assets) : SymmetricMatrix K assets :=
  if cfg.used_method used assets = .Shrinkage ∧ 1 < assets then
    let intensity := cfg.intensity used assets
    SymmetricMatrix.set_symmetric fun i j =>
      (1 - intensity) * cov i j + intensity * (if i = j then mean_variance cov else 0)
  else cov

def annualized (cov : SymmetricMatrix K assets) : SymmetricMatrix K assets :=
  if cfg.annualization ≠ 1 ∧ 0 < cfg.annualization then
    SymmetricMatrix.set_symmetric fun i j => cov i j * cfg.annualization
  else cov

/-- What the repair is given. -/
def unrepaired : SymmetricMatrix K assets := annualized cfg (shrunk used cfg (moments cfg x))

def floor (cov : SymmetricMatrix K assets) : K := max 1e-14 (mean_variance cov * cfg.min_eigenvalue_ratio)

variable (sqrt : K → K)

/-- The estimate over a window, with the diagnostics it leaves behind. Exact numbers are
finite. -/
def estimate_window : CovarianceDiagnostics K × Result (SymmetricMatrix K assets) :=
  let counted : CovarianceDiagnostics K := { observations := used, assets }
  if used < 2 then (counted, .error (bad "covariance needs at least two observations in the window"))
  else
    let degraded := { counted with degraded := cfg.degrades used assets }
    if cfg.weight_sum used assets ≤ 0 then (degraded, .error (bad "observation weights sum to zero"))
    else if cfg.denominator used assets ≤ 0 then
      (degraded, .error (bad "covariance denominator is not positive"))
    else
      let blended := { degraded with applied_shrinkage := cfg.applied used assets }
      let cov := unrepaired cfg x
      match enforce_psd sqrt cov (floor cfg cov) with
      | .error e => (blended, .error e)
      | .ok r =>
        ({ blended with psd_repaired := r.repaired, smallest_eigenvalue_before := r.smallest }, .ok r.matrix)

/-- Rows are time steps, in order, and columns are assets. -/
def estimate (observations : List K) (rows assets : Nat) :
    CovarianceDiagnostics K × Result (SymmetricMatrix K assets) :=
  if assets = 0 then ({ assets }, .error (bad "covariance needs at least one asset"))
  else if rows = 0 then ({ assets }, .error (bad "covariance needs at least one observation"))
  else if observations.length ≠ rows * assets then
    ({ assets },
      .error (bad s!"observation buffer is {observations.length} but {rows}x{assets} was declared"))
  else
    let first_row := cfg.first_row rows
    estimate_window cfg (trailing observations first_row (rows - first_row) assets) sqrt

/-- What a return series has for variance, with the weights of the estimate. -/
def series_variance (assets : Nat) (y : Fin used → K) : K :=
  let centre := (∑ r, cfg.weight used assets r * y r) / cfg.weight_sum used assets
  (∑ r, cfg.weight used assets r * (y r - centre) ^ 2) / cfg.denominator used assets

/-- The variance of what an allocation would have returned, each asset on its own where
correlations are not estimated. -/
def portfolio_variance (w : Fin assets → K) : K :=
  if cfg.used_method used assets = .Identity then
    ∑ i, w i ^ 2 * series_variance cfg assets fun r => x r i
  else series_variance cfg assets (x *ᵥ w)

def average_variance : K := (∑ i, series_variance cfg assets fun r => x r i) / (assets : K)

/-- The factor of a year, where there is one. -/
def CovarianceConfig.scale : K := if 0 < cfg.annualization then cfg.annualization else 1

def deviations : Matrix (Fin used) (Fin assets) K := fun r c => x r c - mean cfg x c

def products : Matrix (Fin assets) (Fin assets) K :=
  Gram.weighted (cfg.weight used assets) (deviations cfg x)

end Model

theorem SymmetricMatrix.set_symmetric_eq {K : Type} {n : Nat} {entry : Fin n → Fin n → K}
    (h : ∀ i j, entry i j = entry j i) : SymmetricMatrix.set_symmetric entry = entry := by
  ext i j
  rw [SymmetricMatrix.set_symmetric]
  split
  · rfl
  · exact h j i

theorem CovarianceConfig.clamp_mem {K : Type} [Field K] [LinearOrder K] {lo hi : K} (hle : lo ≤ hi) (v : K) :
    lo ≤ clamp v lo hi ∧ clamp v lo hi ≤ hi := by
  unfold clamp
  split
  · exact ⟨le_rfl, hle⟩
  · split
    · exact ⟨hle, le_rfl⟩
    · exact ⟨not_lt.mp ‹_›, not_lt.mp ‹_›⟩

/-! ### Weights -/

section Weights

variable {cfg : CovarianceConfig ℝ} {used assets : Nat}

theorem CovarianceConfig.method_of_used (h : cfg.used_method used assets = .Ewma) : cfg.method = .Ewma := by
  unfold used_method at h
  split at h
  · cases h
  · exact h

theorem CovarianceConfig.weight_sum_eq (cfg : CovarianceConfig ℝ) (used assets : Nat) :
    cfg.weight_sum used assets = ∑ r, cfg.weight used assets r := by
  rw [weight_sum]
  split
  · rfl
  · rename_i hflat
    simp [weight, if_neg hflat]

variable (hlambda : cfg.method = .Ewma → 0 ≤ cfg.ewma_lambda)

include hlambda in
theorem CovarianceConfig.weight_nonneg (r : Fin used) : 0 ≤ cfg.weight used assets r := by
  rw [weight]
  split
  · exact pow_nonneg (hlambda (method_of_used ‹_›)) _
  · exact zero_le_one

include hlambda in
/-- The last row has weight one, whatever the decay. -/
theorem CovarianceConfig.one_le_weight_sum (hused : 0 < used) : 1 ≤ cfg.weight_sum used assets := by
  have hlast : cfg.weight used assets ⟨used - 1, by omega⟩ = 1 := by simp [weight]
  rw [weight_sum_eq, ← hlast]
  exact Finset.single_le_sum (fun r _ => weight_nonneg hlambda r) (Finset.mem_univ _)

include hlambda in
theorem CovarianceConfig.denominator_pos (hused : 2 ≤ used) : 0 < cfg.denominator used assets := by
  rw [denominator]
  split
  · exact zero_lt_one.trans_le (one_le_weight_sum hlambda (by omega))
  · rename_i hflat
    rw [weight_sum, if_neg hflat, sub_pos]
    exact_mod_cast hused

theorem CovarianceConfig.applied_mem (cfg : CovarianceConfig ℝ) (used assets : Nat) :
    0 ≤ cfg.applied used assets ∧ cfg.applied used assets ≤ 1 := by
  rw [applied]
  split
  · exact clamp_mem zero_le_one _
  · exact ⟨le_rfl, zero_le_one⟩

end Weights

/-! ### What is estimated -/

section Estimate

variable {cfg : CovarianceConfig ℝ} {used assets : Nat} (x : Matrix (Fin used) (Fin assets) ℝ)

/-- Deviations of an allocation are those of its return series. -/
theorem deviations_mulVec (w : Fin assets → ℝ) (r : Fin used) :
    (deviations cfg x *ᵥ w) r =
      (x *ᵥ w) r - (∑ q, cfg.weight used assets q * (x *ᵥ w) q) / cfg.weight_sum used assets := by
  have hmean : ∑ c, mean cfg x c * w c =
      (∑ q, cfg.weight used assets q * (x *ᵥ w) q) / cfg.weight_sum used assets := by
    simp only [mean, mulVec, dotProduct, Finset.mul_sum, Finset.sum_div, div_mul_eq_mul_div, Finset.sum_mul]
    rw [Finset.sum_comm]
    exact Finset.sum_congr rfl fun q _ => Finset.sum_congr rfl fun c _ => by ring
  rw [← hmean, mulVec, dotProduct, mulVec, dotProduct, ← Finset.sum_sub_distrib]
  exact Finset.sum_congr rfl fun c _ => sub_mul _ _ _

/-- The form of all products is the variance of a return series. -/
theorem dot_products (w : Fin assets → ℝ) :
    w ⬝ᵥ (products cfg x *ᵥ w) / cfg.denominator used assets = series_variance cfg assets (x *ᵥ w) := by
  rw [products, Gram.dot_weighted, series_variance]
  simp only [deviations_mulVec, sq, mul_assoc]

theorem moments_apply (i j : Fin assets) :
    moments cfg x i j =
      if cfg.used_method used assets = .Identity ∧ i ≠ j then 0
      else products cfg x i j / cfg.denominator used assets := by
  rw [moments, SymmetricMatrix.set_symmetric_eq]
  · rfl
  · intro i j
    simp only [ne_comm, mul_right_comm]

theorem moments_diag (i : Fin assets) : moments cfg x i i = series_variance cfg assets fun r => x r i := by
  have hcolumn : (x *ᵥ Pi.single i 1) = fun r => x r i := by
    ext r
    simp
  rw [moments_apply, if_neg (by simp), ← hcolumn, ← dot_products]
  simp

theorem isSymm_moments : (moments cfg x).IsSymm := by
  ext i j
  have hback : products cfg x j i = products cfg x i j := (Gram.isSymm_weighted _ _).apply i j
  rw [transpose_apply, moments_apply, moments_apply, hback]
  simp only [ne_comm]

theorem dot_moments (w : Fin assets → ℝ) : w ⬝ᵥ (moments cfg x *ᵥ w) = portfolio_variance cfg x w := by
  rw [portfolio_variance]
  split
  · rename_i hidentity
    have hdiagonal : moments cfg x = diagonal fun i => series_variance cfg assets fun r => x r i := by
      ext i j
      obtain rfl | hne := eq_or_ne i j
      · rw [moments_diag, diagonal_apply_eq]
      · rw [moments_apply, if_pos ⟨hidentity, hne⟩, diagonal_apply_ne _ hne]
    rw [hdiagonal, dotProduct]
    refine Finset.sum_congr rfl fun i _ => ?_
    rw [mulVec_diagonal]
    ring
  · rename_i hfull
    have hproducts : moments cfg x = (cfg.denominator used assets)⁻¹ • products cfg x := by
      ext i j
      rw [moments_apply, if_neg fun h => hfull h.1, Matrix.smul_apply, smul_eq_mul, div_eq_inv_mul]
    rw [hproducts, smul_mulVec, dotProduct_smul, ← dot_products, smul_eq_mul, div_eq_inv_mul]

theorem mean_variance_moments : mean_variance (moments cfg x) = average_variance cfg x := by
  simp only [mean_variance, moments_diag, average_variance]

theorem shrunk_eq {cov : SymmetricMatrix ℝ assets} (hsymm : cov.IsSymm) :
    shrunk used cfg cov =
      (1 - cfg.applied used assets) • cov + (cfg.applied used assets * mean_variance cov) • 1 := by
  unfold shrunk CovarianceConfig.applied
  split
  · rw [SymmetricMatrix.set_symmetric_eq fun i j => by simp only [hsymm.apply i j, eq_comm]]
    refine Matrix.ext fun i j => ?_
    rw [Matrix.add_apply, Matrix.smul_apply, Matrix.smul_apply, Matrix.one_apply]
    split <;> simp
  · simp

theorem annualized_eq {cov : SymmetricMatrix ℝ assets} (hsymm : cov.IsSymm) :
    annualized cfg cov = cfg.scale • cov := by
  unfold annualized CovarianceConfig.scale
  split
  · rename_i hscaled
    rw [SymmetricMatrix.set_symmetric_eq fun i j => by rw [hsymm.apply i j], if_pos hscaled.2]
    exact Matrix.ext fun i j => mul_comm _ _
  · rename_i hkept
    split
    · have hone : cfg.annualization = 1 := by
        by_contra hne
        exact hkept ⟨hne, ‹_›⟩
      rw [hone, one_smul]
    · rw [one_smul]

theorem unrepaired_eq :
    unrepaired cfg x =
      cfg.scale • ((1 - cfg.applied used assets) • moments cfg x +
        (cfg.applied used assets * average_variance cfg x) • 1) := by
  have hsymm : (shrunk used cfg (moments cfg x)).IsSymm := by
    rw [shrunk_eq (isSymm_moments x)]
    exact ((isSymm_moments x).smul _).add (isSymm_one.smul _)
  rw [unrepaired, annualized_eq hsymm, shrunk_eq (isSymm_moments x), mean_variance_moments]

theorem isSymm_unrepaired : (unrepaired cfg x).IsSymm := by
  rw [unrepaired_eq]
  exact (((isSymm_moments x).smul _).add (isSymm_one.smul _)).smul _

/-- The form of what is repaired, in terms of return series only. -/
theorem dot_unrepaired (w : Fin assets → ℝ) :
    w ⬝ᵥ (unrepaired cfg x *ᵥ w) =
      cfg.scale * ((1 - cfg.applied used assets) * portfolio_variance cfg x w +
        cfg.applied used assets * average_variance cfg x * (w ⬝ᵥ w)) := by
  rw [unrepaired_eq, smul_mulVec, add_mulVec, smul_mulVec, smul_mulVec, one_mulVec, dotProduct_smul,
    dotProduct_add, dotProduct_smul, dotProduct_smul, dot_moments]
  simp only [smul_eq_mul]

variable (hlambda : cfg.method = .Ewma → 0 ≤ cfg.ewma_lambda) (hused : 2 ≤ used)

include hlambda hused

theorem series_variance_nonneg (y : Fin used → ℝ) : 0 ≤ series_variance cfg assets y :=
  div_nonneg
    (Finset.sum_nonneg fun r _ => mul_nonneg (CovarianceConfig.weight_nonneg hlambda r) (sq_nonneg _))
    (CovarianceConfig.denominator_pos hlambda hused).le

theorem portfolio_variance_nonneg (w : Fin assets → ℝ) : 0 ≤ portfolio_variance cfg x w := by
  rw [portfolio_variance]
  split
  · exact Finset.sum_nonneg fun _ _ =>
      mul_nonneg (sq_nonneg _) (series_variance_nonneg hlambda hused _)
  · exact series_variance_nonneg hlambda hused _

theorem average_variance_nonneg : 0 ≤ average_variance cfg x :=
  div_nonneg (Finset.sum_nonneg fun _ _ => series_variance_nonneg hlambda hused _) assets.cast_nonneg

theorem posSemidef_unrepaired : (unrepaired cfg x).PosSemidef := by
  refine Gram.posSemidef_iff.mpr ⟨isSymm_unrepaired x, fun w => ?_⟩
  obtain ⟨hnonneg, hle⟩ := cfg.applied_mem used assets
  have hscale : 0 ≤ cfg.scale := by
    rw [CovarianceConfig.scale]
    split
    · exact le_of_lt ‹_›
    · exact zero_le_one
  have hsquare : 0 ≤ w ⬝ᵥ w := Finset.sum_nonneg fun _ _ => mul_self_nonneg _
  rw [dot_unrepaired]
  refine mul_nonneg hscale (add_nonneg ?_ (mul_nonneg (mul_nonneg hnonneg ?_) hsquare))
  · exact mul_nonneg (sub_nonneg.mpr hle) (portfolio_variance_nonneg x hlambda hused w)
  · exact average_variance_nonneg x hlambda hused

omit hlambda hused in
theorem enforce_psd_ok (hassets : 0 < assets) (m : SymmetricMatrix ℝ assets) (min_eigenvalue : ℝ) :
    ∃ r, enforce_psd Real.sqrt m min_eigenvalue = .ok r ∧
      (r.repaired = true → r.matrix = (rotated Real.sqrt m).1.rebuilt min_eigenvalue) ∧
      (r.repaired = false → r.matrix = m) := by
  unfold enforce_psd
  rw [dif_neg hassets.ne', if_neg (by simp [SymmetricMatrix.all_finite])]
  dsimp only
  split
  · exact ⟨_, rfl, fun _ => rfl, by simp⟩
  · exact ⟨_, rfl, by simp, fun _ => rfl⟩

omit hlambda hused in
/-- A repair by a floor that is not negative is positive semi-definite, whatever the sweeps
came to. -/
theorem posSemidef_rebuilt (m : SymmetricMatrix ℝ assets) {min_eigenvalue : ℝ} (hfloor : 0 ≤ min_eigenvalue) :
    ((rotated Real.sqrt m).1.rebuilt min_eigenvalue).PosSemidef := by
  obtain ⟨hsymm, hle, -⟩ := (rotated_follows m).rebuilt min_eigenvalue
  refine Gram.posSemidef_iff.mpr ⟨hsymm, fun w => le_trans ?_ (hle w)⟩
  exact mul_nonneg hfloor (Finset.sum_nonneg fun _ _ => mul_self_nonneg _)

/-- What an estimate over a window comes to. -/
theorem estimate_window_ok (hassets : 0 < assets) :
    ∃ out, (estimate_window cfg x Real.sqrt).2 = .ok out ∧ out.PosSemidef ∧
      (estimate_window cfg x Real.sqrt).1.applied_shrinkage = cfg.applied used assets ∧
      ((estimate_window cfg x Real.sqrt).1.psd_repaired = true →
        ∀ w, 1e-14 * (w ⬝ᵥ w) ≤ w ⬝ᵥ (out *ᵥ w)) ∧
      ((estimate_window cfg x Real.sqrt).1.psd_repaired = false → out = unrepaired cfg x) := by
  obtain ⟨r, hr, hrebuilt, hkept⟩ := enforce_psd_ok hassets (unrepaired cfg x) (floor cfg (unrepaired cfg x))
  have hsum : 1 ≤ cfg.weight_sum used assets := CovarianceConfig.one_le_weight_sum hlambda (by omega)
  have hden : 0 < cfg.denominator used assets := CovarianceConfig.denominator_pos hlambda hused
  have hfloor : (1e-14 : ℝ) ≤ floor cfg (unrepaired cfg x) := le_max_left _ _
  unfold estimate_window
  rw [if_neg (by omega)]
  dsimp only
  rw [if_neg (by linarith only [hsum]), if_neg (not_le.mpr hden), hr]
  refine ⟨r.matrix, rfl, ?_, rfl, fun hrepaired w => ?_, hkept⟩
  · cases hcase : r.repaired with
    | true =>
      rw [hrebuilt hcase]
      exact posSemidef_rebuilt _ (le_trans (by norm_num) hfloor)
    | false =>
      rw [hkept hcase]
      exact posSemidef_unrepaired x hlambda hused
  · rw [hrebuilt hrepaired]
    obtain ⟨-, hle, -⟩ := (rotated_follows (unrepaired cfg x)).rebuilt (floor cfg (unrepaired cfg x))
    refine le_trans (mul_le_mul_of_nonneg_right hfloor ?_) (hle w)
    exact Finset.sum_nonneg fun _ _ => mul_self_nonneg _

end Estimate

end ptl.optimization
