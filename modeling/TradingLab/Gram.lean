import Mathlib

/-! Matrices of weighted products, and the quadratic forms of positive semi-definite
matrices. -/

open Matrix

namespace Gram

variable {ρ ι : Type*} [Fintype ρ] [Fintype ι] [DecidableEq ρ] [DecidableEq ι]

section Products

variable {K : Type*} [Field K]

/-- Weighted products of the columns of a matrix, two at a time. -/
def weighted (p : ρ → K) (d : Matrix ρ ι K) : Matrix ι ι K := fun i j => ∑ r, p r * d r i * d r j

omit [Fintype ι] [DecidableEq ι] in
theorem weighted_eq (p : ρ → K) (d : Matrix ρ ι K) : weighted p d = dᵀ * diagonal p * d := by
  ext i j
  rw [Matrix.mul_assoc, Matrix.mul_apply]
  refine Finset.sum_congr rfl fun r _ => ?_
  rw [diagonal_mul, transpose_apply]
  ring

omit [Fintype ι] [DecidableEq ρ] [DecidableEq ι] in
theorem isSymm_weighted (p : ρ → K) (d : Matrix ρ ι K) : (weighted p d).IsSymm := by
  ext i j
  exact Finset.sum_congr rfl fun r _ => by ring

omit [DecidableEq ι] in
/-- A form of products is a sum of products. -/
theorem dot_weighted (p : ρ → K) (d : Matrix ρ ι K) (w u : ι → K) :
    w ⬝ᵥ (weighted p d *ᵥ u) = ∑ r, p r * (d *ᵥ w) r * (d *ᵥ u) r := by
  rw [weighted_eq, ← mulVec_mulVec, ← mulVec_mulVec, dotProduct_mulVec, vecMul_transpose]
  refine Finset.sum_congr rfl fun r _ => ?_
  rw [mulVec_diagonal]
  ring

end Products

section Semidefinite

variable {m : Matrix ι ι ℝ}

omit [DecidableEq ι] in
/-- Over the reals a conjugate is the number itself. -/
theorem posSemidef_iff : m.PosSemidef ↔ m.IsSymm ∧ ∀ w, 0 ≤ w ⬝ᵥ (m *ᵥ w) := by
  rw [posSemidef_iff_dotProduct_mulVec, IsHermitian, conjTranspose_eq_transpose_of_trivial]
  rfl

omit [DecidableEq ι] in
theorem posSemidef_weighted {p : ρ → ℝ} (hp : ∀ r, 0 ≤ p r) (d : Matrix ρ ι ℝ) :
    (weighted p d).PosSemidef := by
  classical
  refine posSemidef_iff.mpr ⟨isSymm_weighted p d, fun w => ?_⟩
  rw [dot_weighted]
  refine Finset.sum_nonneg fun r _ => ?_
  rw [mul_assoc]
  exact mul_nonneg (hp r) (mul_self_nonneg _)

/-- A positive definite system has one solution. -/
theorem existsUnique_solution (h : m.PosDef) (g : ι → ℝ) : ∃! s, m *ᵥ s = g := by
  have hunit : IsUnit m.det := m.isUnit_iff_isUnit_det.mp h.isUnit
  refine ⟨m⁻¹ *ᵥ g, ?_, fun s hs => ?_⟩
  · show m *ᵥ (m⁻¹ *ᵥ g) = g
    rw [mulVec_mulVec, m.mul_nonsing_inv hunit, one_mulVec]
  · rw [← hs, mulVec_mulVec, m.nonsing_inv_mul hunit, one_mulVec]

omit [DecidableEq ι] in
theorem dot_pos_of_solution (h : m.PosDef) {g s : ι → ℝ} (hs : m *ᵥ s = g) (hne : s ≠ 0) : 0 < g ⬝ᵥ s := by
  rw [← hs, dotProduct_comm]
  exact h.dotProduct_mulVec_pos hne

/-- Weighted squares of residuals, and penalties. -/
def loss (p : ρ → ℝ) (d : Matrix ρ ι ℝ) (y : ρ → ℝ) (c b : ι → ℝ) : ℝ :=
  ∑ r, p r * (y r - (d *ᵥ b) r) ^ 2 + ∑ i, c i * b i ^ 2

/-- Off the solution of the normal equations the loss grows by a form of the distance. -/
theorem loss_add {p : ρ → ℝ} {d : Matrix ρ ι ℝ} {y : ρ → ℝ} {c b : ι → ℝ}
    (hb : (weighted p d + diagonal c) *ᵥ b = dᵀ *ᵥ (p * y)) (v : ι → ℝ) :
    loss p d y c (b + v) = loss p d y c b + v ⬝ᵥ ((weighted p d + diagonal c) *ᵥ v) := by
  have hnormal := congrArg (v ⬝ᵥ ·) hb
  have hdiagonal : ∀ u, v ⬝ᵥ (diagonal c *ᵥ u) = ∑ i, c i * v i * u i := fun u =>
    Finset.sum_congr rfl fun i _ => by rw [mulVec_diagonal]; ring
  have htargets : v ⬝ᵥ (dᵀ *ᵥ (p * y)) = ∑ r, p r * y r * (d *ᵥ v) r := by
    rw [dotProduct_mulVec, vecMul_transpose, dotProduct_comm]
    rfl
  simp only [add_mulVec, dotProduct_add, dot_weighted, hdiagonal, htargets] at hnormal ⊢
  have hresiduals : ∑ r, p r * (y r - (d *ᵥ (b + v)) r) ^ 2 = ∑ r, p r * (y r - (d *ᵥ b) r) ^ 2 -
      2 * (∑ r, p r * y r * (d *ᵥ v) r - ∑ r, p r * (d *ᵥ v) r * (d *ᵥ b) r) +
      ∑ r, p r * (d *ᵥ v) r * (d *ᵥ v) r := by
    rw [← Finset.sum_sub_distrib, Finset.mul_sum, ← Finset.sum_sub_distrib, ← Finset.sum_add_distrib, mulVec_add]
    exact Finset.sum_congr rfl fun r _ => by rw [Pi.add_apply]; ring
  have hpenalties : ∑ i, c i * (b + v) i ^ 2 =
      ∑ i, c i * b i ^ 2 + 2 * ∑ i, c i * v i * b i + ∑ i, c i * v i * v i := by
    rw [Finset.mul_sum, ← Finset.sum_add_distrib, ← Finset.sum_add_distrib]
    exact Finset.sum_congr rfl fun i _ => by rw [Pi.add_apply]; ring
  rw [loss, loss, hresiduals, hpenalties]
  linarith only [hnormal]

/-- The solution of positive definite normal equations has the least loss. -/
theorem loss_lt {p : ρ → ℝ} {d : Matrix ρ ι ℝ} {y : ρ → ℝ} {c b b' : ι → ℝ}
    (hpos : (weighted p d + diagonal c).PosDef) (hb : (weighted p d + diagonal c) *ᵥ b = dᵀ *ᵥ (p * y))
    (hne : b' ≠ b) : loss p d y c b < loss p d y c b' := by
  have hgrows := loss_add hb (b' - b)
  rw [add_sub_cancel] at hgrows
  rw [hgrows]
  exact lt_add_of_pos_right _ (hpos.dotProduct_mulVec_pos (sub_ne_zero.mpr hne))

end Semidefinite

end Gram
