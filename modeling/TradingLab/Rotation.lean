import Mathlib.Algebra.Order.BigOperators.Ring.Finset
import Mathlib.LinearAlgebra.Matrix.DotProduct
import Mathlib.LinearAlgebra.Matrix.NonsingularInverse
import Mathlib.LinearAlgebra.Matrix.Symmetric
import Mathlib.LinearAlgebra.Matrix.Trace
import Mathlib.Tactic.LinearCombination

/-! Rotations in the plane of two coordinates, and what a matrix has in common with those
it is rotated into. -/

open Matrix

namespace Rotation

section Ring

variable {K ι : Type*} [CommRing K] [DecidableEq ι]

/-- Two columns are replaced by two mixtures of them. -/
def columns (p q : ι) (c s : K) (a : Matrix ι ι K) : Matrix ι ι K := fun k j =>
  if j = p then c * a k p - s * a k q else if j = q then s * a k p + c * a k q else a k j

def rows (p q : ι) (c s : K) (a : Matrix ι ι K) : Matrix ι ι K := fun i k =>
  if i = p then c * a p k - s * a q k else if i = q then s * a p k + c * a q k else a i k

variable {p q : ι} {c s : K}

theorem rows_eq (a : Matrix ι ι K) : rows p q c s a = (columns p q c s aᵀ)ᵀ := rfl

/-- The rotation of the plane. -/
def plane (p q : ι) (c s : K) : Matrix ι ι K := columns p q c s 1

variable [Fintype ι]

theorem mul_columns (a b : Matrix ι ι K) : a * columns p q c s b = columns p q c s (a * b) := by
  ext k j
  simp only [columns, Matrix.mul_apply]
  split_ifs
  · simp only [Finset.mul_sum, ← Finset.sum_sub_distrib]
    exact Finset.sum_congr rfl fun i _ => by ring
  · simp only [Finset.mul_sum, ← Finset.sum_add_distrib]
    exact Finset.sum_congr rfl fun i _ => by ring
  · rfl

theorem columns_eq_mul (a : Matrix ι ι K) : columns p q c s a = a * plane p q c s := by
  rw [plane, mul_columns, mul_one]

theorem rows_eq_mul (a : Matrix ι ι K) : rows p q c s a = (plane p q c s)ᵀ * a := by
  rw [rows_eq, columns_eq_mul, transpose_mul, transpose_transpose]

/-- A rotation keeps lengths. -/
theorem plane_orthogonal (hne : p ≠ q) (hunit : c ^ 2 + s ^ 2 = 1) :
    (plane p q c s)ᵀ * plane p q c s = 1 := by
  rw [← rows_eq_mul]
  ext i j
  unfold rows plane columns
  simp only [Matrix.one_apply]
  split_ifs <;> simp_all
  · linear_combination hunit
  · ring
  · ring
  · linear_combination hunit

/-! ### Similar matrices -/

/-- A matrix seen from the axes that are the columns of another. -/
structure Similar (m a v : Matrix ι ι K) : Prop where
  orthogonal : vᵀ * v = 1
  eq : a = vᵀ * m * v

theorem Similar.refl (m : Matrix ι ι K) : Similar m m 1 where
  orthogonal := by simp
  eq := by simp

variable {m a v : Matrix ι ι K}

theorem Similar.rotate (h : Similar m a v) (hne : p ≠ q) (hunit : c ^ 2 + s ^ 2 = 1) :
    Similar m (rows p q c s (columns p q c s a)) (columns p q c s v) where
  orthogonal := by
    rw [columns_eq_mul, transpose_mul, mul_assoc, ← mul_assoc vᵀ, h.orthogonal, one_mul,
      plane_orthogonal hne hunit]
  eq := by
    rw [rows_eq_mul, columns_eq_mul, columns_eq_mul, transpose_mul, h.eq]
    simp only [mul_assoc]

theorem Similar.isSymm (h : Similar m a v) (hm : m.IsSymm) : a.IsSymm := by
  rw [h.eq]
  unfold Matrix.IsSymm
  rw [transpose_mul, transpose_mul, transpose_transpose, hm.eq, mul_assoc]

/-- The way back. -/
theorem Similar.eq_back (h : Similar m a v) : m = v * a * vᵀ := by
  have hback : v * vᵀ = 1 := mul_eq_one_comm.mp h.orthogonal
  calc m = (v * vᵀ) * m * (v * vᵀ) := by rw [hback, one_mul, mul_one]
    _ = v * a * vᵀ := by rw [h.eq]; simp only [mul_assoc]

/-- A vector is as long from the new axes. -/
theorem dot_transpose (horth : vᵀ * v = 1) (w : ι → K) : (vᵀ *ᵥ w) ⬝ᵥ (vᵀ *ᵥ w) = w ⬝ᵥ w := by
  have hback : v * vᵀ = 1 := mul_eq_one_comm.mp horth
  rw [dotProduct_mulVec, vecMul_transpose, mulVec_mulVec, hback, one_mulVec]

omit [DecidableEq ι] in
theorem dot_conjugate (b : Matrix ι ι K) (w : ι → K) :
    w ⬝ᵥ ((v * b * vᵀ) *ᵥ w) = (vᵀ *ᵥ w) ⬝ᵥ (b *ᵥ (vᵀ *ᵥ w)) := by
  rw [← mulVec_mulVec, ← mulVec_mulVec, dotProduct_mulVec, mulVec_transpose]

/-- A matrix rebuilt from other values along the axes has these as its trace. -/
theorem trace_rebuilt (horth : vᵀ * v = 1) (d : ι → K) : (v * diagonal d * vᵀ).trace = ∑ i, d i := by
  rw [trace_mul_comm, ← mul_assoc, horth, one_mul, trace_diagonal]

theorem isSymm_rebuilt (d : ι → K) : (v * diagonal d * vᵀ).IsSymm := by
  unfold Matrix.IsSymm
  rw [transpose_mul, transpose_mul, transpose_transpose, diagonal_transpose, mul_assoc]

end Ring

section Ordered

variable {K ι : Type*} [Field K] [LinearOrder K] [IsStrictOrderedRing K] [Fintype ι] [DecidableEq ι]
  {a v : Matrix ι ι K} {x : K}

/-- No direction of a rebuilt matrix is below all of its values. -/
theorem le_rebuilt (horth : vᵀ * v = 1) {d : ι → K} (hd : ∀ i, x ≤ d i) (w : ι → K) :
    x * (w ⬝ᵥ w) ≤ w ⬝ᵥ ((v * diagonal d * vᵀ) *ᵥ w) := by
  rw [dot_conjugate, ← dot_transpose horth w]
  simp only [dotProduct, mulVec_diagonal, Finset.mul_sum]
  refine Finset.sum_le_sum fun i _ => ?_
  have hsq := mul_le_mul_of_nonneg_right (hd i) (mul_self_nonneg ((vᵀ *ᵥ w) i))
  linarith only [hsq]

/-- The squares off the diagonal. -/
def off_diagonal (a : Matrix ι ι K) : K := ∑ i, ∑ j ∈ {i}ᶜ, a i j ^ 2

/-- What is off the diagonal weighs no more than its squares. -/
theorem off_diagonal_bound (a : Matrix ι ι K) (u : ι → K) :
    (∑ i, ∑ j ∈ {i}ᶜ, a i j * (u i * u j)) ^ 2 ≤ off_diagonal a * (u ⬝ᵥ u) ^ 2 := by
  have hcauchy := Finset.sum_mul_sq_le_sq_mul_sq (Finset.univ.sigma fun i : ι => ({i}ᶜ : Finset ι))
    (fun e => a e.1 e.2) fun e => u e.1 * u e.2
  simp only [Finset.sum_sigma] at hcauchy
  refine hcauchy.trans (mul_le_mul_of_nonneg_left ?_ ?_)
  · calc ∑ i, ∑ j ∈ {i}ᶜ, (u i * u j) ^ 2 ≤ ∑ i, ∑ j, (u i * u j) ^ 2 :=
          Finset.sum_le_sum fun i _ => Finset.sum_le_univ_sum_of_nonneg fun j => sq_nonneg _
      _ = (u ⬝ᵥ u) ^ 2 := by
          simp only [dotProduct, sq, Finset.sum_mul_sum]
          exact Finset.sum_congr rfl fun i _ => Finset.sum_congr rfl fun j _ => by ring
  · exact Finset.sum_nonneg fun i _ => Finset.sum_nonneg fun j _ => sq_nonneg _

/-- A matrix that is nearly diagonal is nearly bounded by its diagonal. -/
theorem le_of_nearly_diagonal (hd : ∀ i, x ≤ a i i) {e : K} (he : 0 ≤ e) (hoff : off_diagonal a ≤ e ^ 2)
    (u : ι → K) : (x - e) * (u ⬝ᵥ u) ≤ u ⬝ᵥ (a *ᵥ u) := by
  have hsplit : u ⬝ᵥ (a *ᵥ u) = ∑ i, a i i * (u i * u i) + ∑ i, ∑ j ∈ {i}ᶜ, a i j * (u i * u j) := by
    rw [← Finset.sum_add_distrib]
    simp only [dotProduct, mulVec, Finset.mul_sum]
    refine Finset.sum_congr rfl fun i _ => ?_
    rw [Fintype.sum_eq_add_sum_compl i]
    exact congrArg₂ (· + ·) (by ring) (Finset.sum_congr rfl fun j _ => by ring)
  have hnonneg : 0 ≤ u ⬝ᵥ u := Finset.sum_nonneg fun i _ => mul_self_nonneg (u i)
  have hdiagonal : x * (u ⬝ᵥ u) ≤ ∑ i, a i i * (u i * u i) := by
    rw [dotProduct, Finset.mul_sum]
    exact Finset.sum_le_sum fun i _ => mul_le_mul_of_nonneg_right (hd i) (mul_self_nonneg (u i))
  have hrest : |∑ i, ∑ j ∈ {i}ᶜ, a i j * (u i * u j)| ≤ e * (u ⬝ᵥ u) := by
    refine abs_le_of_sq_le_sq ?_ (mul_nonneg he hnonneg)
    rw [mul_pow]
    exact (off_diagonal_bound a u).trans (mul_le_mul_of_nonneg_right hoff (sq_nonneg _))
  have hlow := (abs_le.mp hrest).1
  rw [hsplit, sub_mul]
  linarith only [hdiagonal, hlow]

end Ordered

end Rotation
