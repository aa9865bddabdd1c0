import Mathlib

/-! Gradients by coordinates: the entries of one are the coefficients of a derivative. -/

namespace Gradients

open ContinuousLinearMap (proj)

variable {ι : Type*} [Fintype ι]

/-- The linear map with these coefficients. -/
noncomputable def along (g : ι → ℝ) : (ι → ℝ) →L[ℝ] ℝ := ∑ i, g i • (proj i : (ι → ℝ) →L[ℝ] ℝ)

theorem along_apply (g v : ι → ℝ) : along g v = ∑ i, g i * v i := by
  simp [along]

/-- A function has this gradient at a point. -/
def HasGradient (f : (ι → ℝ) → ℝ) (g x : ι → ℝ) : Prop := HasFDerivAt f (along g) x

variable {f f' : (ι → ℝ) → ℝ} {g g' x : ι → ℝ}

/-- A derivative with the right values along every vector. -/
theorem HasGradient.of_derivative {L : (ι → ℝ) →L[ℝ] ℝ} (hf : HasFDerivAt f L x) (hsame : ∀ v, L v = ∑ i, g i * v i) :
    HasGradient f g x := by
  have heq : L = along g := by
    ext v
    rw [hsame, along_apply]
  rw [HasGradient, ← heq]
  exact hf

theorem HasGradient.congr (hf : HasGradient f g x) (hnear : f' =ᶠ[nhds x] f) (hsame : ∀ i, g i = g' i) :
    HasGradient f' g' x :=
  HasGradient.of_derivative (HasFDerivAt.congr_of_eventuallyEq hf hnear) fun v => by
    rw [along_apply]
    exact Finset.sum_congr rfl fun i _ => by rw [hsame i]

theorem hasGradient_const (c : ℝ) (x : ι → ℝ) : HasGradient (fun _ => c) 0 x :=
  HasGradient.of_derivative (hasFDerivAt_const c x) fun v => by simp

theorem hasGradient_coordinate (i : ι) [DecidableEq ι] (x : ι → ℝ) :
    HasGradient (fun y => y i) (Pi.single i 1) x :=
  HasGradient.of_derivative (hasFDerivAt_apply i x) fun v => by simp [Pi.single_apply]

theorem HasGradient.const_mul (hf : HasGradient f g x) (c : ℝ) : HasGradient (fun y => c * f y) (c • g) x :=
  HasGradient.of_derivative (HasFDerivAt.const_mul hf c) fun v => by
    simp [along_apply, Finset.mul_sum, mul_assoc]

theorem HasGradient.sub (hf : HasGradient f g x) (hf' : HasGradient f' g' x) :
    HasGradient (fun y => f y - f' y) (g - g') x :=
  HasGradient.of_derivative (HasFDerivAt.sub hf hf') fun v => by
    simp [along_apply, sub_mul, Finset.sum_sub_distrib]

theorem HasGradient.mul (hf : HasGradient f g x) (hf' : HasGradient f' g' x) :
    HasGradient (fun y => f y * f' y) (f x • g' + f' x • g) x :=
  HasGradient.of_derivative (HasFDerivAt.mul hf hf') fun v => by
    simp [along_apply, add_mul, Finset.sum_add_distrib, Finset.mul_sum, mul_assoc]

theorem HasGradient.sum {κ : Type*} {s : Finset κ} {f : κ → (ι → ℝ) → ℝ} {g : κ → ι → ℝ}
    (hf : ∀ k ∈ s, HasGradient (f k) (g k) x) : HasGradient (fun y => ∑ k ∈ s, f k y) (∑ k ∈ s, g k) x :=
  HasGradient.of_derivative (HasFDerivAt.fun_sum hf) fun v => by
    rw [sum_apply]
    simp only [along_apply, Finset.sum_apply, Finset.sum_mul]
    exact Finset.sum_comm

/-- The chain rule, for a function of one number. -/
theorem HasGradient.comp {h : ℝ → ℝ} {h' : ℝ} (hf : HasGradient f g x) (hh : HasDerivAt h h' (f x)) :
    HasGradient (fun y => h (f y)) (h' • g) x :=
  HasGradient.of_derivative (hh.comp_hasFDerivAt x hf) fun v => by
    simp [along_apply, Finset.mul_sum, mul_assoc]

theorem HasGradient.div (hf : HasGradient f g x) (hf' : HasGradient f' g' x) (hne : f' x ≠ 0) :
    HasGradient (fun y => f y / f' y) (fun i => g i / f' x - f x * g' i / f' x ^ 2) x := by
  have hinv := hf'.comp (hasDerivAt_inv hne)
  refine (hf.mul hinv).congr (.of_forall fun y => div_eq_mul_inv _ _) fun i => ?_
  simp only [Pi.add_apply, Pi.smul_apply, smul_eq_mul]
  field_simp
  ring

/-- Where a function is greatest it has no gradient. -/
theorem HasGradient.eq_zero_of_max (hf : HasGradient f g x) (hmax : ∀ y, f y ≤ f x) : g = 0 := by
  classical
  have hzero : along g = 0 := IsLocalMax.hasFDerivAt_eq_zero (.of_forall hmax) hf
  ext i
  have hentry := congrArg (fun L => L (Pi.single i 1)) hzero
  simpa [along_apply, Pi.single_apply] using hentry

/-- A function rises for some way along any vector that goes with its gradient. -/
theorem HasGradient.rises {v : ι → ℝ} (hf : HasGradient f g x) (hwith : 0 < ∑ i, g i * v i) :
    ∃ reach > (0 : ℝ), ∀ t, 0 < t → t < reach → f x < f (x + t • v) := by
  have hline : HasDerivAt (fun t : ℝ => x + t • v) v 0 := by
    simpa using ((hasDerivAt_id (0 : ℝ)).smul_const v).const_add x
  have hf' : HasFDerivAt f (along g) (x + (0 : ℝ) • v) := by
    rw [zero_smul, add_zero]
    exact hf
  have hslope := hasDerivAt_iff_tendsto_slope.mp (hf'.comp_hasDerivAt 0 hline)
  have hrising := hslope.eventually (lt_mem_nhds ((along_apply g v).symm ▸ hwith))
  obtain ⟨reach, hreach, hnear⟩ := Metric.eventually_nhds_iff.mp (eventually_nhdsWithin_iff.mp hrising)
  refine ⟨reach, hreach, fun t hpos hlt => ?_⟩
  have hclose : dist t 0 < reach := by rwa [dist_zero_right, Real.norm_of_nonneg hpos.le]
  have hat := hnear hclose hpos.ne'
  rw [slope_def_field, sub_zero, lt_div_iff₀ hpos, zero_mul, sub_pos] at hat
  simpa using hat

/-- A function of a point moved by `b`. -/
theorem HasGradient.shift (b : ι → ℝ) (hf : HasGradient f g (x - b)) : HasGradient (fun y => f (y - b)) g x := by
  have hmoved : HasFDerivAt (fun y : ι → ℝ => y - b) (ContinuousLinearMap.id ℝ (ι → ℝ)) x :=
    (hasFDerivAt_id x).sub_const b
  exact HasGradient.of_derivative (HasFDerivAt.comp x hf hmoved) fun v => by simp [along_apply]

/-- A sum over the coordinates of functions of one number. -/
theorem hasGradient_sum_coordinates {h : ℝ → ℝ} {h' : ι → ℝ} (hh : ∀ i, HasDerivAt h (h' i) (x i)) :
    HasGradient (fun y => ∑ i, h (y i)) h' x := by
  classical
  have hterm := fun i (_ : i ∈ Finset.univ) => (hasGradient_coordinate i x).comp (hh i)
  refine (HasGradient.sum hterm).congr (.of_forall fun _ => rfl) fun i => ?_
  simp [Finset.sum_apply, Pi.single_apply]

theorem hasGradient_linear (a x : ι → ℝ) : HasGradient (fun y => ∑ i, y i * a i) a x := by
  classical
  have hterm := fun i (_ : i ∈ Finset.univ) => (hasGradient_coordinate i x).const_mul (a i)
  refine (HasGradient.sum hterm).congr (.of_forall fun y => ?_) fun i => ?_
  · exact Finset.sum_congr rfl fun i _ => mul_comm _ _
  · simp [Finset.sum_apply, Pi.single_apply]

/-- The quadratic form of a symmetric matrix. -/
theorem hasGradient_quadratic {A : Matrix ι ι ℝ} (hsymm : A.IsSymm) (x : ι → ℝ) :
    HasGradient (fun y => ∑ i, y i * ∑ j, A i j * y j) (fun i => 2 * ∑ j, A i j * x j) x := by
  classical
  have hrow : ∀ i, HasGradient (fun y => ∑ j, A i j * y j) (fun j => A i j) x := fun i =>
    (hasGradient_linear (fun j => A i j) x).congr
      (.of_forall fun y => Finset.sum_congr rfl fun j _ => mul_comm _ _) fun _ => rfl
  have hterm := fun i (_ : i ∈ Finset.univ) => (hasGradient_coordinate i x).mul (hrow i)
  refine (HasGradient.sum hterm).congr (.of_forall fun _ => rfl) fun i => ?_
  simp only [Finset.sum_apply, Pi.add_apply, Pi.smul_apply, smul_eq_mul, Finset.sum_add_distrib, Pi.single_apply,
    mul_ite, mul_one, mul_zero, Finset.sum_ite_eq, Finset.mem_univ, if_true, two_mul]
  congr 1
  exact Finset.sum_congr rfl fun j _ => by rw [hsymm.apply i j, mul_comm]

end Gradients
