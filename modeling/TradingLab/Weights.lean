import Mathlib.Algebra.Order.BigOperators.Group.List
import Mathlib.Algebra.Order.Field.Basic
import Mathlib.Data.List.Forall2
import Mathlib.Tactic.Linarith
import Mathlib.Tactic.Ring

/-! Weight vectors as lists: their gross exposure, and what shrinking them or
moving part of the way from one to another does to it. -/

namespace Weights

variable {K : Type*} [Field K]

/-- The weights with this tag, and zero for the others. -/
def tagged {A : Type*} [DecidableEq A] (tags : List A) (t : A) (w : List K) : List K :=
  List.zipWith (fun a x => if a = t then x else 0) tags w

/-- Part of the way from one vector to another. -/
def blend (α : K) (c w : List K) : List K := List.zipWith (fun a x => a + α * (x - a)) c w

theorem length_blend {α : K} {c w : List K} (hlength : c.length = w.length) :
    (blend α c w).length = w.length := by
  rw [blend, List.length_zipWith, hlength, Nat.min_self]

theorem tagged_blend {A : Type*} [DecidableEq A] (tags : List A) (t : A) (α : K) (c w : List K) :
    tagged tags t (blend α c w) = blend α (tagged tags t c) (tagged tags t w) := by
  induction tags generalizing c w with
  | nil => rfl
  | cons a tags ih =>
    cases c with
    | nil =>
      cases w <;> rfl
    | cons y c =>
      cases w with
      | nil => rfl
      | cons x w =>
        have hrest := ih c w
        simp only [tagged, blend, List.zipWith_cons_cons, List.cons.injEq] at hrest ⊢
        refine ⟨?_, hrest⟩
        split
        · rfl
        · ring

theorem sum_blend {α : K} {c w : List K} (hlength : c.length = w.length) : (blend α c w).sum = c.sum + α * (w.sum - c.sum) := by
  induction c generalizing w with
  | nil =>
    cases w with
    | nil => simp [blend]
    | cons x w => cases hlength
  | cons y c ih =>
    cases w with
    | nil => cases hlength
    | cons x w =>
      have hrest := ih (Nat.succ.inj hlength)
      simp only [blend, List.zipWith_cons_cons, List.sum_cons] at hrest ⊢
      rw [hrest]
      ring

variable [LinearOrder K]

/-- The sum of the magnitudes. -/
def gross (w : List K) : K := (w.map fun x => |x|).sum

/-! ### Shrinking -/

/-- Every weight moves towards zero, and not past it. -/
def Shrinks (w w' : List K) : Prop := List.Forall₂ (fun x x' => min x 0 ≤ x' ∧ x' ≤ max x 0) w w'

theorem Shrinks.refl (w : List K) : Shrinks w w :=
  List.forall₂_same.mpr fun _ _ => ⟨min_le_left _ _, le_max_left _ _⟩

theorem Shrinks.length_eq {w w' : List K} (hshrinks : Shrinks w w') : w'.length = w.length :=
  (List.Forall₂.length_eq hshrinks).symm

theorem shrinks_map {f : K → K} (hf : ∀ x, min x 0 ≤ f x ∧ f x ≤ max x 0) (w : List K) :
    Shrinks w (w.map f) := by
  induction w with
  | nil => exact .nil
  | cons x w ih => exact .cons (hf x) ih

theorem Shrinks.tagged {A : Type*} [DecidableEq A] {w w' : List K} (hshrinks : Shrinks w w') (tags : List A) (t : A) :
    Shrinks (tagged tags t w) (tagged tags t w') := by
  induction hshrinks generalizing tags with
  | nil =>
    rw [Weights.tagged, List.zipWith_nil_right]
    exact .nil
  | cons hhead _ ih =>
    cases tags with
    | nil => exact .nil
    | cons a tags =>
      refine .cons ?_ (ih tags)
      dsimp only
      split
      · exact hhead
      · exact ⟨min_le_left _ _, le_max_left _ _⟩

variable [IsStrictOrderedRing K]

theorem Shrinks.gross_le {w w' : List K} (hshrinks : Shrinks w w') : gross w' ≤ gross w := by
  induction hshrinks with
  | nil => exact le_rfl
  | @cons x x' _ _ hhead _ ih =>
    have habs : |x'| ≤ |x| := by
      refine abs_le.mpr ⟨?_, ?_⟩
      · exact (le_min (neg_abs_le x) (neg_nonpos.mpr (abs_nonneg x))).trans hhead.1
      · exact hhead.2.trans (max_le (le_abs_self x) (abs_nonneg x))
    simp only [gross, List.map_cons, List.sum_cons] at ih ⊢
    linarith

/-- Scaling down shrinks. -/
theorem scaled_between {a : K} (ha : 0 ≤ a ∧ a ≤ 1) (x : K) : min x 0 ≤ x * a ∧ x * a ≤ max x 0 := by
  rcases le_total 0 x with hpos | hneg
  · rw [min_eq_right hpos, max_eq_left hpos]
    exact ⟨mul_nonneg hpos ha.1, mul_le_of_le_one_right hpos ha.2⟩
  · rw [min_eq_left hneg, max_eq_right hneg]
    refine ⟨?_, mul_nonpos_of_nonpos_of_nonneg hneg ha.1⟩
    have hscaled := mul_le_mul_of_nonneg_left ha.2 (neg_nonneg.mpr hneg)
    linarith

theorem gross_scaled {a : K} (ha : 0 ≤ a) (w : List K) : gross (w.map fun x => x * a) = gross w * a := by
  induction w with
  | nil => simp [gross]
  | cons x w ih =>
    simp only [gross, List.map_cons, List.sum_cons] at ih ⊢
    rw [ih, abs_mul, abs_of_nonneg ha]
    ring

/-! ### Blending -/

section Blending

variable {α : K} {c w : List K}

/-- The magnitude on the way is at most the mean of the magnitudes at the ends. -/
theorem abs_blend_le (hα : 0 ≤ α ∧ α ≤ 1) (y x : K) : |y + α * (x - y)| ≤ (1 - α) * |y| + α * |x| := by
  have hsplit : y + α * (x - y) = (1 - α) * y + α * x := by ring
  calc |y + α * (x - y)| = |(1 - α) * y + α * x| := by rw [hsplit]
    _ ≤ |(1 - α) * y| + |α * x| := abs_add_le _ _
    _ = (1 - α) * |y| + α * |x| := by
      rw [abs_mul, abs_mul, abs_of_nonneg (sub_nonneg.mpr hα.2), abs_of_nonneg hα.1]

theorem gross_blend_le (hα : 0 ≤ α ∧ α ≤ 1) (hlength : c.length = w.length) :
    gross (blend α c w) ≤ (1 - α) * gross c + α * gross w := by
  induction c generalizing w with
  | nil =>
    cases w with
    | nil => simp [blend, gross]
    | cons x w => cases hlength
  | cons y c ih =>
    cases w with
    | nil => cases hlength
    | cons x w =>
      have hrest := ih (Nat.succ.inj hlength)
      have hhead := abs_blend_le hα y x
      simp only [gross, blend, List.zipWith_cons_cons, List.map_cons, List.sum_cons] at hrest ⊢
      linarith

/-- The mean of two numbers below a bound is below it. -/
theorem mean_le (hα : 0 ≤ α ∧ α ≤ 1) {y x b : K} (hy : y ≤ b) (hx : x ≤ b) : (1 - α) * y + α * x ≤ b := by
  have hleft := mul_le_mul_of_nonneg_left hy (sub_nonneg.mpr hα.2)
  have hright := mul_le_mul_of_nonneg_left hx hα.1
  linarith

theorem gross_blend_le_of_le (hα : 0 ≤ α ∧ α ≤ 1) (hlength : c.length = w.length) {b : K} (hc : gross c ≤ b)
    (hw : gross w ≤ b) : gross (blend α c w) ≤ b :=
  (gross_blend_le hα hlength).trans (mean_le hα hc hw)

theorem abs_sum_blend_le_of_le (hα : 0 ≤ α ∧ α ≤ 1) (hlength : c.length = w.length) {b : K} (hc : |c.sum| ≤ b)
    (hw : |w.sum| ≤ b) : |(blend α c w).sum| ≤ b := by
  rw [sum_blend hlength]
  exact (abs_blend_le hα _ _).trans (mean_le hα hc hw)

/-- Weights between two bounds stay between them on the way. -/
theorem blend_within (hα : 0 ≤ α ∧ α ≤ 1) {lo hi : K} (hc : ∀ x ∈ c, lo ≤ x ∧ x ≤ hi)
    (hw : ∀ x ∈ w, lo ≤ x ∧ x ≤ hi) : ∀ x ∈ blend α c w, lo ≤ x ∧ x ≤ hi := by
  induction c generalizing w with
  | nil => exact nofun
  | cons y c ih =>
    cases w with
    | nil => exact nofun
    | cons x w =>
      obtain ⟨hy, hc⟩ := List.forall_mem_cons.mp hc
      obtain ⟨hx, hw⟩ := List.forall_mem_cons.mp hw
      refine List.forall_mem_cons.mpr ⟨?_, ih hc hw⟩
      have hsplit : y + α * (x - y) = (1 - α) * y + α * x := by ring
      have hlow := mean_le hα (neg_le_neg hy.1) (neg_le_neg hx.1)
      have hhigh := mean_le hα hy.2 hx.2
      dsimp only
      rw [hsplit]
      constructor <;> linarith

end Blending

end Weights
