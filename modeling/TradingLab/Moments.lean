import Mathlib.Algebra.BigOperators.Group.List.Basic
import Mathlib.Algebra.BigOperators.Ring.List
import Mathlib.Algebra.Order.BigOperators.Group.List
import Mathlib.Algebra.Order.Field.Basic
import Mathlib.Analysis.Real.Sqrt
import Mathlib.Tactic.Abel
import Mathlib.Tactic.FieldSimp
import Mathlib.Tactic.Ring

/-! Sums over the most recent entries of a series, and the sample moments of a list. A
series is a list with its newest entry first, so the last `n` entries are `take n`. -/

namespace Series

variable {A K : Type*}

/-- The last `n` entries of a stream, newest first. -/
def recent (n : ℕ) (xs : List A) : List A := xs.reverse.take n

/-- What starts true of nothing and is kept by each step, with the entry added
to the past, holds after a whole stream. -/
theorem foldl_tracks {S : Type*} {P : S → List A → Prop} {f : S → A → S} {s : S} (hstart : P s [])
    (hstep : ∀ s past x, P s past → P (f s x) (x :: past)) (xs : List A) :
    P (xs.foldl f s) xs.reverse := by
  have hgen : ∀ (xs past : List A) (s : S), P s past → P (xs.foldl f s) (xs.reverse ++ past) := by
    intro xs
    induction xs with
    | nil => exact fun past s hpast => hpast
    | cons x xs ih =>
      intro past s hpast
      rw [List.foldl_cons, List.reverse_cons, List.append_assoc]
      exact ih _ _ (hstep s past x hpast)
  simpa using hgen xs [] s hstart

/-! ### Sums over a window -/

section Window

variable [AddCommGroup K]

/-- A new entry joins the window and, once that is full, the oldest leaves. -/
theorem sum_take_cons (f : A → K) (x : A) (past : List A) {n : ℕ} (hn : 0 < n) :
    (((x :: past).take n).map f).sum = ((past.take n).map f).sum + f x - (past[n - 1]?).elim 0 f := by
  obtain ⟨m, rfl⟩ := Nat.exists_eq_add_one_of_ne_zero (ne_of_gt hn)
  rw [List.take_succ_cons, List.map_cons, List.sum_cons, List.take_add_one, List.map_append, List.sum_append,
    Nat.add_sub_cancel]
  cases past[m]? with
  | none => simp [add_comm]
  | some e =>
    simp only [Option.toList_some, List.map_singleton, List.sum_singleton, Option.elim_some]
    abel

end Window

/-! ### Moments -/

section Moments

variable [Field K]

/-- The arithmetic mean; zero of nothing. -/
def mean (xs : List K) : K := xs.sum / xs.length

/-- The deviations of two series from their means, multiplied and summed. -/
def comoment (f g : A → K) (l : List A) : K :=
  (l.map fun a => (f a - mean (l.map f)) * (g a - mean (l.map g))).sum

/-- The sample covariance, with one degree of freedom less than entries. -/
def sampleCovariance (f g : A → K) (l : List A) : K := comoment f g l / (l.length - 1)

theorem sum_shift (f : A → K) (r : K) (l : List A) :
    (l.map fun a => f a - r).sum = (l.map f).sum - l.length * r := by
  induction l with
  | nil => simp
  | cons a l ih =>
    simp only [List.map_cons, List.sum_cons, ih, List.length_cons, Nat.cast_add, Nat.cast_one]
    ring

theorem sum_products_shift (f g : A → K) (r s : K) (l : List A) :
    (l.map fun a => (f a - r) * (g a - s)).sum =
      (l.map fun a => f a * g a).sum - s * (l.map f).sum - r * (l.map g).sum + l.length * (r * s) := by
  induction l with
  | nil => simp
  | cons a l ih =>
    simp only [List.map_cons, List.sum_cons, ih, List.length_cons, Nat.cast_add, Nat.cast_one]
    ring

/-- The comoment from deviations to any two reference points: their choice
cancels. -/
theorem comoment_shift [CharZero K] (f g : A → K) (r s : K) (l : List A) :
    (l.map fun a => (f a - r) * (g a - s)).sum -
        (l.map fun a => f a - r).sum * (l.map fun a => g a - s).sum / l.length =
      comoment f g l := by
  rcases eq_or_ne l [] with rfl | hne
  · simp [comoment]
  have hlength : (l.length : K) ≠ 0 := Nat.cast_ne_zero.mpr (List.length_pos_iff.mpr hne).ne'
  simp only [comoment, sum_products_shift, sum_shift, mean, List.length_map]
  field_simp
  ring

/-- A single entry does not deviate from its mean. -/
theorem comoment_short (f g : A → K) {l : List A} (hshort : l.length < 2) : comoment f g l = 0 := by
  rcases l with _ | ⟨a, _ | ⟨b, l⟩⟩
  · rfl
  · simp [comoment, mean]
  · exact absurd hshort (by simp)

theorem mean_shift [CharZero K] (r : K) {xs : List K} (hne : xs ≠ []) :
    r + (xs.map fun x => x - r).sum / xs.length = mean xs := by
  have hlength : (xs.length : K) ≠ 0 := Nat.cast_ne_zero.mpr (List.length_pos_iff.mpr hne).ne'
  rw [sum_shift, List.map_id', mean]
  field_simp
  ring

theorem mean_reverse (xs : List K) : mean xs.reverse = mean xs := by
  rw [mean, mean, xs.reverse_perm.sum_eq, List.length_reverse]

/-- A mean after one more entry. -/
theorem mean_cons [CharZero K] (x : K) (xs : List K) : mean (x :: xs) = mean xs + (x - mean xs) / (xs.length + 1) := by
  have hnext : (xs.length + 1 : K) ≠ 0 := Nat.cast_add_one_ne_zero _
  rcases eq_or_ne xs [] with rfl | hne
  · simp [mean]
  have hlength : (xs.length : K) ≠ 0 := Nat.cast_ne_zero.mpr (List.length_pos_iff.mpr hne).ne'
  simp only [mean, List.sum_cons, List.length_cons, Nat.cast_add, Nat.cast_one]
  field_simp
  ring

theorem comoment_eq_sum [CharZero K] (f g : A → K) {l : List A} :
    comoment f g l = (l.map fun a => f a * g a).sum - (l.map f).sum * (l.map g).sum / l.length := by
  have hshift := comoment_shift f g 0 0 l
  simpa only [sub_zero] using hshift.symm

/-- A sum of squared deviations after one more entry. -/
theorem comoment_cons [CharZero K] (x : K) (xs : List K) :
    comoment id id (x :: xs) = comoment id id xs + (x - mean xs) * (x - mean (x :: xs)) := by
  have hnext : (xs.length + 1 : K) ≠ 0 := Nat.cast_add_one_ne_zero _
  rcases eq_or_ne xs [] with rfl | hne
  · simp [mean, comoment]
  have hlength : (xs.length : K) ≠ 0 := Nat.cast_ne_zero.mpr (List.length_pos_iff.mpr hne).ne'
  simp only [comoment_eq_sum, mean, List.map_cons, List.sum_cons, List.length_cons, Nat.cast_add, Nat.cast_one, id_eq,
    List.map_id]
  field_simp
  ring

/-- One more entry leaves a mean alone just when it is that mean. -/
theorem mean_cons_eq_iff [CharZero K] (x : K) {xs : List K} : mean (x :: xs) = mean xs ↔ x = mean xs := by
  have hnext : (xs.length + 1 : K) ≠ 0 := Nat.cast_add_one_ne_zero _
  rw [mean_cons, add_eq_left, div_eq_zero_iff, or_iff_left hnext, sub_eq_zero]

/-! ### Higher moments -/

/-- The sum of a power of the deviations from the mean. -/
def centralSum (k : ℕ) (xs : List K) : K := (xs.map fun x => (x - mean xs) ^ k).sum

theorem centralSum_perm (k : ℕ) {xs ys : List K} (hperm : xs.Perm ys) : centralSum k xs = centralSum k ys := by
  have hmean : mean xs = mean ys := by rw [mean, mean, hperm.sum_eq, hperm.length_eq]
  rw [centralSum, centralSum, hmean, (hperm.map _).sum_eq]

theorem centralSum_one [CharZero K] (xs : List K) : centralSum 1 xs = 0 := by
  rcases eq_or_ne xs [] with rfl | hne
  · rfl
  have hlength : (xs.length : K) ≠ 0 := Nat.cast_ne_zero.mpr (List.length_pos_iff.mpr hne).ne'
  simp only [centralSum, pow_one]
  rw [sum_shift, List.map_id', mean, mul_div_cancel₀ _ hlength, sub_self]

/-- Sums of powers about another point, from those about the first. -/
theorem sum_sq_shift (f : A → K) (c : K) (l : List A) :
    (l.map fun a => (f a - c) ^ 2).sum =
      (l.map fun a => f a ^ 2).sum - 2 * c * (l.map fun a => f a ^ 1).sum + l.length * c ^ 2 := by
  induction l with
  | nil => simp
  | cons a l ih =>
    simp only [List.map_cons, List.sum_cons, ih, List.length_cons, Nat.cast_add, Nat.cast_one]
    ring

theorem sum_cube_shift (f : A → K) (c : K) (l : List A) :
    (l.map fun a => (f a - c) ^ 3).sum =
      (l.map fun a => f a ^ 3).sum - 3 * c * (l.map fun a => f a ^ 2).sum +
        3 * c ^ 2 * (l.map fun a => f a ^ 1).sum - l.length * c ^ 3 := by
  induction l with
  | nil => simp
  | cons a l ih =>
    simp only [List.map_cons, List.sum_cons, ih, List.length_cons, Nat.cast_add, Nat.cast_one]
    ring

theorem sum_fourth_shift (f : A → K) (c : K) (l : List A) :
    (l.map fun a => (f a - c) ^ 4).sum =
      (l.map fun a => f a ^ 4).sum - 4 * c * (l.map fun a => f a ^ 3).sum +
        6 * c ^ 2 * (l.map fun a => f a ^ 2).sum - 4 * c ^ 3 * (l.map fun a => f a ^ 1).sum +
          l.length * c ^ 4 := by
  induction l with
  | nil => simp
  | cons a l ih =>
    simp only [List.map_cons, List.sum_cons, ih, List.length_cons, Nat.cast_add, Nat.cast_one]
    ring

section Update

variable [CharZero K] {x c : K} {xs : List K} (hstep : x - mean xs = (xs.length + 1) * c)

include hstep

/-- The mean moves by `c`, so the deviations of the others do, and the new entry is
as many steps from the new mean as there are others. -/
theorem centralSum_cons (k : ℕ) :
    centralSum k (x :: xs) = (xs.length * c) ^ k + (xs.map fun y => (y - mean xs - c) ^ k).sum := by
  have hnext : (xs.length + 1 : K) ≠ 0 := Nat.cast_add_one_ne_zero _
  have hmean : mean (x :: xs) = mean xs + c := by
    rw [mean_cons, hstep, mul_div_cancel_left₀ _ hnext]
  have hnew : x - (mean xs + c) = xs.length * c := by
    rw [← sub_sub, hstep]
    ring
  rw [centralSum, hmean, List.map_cons, List.sum_cons, hnew]
  simp only [sub_sub]

theorem centralSum_two_cons : centralSum 2 (x :: xs) = centralSum 2 xs + xs.length * (xs.length + 1) * c ^ 2 := by
  rw [centralSum_cons hstep, sum_sq_shift]
  change _ + (centralSum 2 xs - 2 * c * centralSum 1 xs + _) = _
  rw [centralSum_one]
  ring

theorem centralSum_three_cons : centralSum 3 (x :: xs) = centralSum 3 xs - 3 * c * centralSum 2 xs +
    xs.length * (xs.length + 1) * (xs.length - 1) * c ^ 3 := by
  rw [centralSum_cons hstep, sum_cube_shift]
  change _ + (centralSum 3 xs - 3 * c * centralSum 2 xs + 3 * c ^ 2 * centralSum 1 xs - _) = _
  rw [centralSum_one]
  ring

theorem centralSum_four_cons : centralSum 4 (x :: xs) = centralSum 4 xs - 4 * c * centralSum 3 xs +
    6 * c ^ 2 * centralSum 2 xs + xs.length * (xs.length + 1) * (xs.length ^ 2 - xs.length + 1) * c ^ 4 := by
  rw [centralSum_cons hstep, sum_fourth_shift]
  change _ + (centralSum 4 xs - 4 * c * centralSum 3 xs + 6 * c ^ 2 * centralSum 2 xs -
    4 * c ^ 3 * centralSum 1 xs + _) = _
  rw [centralSum_one]
  ring

end Update

theorem comoment_self_nonneg [LinearOrder K] [IsStrictOrderedRing K] (f : A → K) (l : List A) :
    0 ≤ comoment f f l := by
  refine List.sum_nonneg fun d hd => ?_
  obtain ⟨a, -, rfl⟩ := List.mem_map.mp hd
  exact mul_self_nonneg _

end Moments

/-! ### Weighted means -/

section Weighted

variable [Field K]

/-- The mean of some values, each with its weight. -/
def weightedMean (l : List (K × K)) : K := (l.map fun p => p.1 * p.2).sum / (l.map Prod.snd).sum

variable [LinearOrder K] [IsStrictOrderedRing K]

theorem weights_pos {l : List (K × K)} (hsome : l ≠ []) (hweights : ∀ p ∈ l, 0 < p.2) :
    0 < (l.map Prod.snd).sum := by
  refine List.sum_pos _ (fun w hw => ?_) (fun hnil => hsome (List.map_eq_nil_iff.mp hnil))
  obtain ⟨p, hp, rfl⟩ := List.mem_map.mp hw
  exact hweights p hp

/-- Positive weights keep the mean between any bounds of the values. -/
theorem weightedMean_between {l : List (K × K)} (hsome : l ≠ []) (hweights : ∀ p ∈ l, 0 < p.2) {lo hi : K}
    (hbounds : ∀ p ∈ l, lo ≤ p.1 ∧ p.1 ≤ hi) : lo ≤ weightedMean l ∧ weightedMean l ≤ hi := by
  have hpos := weights_pos hsome hweights
  rw [weightedMean, le_div_iff₀ hpos, div_le_iff₀ hpos, ← List.sum_map_mul_left, ← List.sum_map_mul_left]
  constructor
  · exact List.sum_le_sum fun p hp => mul_le_mul_of_nonneg_right (hbounds p hp).1 (le_of_lt (hweights p hp))
  · exact List.sum_le_sum fun p hp => mul_le_mul_of_nonneg_right (hbounds p hp).2 (le_of_lt (hweights p hp))

end Weighted

end Series

/-! An entry of a list that is padded with copies of another value falls outside any
number of standard deviations. -/

namespace Series

variable (few : List ℝ) (u : ℝ)

/-- The mean of a padded list nears the padding. -/
theorem mean_padded {m : ℕ} (hm : 0 < m) :
    mean (few ++ List.replicate m u) =
      u + (few.map fun x => x - u).sum / (few ++ List.replicate m u).length := by
  have hne : few ++ List.replicate m u ≠ [] := by
    intro hnil
    have hlength := congrArg List.length hnil
    rw [List.length_append, List.length_replicate, List.length_nil] at hlength
    omega
  rw [← mean_shift u hne, List.map_append, List.sum_append]
  simp

/-- The deviations of a padded list do not grow with it. -/
theorem comoment_padded_le (m : ℕ) :
    comoment id id (few ++ List.replicate m u) ≤ (few.map fun x => (x - u) * (x - u)).sum := by
  have hshift := comoment_shift id id u u (few ++ List.replicate m u)
  have hsquares : ((few ++ List.replicate m u).map fun x => (id x - u) * (id x - u)).sum =
      (few.map fun x => (x - u) * (x - u)).sum := by
    rw [List.map_append, List.sum_append]
    simp
  rw [hsquares] at hshift
  have hnonneg : 0 ≤ ((few ++ List.replicate m u).map fun x => id x - u).sum *
      ((few ++ List.replicate m u).map fun x => id x - u).sum / (few ++ List.replicate m u).length :=
    div_nonneg (mul_self_nonneg _) (Nat.cast_nonneg _)
  linarith

/-- Padded far enough, a list has its mean within `d / 2` of the padding. -/
theorem mean_padded_near {d : ℝ} (hd : 0 < d) {m : ℕ}
    (hfar : 2 * |(few.map fun x => x - u).sum| / d < m) :
    |mean (few ++ List.replicate m u) - u| < d / 2 := by
  have hterm : 0 ≤ 2 * |(few.map fun x => x - u).sum| / d := by positivity
  have hmpos : 0 < m := by exact_mod_cast hterm.trans_lt hfar
  rw [mean_padded few u hmpos, add_sub_cancel_left, List.length_append, List.length_replicate,
    Nat.cast_add]
  generalize (few.map fun x => x - u).sum = S at hfar hterm ⊢
  have hlength : (0 : ℝ) ≤ few.length := Nat.cast_nonneg _
  rw [abs_div, abs_of_pos (by linarith : (0 : ℝ) < few.length + m), div_lt_iff₀ (by linarith)]
  rw [div_lt_iff₀ hd] at hfar
  have hmore : 0 ≤ few.length * d := mul_nonneg hlength hd.le
  linarith

/-- Padded far enough, a list has `k` standard deviations below `d / 2`. -/
theorem spread_padded_lt {k d : ℝ} (hk : 0 ≤ k) (hd : 0 < d) {m : ℕ}
    (hfar : 4 * k ^ 2 * (few.map fun x => (x - u) * (x - u)).sum / d ^ 2 + 1 < m) :
    k * Real.sqrt (comoment id id (few ++ List.replicate m u) /
      ((few ++ List.replicate m u).length - 1)) < d / 2 := by
  have hQpos : 0 ≤ (few.map fun x => (x - u) * (x - u)).sum :=
    List.sum_nonneg (by simp only [List.mem_map]; rintro _ ⟨x, _, rfl⟩; exact mul_self_nonneg _)
  have hcomoment := comoment_padded_le few u m
  generalize (few.map fun x => (x - u) * (x - u)).sum = Q at hfar hQpos hcomoment
  have hterm : 0 ≤ 4 * k ^ 2 * Q / d ^ 2 := by positivity
  rw [List.length_append, List.length_replicate, Nat.cast_add]
  have hlength : (0 : ℝ) ≤ few.length := Nat.cast_nonneg _
  have hpos : (0 : ℝ) < few.length + m - 1 := by linarith
  have hpast : 4 * k ^ 2 * Q / d ^ 2 < few.length + m - 1 := by linarith
  generalize (few.length + m - 1 : ℝ) = n at hpos hpast ⊢
  have hroot : Real.sqrt (comoment id id (few ++ List.replicate m u) / n) ≤ Real.sqrt (Q / n) :=
    Real.sqrt_le_sqrt (div_le_div_of_nonneg_right hcomoment hpos.le)
  refine lt_of_le_of_lt (mul_le_mul_of_nonneg_left hroot hk) ?_
  -- both sides are not negative, so their squares tell
  refine lt_of_pow_lt_pow_left₀ 2 (by linarith) ?_
  rw [mul_pow, Real.sq_sqrt (div_nonneg hQpos hpos.le), ← mul_div_assoc, div_lt_iff₀ hpos]
  rw [div_lt_iff₀ (by positivity)] at hpast
  linarith

/-- Padded far enough, a list leaves any other value further from its mean than
`k` standard deviations. -/
theorem exists_outlier {k v : ℝ} (hk : 0 ≤ k) (hne : v ≠ u) :
    ∃ far, ∀ m, far ≤ m →
      k * Real.sqrt (comoment id id (few ++ List.replicate m u) /
          ((few ++ List.replicate m u).length - 1)) <
        |v - mean (few ++ List.replicate m u)| := by
  have hd : 0 < |v - u| := abs_pos.mpr (sub_ne_zero.mpr hne)
  obtain ⟨far, hfar⟩ := exists_nat_gt (max (2 * |(few.map fun x => x - u).sum| / |v - u|)
    (4 * k ^ 2 * (few.map fun x => (x - u) * (x - u)).sum / |v - u| ^ 2 + 1))
  refine ⟨far, fun m hm => ?_⟩
  have hmfar : (far : ℝ) ≤ m := Nat.cast_le.mpr hm
  have hnear := mean_padded_near few u hd (((le_max_left _ _).trans_lt hfar).trans_le hmfar)
  have hspread := spread_padded_lt few u hk hd (((le_max_right _ _).trans_lt hfar).trans_le hmfar)
  have hsplit := abs_sub_le v (mean (few ++ List.replicate m u)) u
  linarith

end Series
