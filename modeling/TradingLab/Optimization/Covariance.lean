import Mathlib.Analysis.Real.Sqrt
import Mathlib.Algebra.Order.BigOperators.Group.LocallyFinite
import Mathlib.Order.Interval.Finset.Fin
import TradingLab.Optimization.Constraints
import TradingLab.Rotation

open Matrix

namespace ptl.optimization

/-- An entry `at(i, j)` is `m i j`. -/
abbrev SymmetricMatrix (K : Type) (n : Nat) := Matrix (Fin n) (Fin n) K

section Model

variable {K : Type} [Field K] [LinearOrder K] {n : Nat}

/-- Exact numbers are. -/
def SymmetricMatrix.all_finite (_ : SymmetricMatrix K n) : Bool := true

/-- What `set_symmetric` leaves, called for every place on and above the diagonal. -/
def SymmetricMatrix.set_symmetric (entry : Fin n → Fin n → K) : SymmetricMatrix K n := fun i j =>
  if i ≤ j then entry i j else entry j i

/-- The working matrix, and the eigenvector accumulator. -/
structure Sweep (K : Type) (n : Nat) where
  a : SymmetricMatrix K n
  v : SymmetricMatrix K n

def Sweep.start (m : SymmetricMatrix K n) : Sweep K n := { a := m, v := 1 }

/-- What is above the diagonal, squared. -/
def Sweep.off (st : Sweep K n) : K := ∑ i, ∑ j ∈ Finset.Ioi i, st.a i j * st.a i j

variable (sqrt : K → K)

def tangent (a : SymmetricMatrix K n) (p q : Fin n) : K :=
  let theta := (a q q - a p p) / (a p q + a p q)
  (if theta < 0 then -1 else 1) / (|theta| + sqrt (theta * theta + 1))

def cosine (t : K) : K := 1 / sqrt (t * t + 1)

/-- The body of the two inner loops. Each of its three loops over k touches two entries in
each turn and reads no others. -/
def Sweep.rotate (st : Sweep K n) (place : Fin n × Fin n) : Sweep K n :=
  let (p, q) := place
  if |st.a p q| < 1e-18 then st
  else
    let t := tangent sqrt st.a p q
    let c := cosine sqrt t
    let s := t * c
    { a := Rotation.rows p q c s (Rotation.columns p q c s st.a), v := Rotation.columns p q c s st.v }

/-- The places above the diagonal, row by row. -/
def places (n : Nat) : List (Fin n × Fin n) :=
  (List.finRange n).flatMap fun p => ((List.finRange n).filter fun q => p < q).map (Prod.mk p)

def Sweep.once (st : Sweep K n) : Sweep K n := (places n).foldl (Sweep.rotate sqrt) st

def kMaxSweeps : Nat := 100

/-- The sweeps, and whether they ended by the test. -/
def sweeps : Nat → Sweep K n → Sweep K n × Bool
  | 0, st => (st, false)
  | remaining + 1, st => if st.off < 1e-22 then (st, true) else sweeps remaining (st.once sqrt)

def rotated (m : SymmetricMatrix K n) : Sweep K n × Bool := sweeps sqrt kMaxSweeps (Sweep.start m)

/-- Eigenvalues as they stand on the diagonal. -/
def Sweep.smallest (st : Sweep K n) (first : Fin n) : K :=
  (List.finRange n).foldl (fun smallest i => min smallest (st.a i i)) (st.a first first)

/-- The eigenvalues with a floor. -/
def Sweep.floored (st : Sweep K n) (min_eigenvalue : K) (k : Fin n) : K := max (st.a k k) min_eigenvalue

/-- V diag(λ) V'. -/
def Sweep.rebuilt (st : Sweep K n) (min_eigenvalue : K) : SymmetricMatrix K n :=
  SymmetricMatrix.set_symmetric fun i j => ∑ k, st.v i k * st.floored min_eigenvalue k * st.v j k

/-- The matrix returned, and the two values that are written through pointers. -/
structure Repair (K : Type) (n : Nat) where
  matrix : SymmetricMatrix K n
  repaired : Bool
  smallest : K

def enforce_psd (m : SymmetricMatrix K n) (min_eigenvalue : K) : Result (Repair K n) :=
  if hempty : n = 0 then .error (bad "cannot repair an empty matrix")
  else if ¬ m.all_finite then .error (bad "matrix contains non-finite entries")
  else
    let st := (rotated sqrt m).1
    let smallest := st.smallest ⟨0, Nat.pos_of_ne_zero hempty⟩
    if smallest < min_eigenvalue then
      .ok { matrix := st.rebuilt min_eigenvalue, repaired := true, smallest }
    else .ok { matrix := m, repaired := false, smallest }

end Model

/-! ### What the sweeps keep -/

theorem lt_of_mem_places {n : Nat} {place : Fin n × Fin n} (hmem : place ∈ places n) : place.1 < place.2 := by
  obtain ⟨p, -, hq⟩ := List.mem_flatMap.mp hmem
  obtain ⟨q, hq, rfl⟩ := List.mem_map.mp hq
  simpa using hq

/-- Whatever the tangent, the angle has a sine and a cosine. -/
theorem cosine_unit (t : ℝ) : cosine Real.sqrt t ^ 2 + (t * cosine Real.sqrt t) ^ 2 = 1 := by
  have hpos : 0 < t * t + 1 := add_pos_of_nonneg_of_pos (mul_self_nonneg t) one_pos
  have hsq : Real.sqrt (t * t + 1) ^ 2 = t * t + 1 := Real.sq_sqrt hpos.le
  rw [cosine, mul_pow, div_pow, one_pow, hsq]
  field_simp
  ring

section Kept

variable {n : Nat} {m : SymmetricMatrix ℝ n} {st : Sweep ℝ n}

/-- The working matrix is the one that was given, seen from the axes that were collected. -/
def Sweep.Follows (m : SymmetricMatrix ℝ n) (st : Sweep ℝ n) : Prop := Rotation.Similar m st.a st.v

theorem Sweep.Follows.rotate (h : st.Follows m) {place : Fin n × Fin n} (hne : place.1 ≠ place.2) :
    (st.rotate Real.sqrt place).Follows m := by
  obtain ⟨p, q⟩ := place
  simp only [Sweep.rotate]
  split
  · exact h
  · exact Rotation.Similar.rotate h hne (cosine_unit _)

theorem Sweep.Follows.once (h : st.Follows m) : (st.once Real.sqrt).Follows m :=
  List.foldlRecOn (places n) (Sweep.rotate Real.sqrt) h fun _ hfollows _ hmem =>
    hfollows.rotate (lt_of_mem_places hmem).ne

theorem Sweep.Follows.sweeps (h : st.Follows m) (remaining : Nat) :
    (sweeps Real.sqrt remaining st).1.Follows m := by
  induction remaining generalizing st with
  | zero => exact h
  | succ remaining ih =>
    rw [optimization.sweeps]
    split
    · exact h
    · exact ih h.once

theorem rotated_follows (m : SymmetricMatrix ℝ n) : (rotated Real.sqrt m).1.Follows m := by
  have hstart : (Sweep.start m).Follows m := Rotation.Similar.refl m
  exact hstart.sweeps kMaxSweeps

/-- Sweeps that end by the test leave almost nothing above the diagonal. -/
theorem off_of_sweeps {remaining : Nat} (hended : (sweeps Real.sqrt remaining st).2 = true) :
    (sweeps Real.sqrt remaining st).1.off < 1e-22 := by
  induction remaining generalizing st with
  | zero => cases hended
  | succ remaining ih =>
    rw [sweeps] at hended ⊢
    split
    · assumption
    · rename_i hmore
      rw [if_neg hmore] at hended
      exact ih hended

/-- Both triangles of a symmetric matrix hold the same squares. -/
theorem Sweep.off_diagonal_eq (hsymm : st.a.IsSymm) : Rotation.off_diagonal st.a = 2 * st.off := by
  have hboth := Finset.sum_sum_Ioi_add_eq_sum_sum_off_diag fun i j => st.a i j ^ 2
  rw [Rotation.off_diagonal, Sweep.off, Finset.mul_sum]
  calc ∑ i, ∑ j ∈ {i}ᶜ, st.a i j ^ 2 = ∑ i, ∑ j ∈ {i}ᶜ, st.a j i ^ 2 := by simp only [hsymm.apply]
    _ = ∑ i, ∑ j ∈ Finset.Ioi i, (st.a j i ^ 2 + st.a i j ^ 2) := hboth.symm
    _ = ∑ i, 2 * ∑ j ∈ Finset.Ioi i, st.a i j * st.a i j := by
        refine Finset.sum_congr rfl fun i _ => ?_
        rw [Finset.mul_sum]
        refine Finset.sum_congr rfl fun j _ => ?_
        rw [hsymm.apply i j]
        ring

theorem foldl_min_le (l : List (Fin n)) (f : Fin n → ℝ) (start : ℝ) :
    l.foldl (fun smallest i => min smallest (f i)) start ≤ start ∧
      ∀ i ∈ l, l.foldl (fun smallest i => min smallest (f i)) start ≤ f i := by
  induction l generalizing start with
  | nil => simp
  | cons i l ih =>
    obtain ⟨hstart, hall⟩ := ih (min start (f i))
    refine ⟨hstart.trans (min_le_left _ _), List.forall_mem_cons.mpr ⟨hstart.trans (min_le_right _ _), hall⟩⟩

theorem Sweep.smallest_le (st : Sweep ℝ n) (first i : Fin n) : st.smallest first ≤ st.a i i :=
  (foldl_min_le _ (fun i => st.a i i) _).2 i (List.mem_finRange i)

/-- The repaired matrix is the rotated one with other values on its diagonal, turned back. -/
theorem Sweep.rebuilt_eq (st : Sweep ℝ n) (min_eigenvalue : ℝ) :
    st.rebuilt min_eigenvalue = st.v * diagonal (st.floored min_eigenvalue) * st.vᵀ := by
  ext i j
  have hentry : ∀ i j : Fin n, (st.v * diagonal (st.floored min_eigenvalue) * st.vᵀ) i j =
      ∑ k, st.v i k * st.floored min_eigenvalue k * st.v j k := fun i j => by
    rw [Matrix.mul_apply]
    simp only [mul_diagonal, transpose_apply]
  rw [Sweep.rebuilt, SymmetricMatrix.set_symmetric]
  split
  · exact (hentry i j).symm
  · rw [← hentry]
    exact (Rotation.isSymm_rebuilt _).apply i j

/-- A repaired matrix is above the floor in every direction. -/
theorem Sweep.Follows.rebuilt (h : st.Follows m) (min_eigenvalue : ℝ) :
    (st.rebuilt min_eigenvalue).IsSymm ∧
      (∀ w, min_eigenvalue * (w ⬝ᵥ w) ≤ w ⬝ᵥ (st.rebuilt min_eigenvalue *ᵥ w)) ∧
      (st.rebuilt min_eigenvalue).trace = ∑ k, st.floored min_eigenvalue k := by
  rw [st.rebuilt_eq]
  exact ⟨Rotation.isSymm_rebuilt _,
    Rotation.le_rebuilt h.orthogonal fun _ => le_max_right _ _, Rotation.trace_rebuilt h.orthogonal _⟩

/-- Where the diagonal of a matrix that is almost rotated away is above the floor, so is
the matrix, up to what is left off the diagonal. -/
theorem Sweep.Follows.le_of_off (h : st.Follows m) (hsymm : m.IsSymm) {min_eigenvalue : ℝ}
    (hfloor : ∀ i, min_eigenvalue ≤ st.a i i) (hoff : st.off < 1e-22) (w : Fin n → ℝ) :
    (min_eigenvalue - 2e-11) * (w ⬝ᵥ w) ≤ w ⬝ᵥ (m *ᵥ w) := by
  have hleft : Rotation.off_diagonal st.a ≤ 2e-11 ^ 2 := by
    rw [Sweep.off_diagonal_eq (Rotation.Similar.isSymm h hsymm)]
    norm_num at hoff ⊢
    linarith only [hoff]
  have hback : m = st.v * st.a * st.vᵀ := Rotation.Similar.eq_back h
  rw [hback, Rotation.dot_conjugate, ← Rotation.dot_transpose h.orthogonal w]
  exact Rotation.le_of_nearly_diagonal hfloor (by norm_num) hleft _

end Kept

/-- What a repair gives. -/
theorem enforce_psd_sound {n : Nat} {m : SymmetricMatrix ℝ n} {min_eigenvalue : ℝ} {r : Repair ℝ n}
    (hsymm : m.IsSymm) (hok : enforce_psd Real.sqrt m min_eigenvalue = .ok r) :
    r.matrix.IsSymm ∧
      (r.repaired = true →
        (∀ w, min_eigenvalue * (w ⬝ᵥ w) ≤ w ⬝ᵥ (r.matrix *ᵥ w)) ∧
          r.matrix.trace = ∑ k, (rotated Real.sqrt m).1.floored min_eigenvalue k) ∧
      (r.repaired = false → (rotated Real.sqrt m).2 = true →
        r.matrix = m ∧ ∀ w, (min_eigenvalue - 2e-11) * (w ⬝ᵥ w) ≤ w ⬝ᵥ (m *ᵥ w)) := by
  have hfollows := rotated_follows m
  unfold enforce_psd at hok
  split at hok
  · cases hok
  · rename_i hsome
    split at hok
    · cases hok
    · dsimp only at hok
      split at hok
      · cases hok
        obtain ⟨hsymm', hle, htrace⟩ := hfollows.rebuilt min_eigenvalue
        refine ⟨hsymm', fun _ => ⟨hle, htrace⟩, fun hkept => ?_⟩
        cases hkept
      · rename_i hfloor
        cases hok
        refine ⟨hsymm, fun hrepaired => ?_, fun _ hended => ⟨rfl, ?_⟩⟩
        · cases hrepaired
        · have hdiagonal : ∀ i, min_eigenvalue ≤ (rotated Real.sqrt m).1.a i i := fun i =>
            (not_lt.mp hfloor).trans (Sweep.smallest_le _ _ i)
          exact hfollows.le_of_off hsymm hdiagonal (off_of_sweeps hended)

/-- A diagonal matrix is not rotated. -/
theorem rotated_diagonal {n : Nat} (d : Fin n → ℝ) :
    rotated Real.sqrt (diagonal d) = (Sweep.start (diagonal d), true) := by
  have hoff : (Sweep.start (diagonal d)).off = 0 :=
    Finset.sum_eq_zero fun i _ => Finset.sum_eq_zero fun j hj => by
      have hne : i ≠ j := (Finset.mem_Ioi.mp hj).ne
      simp [Sweep.start, diagonal_apply_ne d hne]
  rw [rotated, kMaxSweeps, sweeps, if_pos (by rw [hoff]; norm_num)]

theorem enforce_psd_sound_diagonal :
    ∃ r, enforce_psd Real.sqrt (diagonal ![2, -1] : SymmetricMatrix ℝ 2) 1 = .ok r ∧ r.repaired = true ∧
      ∀ w, 1 * (w ⬝ᵥ w) ≤ w ⬝ᵥ (r.matrix *ᵥ w) := by
  have hsmallest : (Sweep.start (diagonal ![2, -1] : SymmetricMatrix ℝ 2)).smallest 0 < 1 := by
    have hle := Sweep.smallest_le (Sweep.start (diagonal ![2, -1] : SymmetricMatrix ℝ 2)) 0 1
    simp only [Sweep.start, diagonal_apply_eq] at hle
    exact hle.trans_lt (by norm_num)
  have hok : enforce_psd Real.sqrt (diagonal ![2, -1] : SymmetricMatrix ℝ 2) 1 =
      .ok { matrix := (Sweep.start (diagonal ![2, -1])).rebuilt 1, repaired := true,
            smallest := (Sweep.start (diagonal ![2, -1])).smallest 0 } := by
    unfold enforce_psd
    rw [dif_neg (by decide), if_neg (by simp [SymmetricMatrix.all_finite])]
    simp only [rotated_diagonal]
    exact if_pos hsmallest
  exact ⟨_, hok, rfl, ((enforce_psd_sound (isSymm_diagonal _) hok).2.1 rfl).1⟩

end ptl.optimization
