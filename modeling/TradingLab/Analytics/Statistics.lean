import Mathlib.Order.Bounds.Basic
import TradingLab.Features.Unsigned

open Series
open ptl.features (MathFunctions realMath)

namespace ptl.analytics

variable {K : Type*} [Field K] [LinearOrder K]

/-- Streaming moments, and the squared shortfalls below one threshold. -/
structure StatisticsAccumulator (K : Type*) where
  n : Nat := 0
  mean_ : K
  m2 : K
  m3 : K
  m4 : K
  sum : K
  min_ : K
  max_ : K
  downside_sq : K
  downside_threshold : K
  downside_valid : Bool := false

namespace StatisticsAccumulator

def new (downside_threshold : K) : StatisticsAccumulator K where
  mean_ := 0
  m2 := 0
  m3 := 0
  m4 := 0
  sum := 0
  min_ := 0
  max_ := 0
  downside_sq := 0
  downside_threshold
  downside_valid := true

def update (s : StatisticsAccumulator K) (x : K) : StatisticsAccumulator K :=
  let n1 : K := s.n
  let n : K := (s.n + 1 : Nat)
  let delta := x - s.mean_
  let delta_n := delta / n
  let delta_n2 := delta_n * delta_n
  let term := delta * delta_n * n1
  let d := min 0 (x - s.downside_threshold)
  { s with
    n := s.n + 1
    min_ := if s.n = 0 then x else min s.min_ x
    max_ := if s.n = 0 then x else max s.max_ x
    mean_ := s.mean_ + delta_n
    -- Each moment is updated from the lower moments before the observation.
    m4 := s.m4 + (term * delta_n2 * (n * n - (3 : Nat) * n + (3 : Nat)) + (6 : Nat) * delta_n2 * s.m2 -
      (4 : Nat) * delta_n * s.m3)
    m3 := s.m3 + (term * delta_n * (n - (2 : Nat)) - (3 : Nat) * delta_n * s.m2)
    m2 := s.m2 + term
    sum := s.sum + x
    downside_sq := if s.downside_valid then s.downside_sq + d * d else s.downside_sq }

def mean (s : StatisticsAccumulator K) : K := if 0 < s.n then s.mean_ else 0

def min (s : StatisticsAccumulator K) : K := if 0 < s.n then s.min_ else 0

def max (s : StatisticsAccumulator K) : K := if 0 < s.n then s.max_ else 0

def variance (s : StatisticsAccumulator K) : K := if s.n < 2 then 0 else s.m2 / (s.n - 1 : Nat)

def stdev (math : MathFunctions K) (s : StatisticsAccumulator K) : K := math.sqrt (Max.max 0 s.variance)

def skewness (math : MathFunctions K) (pow : K → K → K) (s : StatisticsAccumulator K) : K :=
  if s.n < 3 ∨ s.m2 ≤ 0 then 0 else math.sqrt s.n * s.m3 / pow s.m2 (((3 : Nat) : K) / ((2 : Nat) : K))

def excess_kurtosis (s : StatisticsAccumulator K) : K :=
  if s.n < 4 ∨ s.m2 ≤ 0 then 0 else s.n * s.m4 / (s.m2 * s.m2) - (3 : Nat)

/-- Only the threshold accumulated is answered. -/
def downside_deviation (math : MathFunctions K) (s : StatisticsAccumulator K) (threshold : K) : K :=
  if s.n = 0 then 0
  else if s.downside_valid ∧ threshold = s.downside_threshold then math.sqrt (s.downside_sq / s.n)
  else 0

def reset (s : StatisticsAccumulator K) : StatisticsAccumulator K :=
  { s with
    n := 0
    mean_ := 0
    m2 := 0
    m3 := 0
    m4 := 0
    sum := 0
    min_ := 0
    max_ := 0
    downside_sq := 0
    downside_valid := false }

/-! ### Batch moments -/

/-- The squared shortfalls below a threshold. -/
def shortfalls (threshold : K) (xs : List K) : K := (xs.map fun x => Min.min 0 (x - threshold) ^ 2).sum

/-- What is accumulated is what the observations so far come to. -/
structure Tracks (s : StatisticsAccumulator K) (configured : K) (past : List K) : Prop where
  n_eq : s.n = past.length
  mean_eq : s.mean_ = Series.mean past
  m2_eq : s.m2 = centralSum 2 past
  m3_eq : s.m3 = centralSum 3 past
  m4_eq : s.m4 = centralSum 4 past
  sum_eq : s.sum = past.sum
  min_least : past ≠ [] → IsLeast {x | x ∈ past} s.min_
  max_greatest : past ≠ [] → IsGreatest {x | x ∈ past} s.max_
  downside_eq : s.downside_sq = shortfalls configured past
  threshold_eq : s.downside_threshold = configured
  valid : s.downside_valid = true

theorem new_tracks (configured : K) : (new configured).Tracks configured [] where
  n_eq := rfl
  mean_eq := by simp [new, Series.mean]
  m2_eq := rfl
  m3_eq := rfl
  m4_eq := rfl
  sum_eq := rfl
  min_least hne := absurd rfl hne
  max_greatest hne := absurd rfl hne
  downside_eq := rfl
  threshold_eq := rfl
  valid := rfl

variable {s : StatisticsAccumulator K} {configured : K} {past : List K}

omit [Field K] in
theorem isLeast_cons {a x : K} (hleast : IsLeast {y | y ∈ past} a) :
    IsLeast {y | y ∈ x :: past} (Min.min a x) := by
  have hset : {y | y ∈ x :: past} = insert x {y | y ∈ past} := by
    ext y
    exact List.mem_cons
  rw [hset, min_comm]
  exact hleast.insert x

omit [Field K] in
theorem isGreatest_cons {a x : K} (hgreatest : IsGreatest {y | y ∈ past} a) :
    IsGreatest {y | y ∈ x :: past} (Max.max a x) := by
  have hset : {y | y ∈ x :: past} = insert x {y | y ∈ past} := by
    ext y
    exact List.mem_cons
  rw [hset, max_comm]
  exact hgreatest.insert x

variable [IsStrictOrderedRing K]

/-- One observation more. -/
theorem Tracks.update (htracks : s.Tracks configured past) (x : K) : (s.update x).Tracks configured (x :: past) := by
  obtain ⟨hn, hmean, hm2, hm3, hm4, hsum, hmin, hmax, hdownside, hthreshold, hvalid⟩ := htracks
  have hnext : (past.length + 1 : K) ≠ 0 := Nat.cast_add_one_ne_zero _
  have hstep : x - Series.mean past = (past.length + 1) * ((x - Series.mean past) / (past.length + 1)) :=
    (mul_div_cancel₀ _ hnext).symm
  generalize hc : (x - Series.mean past) / (past.length + 1) = c at hstep
  have hzero : past.length = 0 → past = [] := List.length_eq_zero_iff.mp
  refine ⟨?_, ?_, ?_, ?_, ?_, ?_, fun _ => ?_, fun _ => ?_, ?_, hthreshold, hvalid⟩
  · exact congrArg (· + 1) hn
  · simp only [StatisticsAccumulator.update, hn, hmean, Nat.cast_add, Nat.cast_one, hc]
    rw [mean_cons, hc]
  · simp only [StatisticsAccumulator.update, hn, hmean, hm2, Nat.cast_add, Nat.cast_one, hc]
    rw [centralSum_two_cons hstep, hstep]
    ring
  · simp only [StatisticsAccumulator.update, hn, hmean, hm2, hm3, Nat.cast_add, Nat.cast_one, Nat.cast_ofNat, hc]
    rw [centralSum_three_cons hstep, hstep]
    ring
  · simp only [StatisticsAccumulator.update, hn, hmean, hm2, hm3, hm4, Nat.cast_add, Nat.cast_one, Nat.cast_ofNat, hc]
    rw [centralSum_four_cons hstep, hstep]
    ring
  · simp only [StatisticsAccumulator.update, hsum, List.sum_cons]
    exact add_comm _ _
  · simp only [StatisticsAccumulator.update, hn]
    split
    · rename_i hnone
      rw [hzero hnone]
      simp [isLeast_singleton]
    · rename_i hsome
      exact isLeast_cons (hmin fun hnil => hsome (by rw [hnil]; rfl))
  · simp only [StatisticsAccumulator.update, hn]
    split
    · rename_i hnone
      rw [hzero hnone]
      simp [isGreatest_singleton]
    · rename_i hsome
      exact isGreatest_cons (hmax fun hnil => hsome (by rw [hnil]; rfl))
  · simp only [StatisticsAccumulator.update, hvalid, hdownside, hthreshold, if_true, shortfalls, List.map_cons,
      List.sum_cons]
    ring

theorem stream_tracks (configured : K) (xs : List K) :
    (xs.foldl StatisticsAccumulator.update (new configured)).Tracks configured xs.reverse :=
  foldl_tracks (P := fun s past => Tracks s configured past) (new_tracks configured)
    (fun _ _ x htracks => htracks.update x) xs

end StatisticsAccumulator

/-! ### Every query after a whole stream -/

namespace StatisticsAccumulator

/-- What is reported of some observations is what their definitions give. -/
structure Batch (s : StatisticsAccumulator ℝ) (xs : List ℝ) (threshold : ℝ) : Prop where
  count_eq : s.n = xs.length
  mean_eq : s.mean = Series.mean xs
  min_least : xs ≠ [] → IsLeast {x | x ∈ xs} s.min
  max_greatest : xs ≠ [] → IsGreatest {x | x ∈ xs} s.max
  sum_eq : s.sum = xs.sum
  m2_eq : s.m2 = centralSum 2 xs
  m3_eq : s.m3 = centralSum 3 xs
  m4_eq : s.m4 = centralSum 4 xs
  downside_eq : s.downside_deviation realMath threshold ^ 2 = shortfalls threshold xs / xs.length

theorem shortfalls_nonneg (threshold : ℝ) (xs : List ℝ) : 0 ≤ shortfalls threshold xs := by
  refine List.sum_nonneg fun d hd => ?_
  obtain ⟨x, -, rfl⟩ := List.mem_map.mp hd
  exact sq_nonneg _

/-- There is no shortfall where nothing is below the threshold. -/
theorem shortfalls_eq_zero_iff (threshold : ℝ) (xs : List ℝ) :
    shortfalls threshold xs = 0 ↔ ∀ x ∈ xs, threshold ≤ x := by
  induction xs with
  | nil => simp [shortfalls]
  | cons x xs ih =>
    have hrest := shortfalls_nonneg threshold xs
    have hsplit : shortfalls threshold (x :: xs) =
        Min.min 0 (x - threshold) ^ 2 + shortfalls threshold xs := List.sum_cons
    rw [hsplit, add_eq_zero_iff_of_nonneg (sq_nonneg _) hrest, ih, List.forall_mem_cons, sq_eq_zero_iff,
      min_eq_left_iff, sub_nonneg]

theorem shortfalls_reverse (threshold : ℝ) (xs : List ℝ) : shortfalls threshold xs.reverse = shortfalls threshold xs :=
  (xs.reverse_perm.map _).sum_eq

variable {s : StatisticsAccumulator ℝ} {configured : ℝ} {past : List ℝ}

/-- The threshold accumulated is answered in full, every other one by zero. -/
theorem Tracks.downside_deviation_sq (htracks : s.Tracks configured past) (threshold : ℝ) :
    s.downside_deviation realMath threshold ^ 2 =
      if threshold = configured then shortfalls threshold past / past.length else 0 := by
  unfold downside_deviation
  rw [htracks.n_eq, htracks.valid, htracks.threshold_eq, htracks.downside_eq]
  by_cases hsame : threshold = configured
  · rw [if_pos hsame, ← hsame]
    split
    · rename_i hnone
      rw [hnone, Nat.cast_zero, div_zero]
      norm_num
    · rw [if_pos ⟨rfl, rfl⟩]
      exact Real.sq_sqrt (div_nonneg (shortfalls_nonneg _ _) (Nat.cast_nonneg _))
  · rw [if_neg hsame]
    split
    · norm_num
    · rw [if_neg fun hboth => hsame hboth.2]
      norm_num

/-- After every stream the moments are those of the whole batch. So is the downside
deviation about the threshold accumulated, and about one that nothing is below; any
other threshold is answered by zero. -/
theorem stream_batch_iff (configured threshold : ℝ) (xs : List ℝ) :
    (xs.foldl StatisticsAccumulator.update (new configured)).Batch xs threshold ↔
      threshold = configured ∨ ∀ x ∈ xs, threshold ≤ x := by
  have htracks := stream_tracks configured xs
  have hdownside := htracks.downside_deviation_sq threshold
  have hlength : xs.reverse.length = xs.length := List.length_reverse
  have hmem : {x | x ∈ xs.reverse} = {x | x ∈ xs} := Set.ext fun x => List.mem_reverse
  rw [shortfalls_reverse, hlength] at hdownside
  have hdown : (if threshold = configured then shortfalls threshold xs / xs.length else 0) =
      shortfalls threshold xs / xs.length ↔ threshold = configured ∨ ∀ x ∈ xs, threshold ≤ x := by
    by_cases hsame : threshold = configured
    · simp only [hsame, if_true, true_or]
    · rw [if_neg hsame, or_iff_right hsame, ← shortfalls_eq_zero_iff, eq_comm, div_eq_zero_iff]
      refine or_iff_left_of_imp fun hnone => ?_
      rw [List.length_eq_zero_iff.mp (Nat.cast_eq_zero.mp hnone)]
      rfl
  constructor
  · intro hbatch
    exact hdown.mp (hdownside.symm.trans hbatch.downside_eq)
  · intro hcondition
    have hsome : xs ≠ [] → 0 < (xs.foldl StatisticsAccumulator.update (new configured)).n := by
      intro hne
      rw [htracks.n_eq, hlength]
      exact List.length_pos_iff.mpr hne
    refine ⟨htracks.n_eq.trans hlength, ?_, fun hne => ?_, fun hne => ?_, ?_, ?_, ?_, ?_,
      hdownside.trans (hdown.mpr hcondition)⟩
    · rw [mean, htracks.mean_eq, htracks.n_eq, hlength, mean_reverse]
      split
      · rfl
      · rename_i hnone
        rw [List.length_eq_zero_iff.mp (Nat.eq_zero_of_not_pos hnone)]
        simp [Series.mean]
    · rw [min, if_pos (hsome hne), ← hmem]
      exact htracks.min_least fun hnil => hne (List.reverse_eq_nil_iff.mp hnil)
    · rw [max, if_pos (hsome hne), ← hmem]
      exact htracks.max_greatest fun hnil => hne (List.reverse_eq_nil_iff.mp hnil)
    · rw [htracks.sum_eq, xs.reverse_perm.sum_eq]
    · rw [htracks.m2_eq, centralSum_perm 2 xs.reverse_perm]
    · rw [htracks.m3_eq, centralSum_perm 3 xs.reverse_perm]
    · rw [htracks.m4_eq, centralSum_perm 4 xs.reverse_perm]

/-- A deviation about one, of a single zero, by an accumulator about zero. -/
theorem stream_batch_other_threshold :
    ¬ ([(0 : ℝ)].foldl StatisticsAccumulator.update (new 0)).Batch [0] 1 := by
  intro hbatch
  have hdownside := hbatch.downside_eq
  simp [downside_deviation, StatisticsAccumulator.update, new, shortfalls] at hdownside

end StatisticsAccumulator

end ptl.analytics
