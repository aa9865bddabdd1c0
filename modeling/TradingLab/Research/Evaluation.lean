import Mathlib.Data.Fintype.EquivFin
import Mathlib.Data.List.FinRange
import Mathlib.Order.Monotone.Defs
import TradingLab.Features.CrossSectional
import TradingLab.Ranking

open PairCount
open ptl.features (ranked_before assign_ranks assign_ranks_sorted block_rank percentile percentile_perm
  percentile_ranks percentile_ranks_eq)

namespace ptl.research

/-! ### Ranks -/

section Ranks

variable (v : List Rat)

/-- From place `i` of the sorted order on, every tied block gets the average of its
places. -/
def average_ranks : Nat → List Nat → List Rat → List Rat
  | _, [], r => r
  | i, k :: rest, r =>
    let same x : Bool := v.getD x 0 = v.getD k 0
    let tied := rest.takeWhile same
    let j := i + tied.length
    let avg := ((i : Rat) + j) * 0.5
    average_ranks (j + 1) (rest.dropWhile same) ((k :: tied).foldl (fun r x => r.set x avg) r)
  termination_by _ l => l.length
  decreasing_by exact Nat.lt_succ_of_le (rest.dropWhile_sublist _).length_le

/-- Fractional ranks with ties averaged, from zero on. -/
def ranks_of : List Rat :=
  average_ranks v 0 (Ranking.sort (ranked_before v) (List.range v.length)) (List.replicate v.length 0)

end Ranks

/-! ### Classification -/

structure ClassificationMetrics where
  n : Nat := 0
  true_positives : Nat := 0
  false_positives : Nat := 0
  true_negatives : Nat := 0
  false_negatives : Nat := 0
  accuracy : Rat := 0
  precision : Rat := 0
  recall_ : Rat := 0
  f1 : Rat := 0
  auc : Rat := 0
  calibration_error : Rat := 0
  deriving DecidableEq, Repr

def actual (outcome : Rat) : Bool := 0.5 < outcome

def kBins : Nat := 10

def bin_of (p : Rat) : Nat := min (kBins - 1) ⌊p * kBins⌋.toNat

/-- Mean distance of a probability from its frequency, over the bins in use. -/
def calibration_error (observations : List (Rat × Rat)) : Rat :=
  let clamped := observations.map fun o => (features.clamp o.1 0 1, if actual o.2 then (1 : Rat) else 0)
  let bins := (List.range kBins).map fun b => clamped.filter fun o => bin_of o.1 = b
  let used := bins.filter fun bin => !bin.isEmpty
  let total_error := (used.map fun bin : List (Rat × Rat) =>
    |(bin.map Prod.fst).sum / bin.length - (bin.map Prod.snd).sum / bin.length|).sum
  if 0 < used.length then total_error / used.length else 0

/-- By the rank sum of the positives. One half where a class is absent. -/
def auc_of (predictions outcomes : List Rat) : Rat :=
  let ranked := ((ranks_of predictions).zip outcomes).filter fun o => actual o.2
  let positive_rank_sum := (ranked.map fun o => o.1 + 1).sum
  let n_pos := ranked.length
  let n_neg := predictions.length - n_pos
  if 0 < n_pos ∧ 0 < n_neg then
    let np : Rat := n_pos
    let nn : Rat := n_neg
    (positive_rank_sum - np * (np + 1) * 0.5) / (np * nn)
  else 0.5

def Evaluator.classification (predictions outcomes : List Rat) (threshold : Rat := 0.5) :
    Result ClassificationMetrics :=
  if predictions.length ≠ outcomes.length then
    .error (make_error .InvalidArgument "prediction and outcome series lengths differ")
  else if predictions.isEmpty then
    .error (make_error .InvalidArgument "cannot evaluate an empty series")
  else
    let observations := predictions.zip outcomes
    let n := predictions.length
    let true_positives := observations.countP fun o => threshold ≤ o.1 && actual o.2
    let false_positives := observations.countP fun o => threshold ≤ o.1 && !actual o.2
    let false_negatives := observations.countP fun o => !decide (threshold ≤ o.1) && actual o.2
    let true_negatives := observations.countP fun o => !decide (threshold ≤ o.1) && !actual o.2
    let pp : Rat := true_positives + false_positives
    let ap : Rat := true_positives + false_negatives
    let precision := if 0 < pp then (true_positives : Rat) / pp else 0
    let recall_ := if 0 < ap then (true_positives : Rat) / ap else 0
    .ok {
      n, true_positives, false_positives, true_negatives, false_negatives, precision, recall_
      accuracy := (true_positives + true_negatives : Nat) / (n : Rat)
      f1 := if 0 < precision + recall_ then 2 * precision * recall_ / (precision + recall_) else 0
      auc := auc_of predictions outcomes
      calibration_error := calibration_error observations }

/-! ### What a rank is -/

/-- Dividing the ranks of the loop gives the percentiles of its twin. -/
theorem map_average_ranks {v : List Rat} (i : Nat) (l : List Nat) (r : List Rat) :
    (average_ranks v i l r).map (· / ((v.length : Rat) - 1)) =
      assign_ranks v i l (r.map (· / ((v.length : Rat) - 1))) := by
  induction i, l, r using average_ranks.induct v with
  | case1 i r => rw [average_ranks, assign_ranks]
  | case2 i k rest r same tied j avg ih =>
    have hblock : ∀ (block : List Nat) (r : List Rat),
        (block.foldl (fun r x => r.set x avg) r).map (· / ((v.length : Rat) - 1)) =
          block.foldl (fun r x => r.set x (avg / ((v.length : Rat) - 1)))
            (r.map (· / ((v.length : Rat) - 1))) := by
      intro block
      induction block with
      | nil => exact fun r => rfl
      | cons x block ihblock =>
        intro r
        rw [List.foldl_cons, List.foldl_cons, ihblock, List.map_set]
    rw [average_ranks, assign_ranks]
    refine ih.trans ?_
    rw [hblock]

theorem countP_le_eq (v : List Rat) (x : Rat) : v.countP (· ≤ x) = v.countP (· < x) + v.countP (· = x) := by
  induction v with
  | nil => rfl
  | cons y v ih =>
    rw [List.countP_cons, List.countP_cons, List.countP_cons, ih]
    simp only [decide_eq_true_eq]
    obtain hless | hsame | hmore := lt_trichotomy y x
    · rw [if_pos hless.le, if_pos hless, if_neg (ne_of_lt hless)]
      omega
    · rw [hsame, if_pos le_rfl, if_neg (lt_irrefl x), if_pos rfl]
      omega
    · rw [if_neg (not_le.mpr hmore), if_neg (lt_asymm hmore), if_neg (ne_of_gt hmore)]
      omega

theorem block_rank_eq (v : List Rat) (x : Rat) :
    block_rank v (v.countP (· < x)) (v.countP (· ≤ x)) = place v x / ((v.length : Rat) - 1) := by
  rw [block_rank, countP_le_eq, place]
  push_cast
  ring

/-- A rank is the average place of the value's block. -/
theorem ranks_of_eq (v : List Rat) : ranks_of v = v.map (place v) := by
  match v with
  | [] => simp [ranks_of, Ranking.sort, average_ranks]
  | [x] => simp [ranks_of, Ranking.sort, average_ranks, place]
  | x :: y :: v =>
    have hscale : (((x :: y :: v).length : Rat) - 1) ≠ 0 := by
      have hnonneg : (0 : Rat) ≤ v.length := Nat.cast_nonneg _
      rw [List.length_cons, List.length_cons]
      push_cast
      intro hnone
      linarith
    have hzero : (List.replicate (x :: y :: v).length (0 : Rat)).map (· / (((x :: y :: v).length : Rat) - 1)) =
        List.replicate (x :: y :: v).length 0 := by
      rw [List.map_replicate, zero_div]
    refine List.map_injective_iff.mpr (fun a b hsame => (div_left_inj' hscale).mp hsame) ?_
    rw [ranks_of, map_average_ranks, hzero, assign_ranks_sorted _ List.length_replicate, List.map_map]
    exact List.map_congr_left fun z _ => block_rank_eq _ z

/-! ### Pair counts -/

/-- The predictions for the observations of the class above one half. -/
def positives (predictions outcomes : List Rat) : List Rat :=
  ((predictions.zip outcomes).filter fun o => actual o.2).map Prod.fst

def negatives (predictions outcomes : List Rat) : List Rat :=
  ((predictions.zip outcomes).filter fun o => !actual o.2).map Prod.fst

/-- The pairs of a positive and a negative that are ranked correctly, and half of
those tied in prediction. -/
def pairs_won (predictions outcomes : List Rat) : Rat :=
  let pairs := (positives predictions outcomes).product (negatives predictions outcomes)
  (pairs.countP fun p => p.2 < p.1) + (pairs.countP fun p => p.2 = p.1 : Rat) / 2

section Pairs

variable {predictions outcomes : List Rat} (hlength : predictions.length = outcomes.length)

include hlength in
theorem classes_perm : (positives predictions outcomes ++ negatives predictions outcomes).Perm predictions := by
  have hfst : (predictions.zip outcomes).map Prod.fst = predictions := List.map_fst_zip hlength.le
  rw [positives, negatives, ← List.map_append]
  conv_rhs => rw [← hfst]
  exact (List.filter_append_perm _ _).map _

variable (predictions outcomes) in
/-- The ranked positives, each with the place of its prediction. -/
theorem ranked_eq : (((ranks_of predictions).zip outcomes).filter fun o => actual o.2).map (fun o => o.1 + 1) =
    (positives predictions outcomes).map fun p => place predictions p + 1 := by
  have hzip : (ranks_of predictions).zip outcomes =
      (predictions.zip outcomes).map fun o => (place predictions o.1, o.2) := by
    rw [ranks_of_eq, List.zip_map_left]
    rfl
  rw [hzip, List.filter_map, List.map_map, positives, List.map_map]
  rfl

include hlength in
/-- The area under the curve is the share of pairs won. -/
theorem auc_of_eq (hpos : positives predictions outcomes ≠ []) (hneg : negatives predictions outcomes ≠ []) :
    auc_of predictions outcomes = pairs_won predictions outcomes /
      ((positives predictions outcomes).length * (negatives predictions outcomes).length) := by
  have hranked := ranked_eq predictions outcomes
  have hcount : (((ranks_of predictions).zip outcomes).filter fun o => actual o.2).length =
      (positives predictions outcomes).length := by
    have hlengths := congrArg List.length hranked
    rwa [List.length_map, List.length_map] at hlengths
  have hall : (positives predictions outcomes).length + (negatives predictions outcomes).length =
      predictions.length := by
    rw [← List.length_append, (classes_perm hlength).length_eq]
  have hpos' := List.length_pos_iff.mpr hpos
  have hneg' := List.length_pos_iff.mpr hneg
  have hother : predictions.length - (positives predictions outcomes).length =
      (negatives predictions outcomes).length := by omega
  have hsum : ((positives predictions outcomes).map fun p => place predictions p + 1).sum =
      ((positives predictions outcomes).length : Rat) * ((positives predictions outcomes).length + 1) / 2 +
        pairs_won predictions outcomes := by
    calc ((positives predictions outcomes).map fun p => place predictions p + 1).sum
        = ((positives predictions outcomes).map fun p =>
            place (positives predictions outcomes ++ negatives predictions outcomes) p + 1).sum := by
          simp only [place_perm (classes_perm hlength)]
      _ = _ := by rw [sum_place, pairSum_score, pairs_won]
  rw [auc_of]
  dsimp only
  rw [hranked, hcount, hother, if_pos ⟨hpos', hneg'⟩, hsum]
  congr 1
  ring

end Pairs

theorem Evaluator.classification_ok {predictions outcomes : List Rat}
    (hlength : predictions.length = outcomes.length) (hsome : predictions ≠ []) (threshold : Rat) :
    ∃ m, classification predictions outcomes threshold = .ok m ∧ m.auc = auc_of predictions outcomes := by
  rw [classification, if_neg (not_not.mpr hlength), if_neg (by simpa using hsome)]
  exact ⟨_, rfl, rfl⟩

/-! ### Percentiles -/

/-- The rank of a value among others: how many are smaller, and half of the others
that are equal, over how many others there are. Halfway where there is no other. -/
def rank_among (values : List Rat) (v : Rat) : Rat :=
  if values.length = 1 then 1 / 2
  else ((values.countP (· < v)) + ((values.countP (· = v) : Rat) - 1) / 2) / ((values.length : Rat) - 1)

theorem percentile_of_mem {values : List Rat} {v : Rat} (hmem : v ∈ values) :
    percentile values v = rank_among values v := by
  have hpos := List.length_pos_of_mem hmem
  rw [percentile, rank_among]
  by_cases hone : values.length = 1
  · rw [if_pos hone.le, if_pos hone]
    norm_num
  · rw [if_neg (by omega), if_neg hone, block_rank_eq, place]

theorem percentile_ranks_getElem? (values : List Rat) (i : Nat) :
    (percentile_ranks values)[i]? = (values[i]?).map (rank_among values) := by
  rw [percentile_ranks_eq, List.getElem?_map]
  cases hv : values[i]? with
  | none => rfl
  | some v => rw [Option.map_some, Option.map_some, percentile_of_mem (List.mem_of_getElem? hv)]

theorem percentile_ranks_permuted {n : Nat} (v : Fin n → Rat) (σ : Equiv.Perm (Fin n)) (i : Fin n) :
    (percentile_ranks (List.ofFn (v ∘ σ)))[i.val]? = (percentile_ranks (List.ofFn v))[(σ i).val]? := by
  have hperm : (List.ofFn (v ∘ σ)).Perm (List.ofFn v) := σ.ofFn_comp_perm v
  rw [percentile_ranks_eq, percentile_ranks_eq, percentile_perm hperm, List.getElem?_map, List.getElem?_map,
    List.getElem?_ofFn, List.getElem?_ofFn]
  simp

/-- A strictly increasing function moves no value past another. -/
theorem rank_among_map {values : List Rat} {f : Rat → Rat} (hincreasing : StrictMonoOn f {v | v ∈ values}) {v : Rat}
    (hmem : v ∈ values) : rank_among (values.map f) (f v) = rank_among values v := by
  have hless : (values.map f).countP (· < f v) = values.countP (· < v) := by
    rw [List.countP_map]
    refine List.countP_congr fun w hw => ?_
    simp only [Function.comp_apply, decide_eq_true_eq]
    exact hincreasing.lt_iff_lt hw hmem
  have hsame : (values.map f).countP (· = f v) = values.countP (· = v) := by
    rw [List.countP_map]
    refine List.countP_congr fun w hw => ?_
    simp only [Function.comp_apply, decide_eq_true_eq]
    exact ⟨fun heq => hincreasing.injOn hw hmem heq, congrArg f⟩
  rw [rank_among, rank_among, List.length_map, hless, hsame]

theorem percentile_ranks_map {values : List Rat} {f : Rat → Rat} (hincreasing : StrictMonoOn f {v | v ∈ values}) :
    percentile_ranks (values.map f) = percentile_ranks values := by
  refine List.ext_getElem? fun i => ?_
  rw [percentile_ranks_getElem?, percentile_ranks_getElem?, List.getElem?_map, Option.map_map]
  cases hv : values[i]? with
  | none => rfl
  | some v => exact congrArg some (rank_among_map hincreasing (List.mem_of_getElem? hv))

/-- Rank statistics are pair counts. The area under the curve is the share of pairs
of a positive and a negative that are ranked correctly, and a percentile counts
smaller and equal values: so it moves with its value, and no strictly increasing
function changes it. -/
theorem rank_statistics_eq_pair_counts :
    (∀ (predictions outcomes : List Rat) (threshold : Rat), predictions.length = outcomes.length →
      positives predictions outcomes ≠ [] → negatives predictions outcomes ≠ [] →
      ∃ m, Evaluator.classification predictions outcomes threshold = .ok m ∧
        m.auc = pairs_won predictions outcomes /
          ((positives predictions outcomes).length * (negatives predictions outcomes).length)) ∧
    (∀ (values : List Rat) (i : Nat),
      (percentile_ranks values)[i]? = (values[i]?).map (rank_among values)) ∧
    (∀ (n : Nat) (v : Fin n → Rat) (σ : Equiv.Perm (Fin n)) (i : Fin n),
      (percentile_ranks (List.ofFn (v ∘ σ)))[i.val]? = (percentile_ranks (List.ofFn v))[(σ i).val]?) ∧
    ∀ (values : List Rat) (f : Rat → Rat), StrictMonoOn f {v | v ∈ values} →
      percentile_ranks (values.map f) = percentile_ranks values := by
  refine ⟨fun predictions outcomes threshold hlength hpos hneg => ?_, percentile_ranks_getElem?,
    fun n v σ i => percentile_ranks_permuted v σ i, fun values f hincreasing => percentile_ranks_map hincreasing⟩
  have hsome : predictions ≠ [] := by
    rintro rfl
    exact hpos rfl
  obtain ⟨m, hm, hauc⟩ := Evaluator.classification_ok hlength hsome threshold
  exact ⟨m, hm, hauc.trans (auc_of_eq hlength hpos hneg)⟩

end ptl.research
