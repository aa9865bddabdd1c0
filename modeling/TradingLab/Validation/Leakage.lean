import Mathlib.Data.List.GetD
import Mathlib.Tactic.Linarith
import TradingLab.Validation.WalkForward

/-! What purging keeps out of training. A window is taken to end with the label
of its last row, which the labels of earlier rows may outlast. -/

namespace ptl.validation

/-- Two rows' labels overlap. -/
def labelsMeet (intervals : List ObservationInterval) (i j : Nat) : Bool :=
  (rowAt intervals i).label_overlaps (rowAt intervals j).label_start_time (rowAt intervals j).label_end_time

/-- No label trained on overlaps one validated or tested on, the sets are apart
and in order, and a row of the training range is trained on or purged. -/
structure Fold.LeakFree (f : Fold) (cfg : WalkForwardConfig) (intervals : List ObservationInterval) : Prop where
  labels : ∀ i ∈ f.train_rows, ∀ j ∈ f.validation_rows ++ f.test_rows, labelsMeet intervals i j = false
  before_validation : ∀ i ∈ f.train_rows ++ f.purged_rows, ∀ j ∈ f.validation_rows, i < j
  before_test : ∀ i ∈ f.train_rows ++ f.purged_rows, ∀ j ∈ f.test_rows, i < j
  validation_before_test : ∀ i ∈ f.validation_rows, ∀ j ∈ f.test_rows, i < j
  disjoint : (f.train_rows ++ f.purged_rows ++ f.validation_rows ++ f.test_rows).Nodup
  covered : (f.train_rows ++ f.purged_rows).Perm (cfg.training (cfg.train_end_idx f.fold_id))

/-- The row's label starts once that of the window's last row has ended, and
still meets that of an earlier row. -/
def Outlasted (intervals : List ObservationInterval) (first past i : Nat) : Prop :=
  ∃ j, first ≤ j ∧ j < past ∧ (rowAt intervals (past - 1)).label_end_time ≤ (rowAt intervals i).label_start_time ∧
    labelsMeet intervals i j = true

section Window

variable {cfg : WalkForwardConfig} {intervals : List ObservationInterval} {m i j first past : Nat}

theorem rowAt_ok (hok : ∀ row ∈ intervals, row.ok = true) (hi : i < intervals.length) :
    (rowAt intervals i).feature_end_time ≤ (rowAt intervals i).label_start_time := by
  have hrow := hok (rowAt intervals i) (by
    rw [rowAt, List.getD_eq_getElem _ _ hi]
    exact List.getElem_mem hi)
  simp only [ObservationInterval.ok, Bool.and_eq_true, decide_eq_true_eq] at hrow
  exact hrow.1.2

/-- A label that meets that of a row of a window reaches into the window, or
starts only after it. -/
theorem outlasted_of_meet
    (hordered : ∀ i j, i ≤ j → j < intervals.length →
      (rowAt intervals i).feature_end_time ≤ (rowAt intervals j).feature_end_time)
    (hok : ∀ row ∈ intervals, row.ok = true) (hfirst : first ≤ j) (hpast : j < past) (hrange : past ≤ intervals.length)
    (hmeet : labelsMeet intervals i j = true) (hclean : leaksInto intervals first past i = false) :
    Outlasted intervals first past i := by
  refine ⟨j, hfirst, hpast, ?_, hmeet⟩
  have hbegins := hordered first j hfirst (by omega)
  have hstarts := rowAt_ok hok (i := j) (by omega)
  simp only [labelsMeet, leaksInto, ObservationInterval.label_overlaps, Bool.and_eq_true, decide_eq_true_eq,
    Bool.and_eq_false_iff, decide_eq_false_iff_not] at hmeet hclean
  obtain hends | hreaches := hclean
  · exact not_lt.mp hends
  · exact absurd (by linarith [hmeet.2]) hreaches

/-- The sets of a window's fold are in order. -/
theorem WalkForwardConfig.mem_fold (cfg : WalkForwardConfig) (intervals : List ObservationInterval) (k id : Nat) :
    (∀ i ∈ (cfg.fold intervals k id).train_rows ++ (cfg.fold intervals k id).purged_rows, i < k) ∧
      (∀ i ∈ (cfg.fold intervals k id).validation_rows, k ≤ i ∧ i < cfg.val_end k) ∧
        ∀ i ∈ (cfg.fold intervals k id).test_rows, cfg.val_end k ≤ i ∧ i < cfg.test_end k := by
  refine ⟨fun i hi => ?_, fun i hi => ?_, fun i hi => ?_⟩
  · obtain hi | hi := List.mem_append.mp hi
    all_goals exact (WalkForwardConfig.mem_training.mp (List.mem_filter.mp hi).1).2
  · exact List.mem_range'_1.mp hi
  · exact List.mem_range'_1.mp hi

theorem WalkForwardConfig.fold_covered (cfg : WalkForwardConfig) (intervals : List ObservationInterval) (k id : Nat) :
    ((cfg.fold intervals k id).train_rows ++ (cfg.fold intervals k id).purged_rows).Perm (cfg.training k) := by
  have hperm := List.filter_append_perm (fun i => cfg.purges intervals k i) (cfg.training k)
  refine (List.perm_append_comm.trans ?_).trans hperm
  simp [WalkForwardConfig.fold]

theorem WalkForwardConfig.fold_leakFree_iff
    (hordered : ∀ i j, i ≤ j → j < intervals.length →
      (rowAt intervals i).feature_end_time ≤ (rowAt intervals j).feature_end_time)
    (hok : ∀ row ∈ intervals, row.ok = true) (hpurge : cfg.purge = true) (hemits : cfg.Emits intervals m) :
    (cfg.fold intervals (cfg.train_end_idx m) m).LeakFree cfg intervals ↔
      ∀ i ∈ cfg.training (cfg.train_end_idx m), cfg.purges intervals (cfg.train_end_idx m) i = false →
        ¬ Outlasted intervals (cfg.train_end_idx m) (cfg.val_end (cfg.train_end_idx m)) i ∧
          ¬ Outlasted intervals (cfg.val_end (cfg.train_end_idx m)) (cfg.test_end (cfg.train_end_idx m)) i := by
  have hwithin := hemits.1
  generalize hk : cfg.train_end_idx m = k at hwithin ⊢
  have hmiddle : cfg.val_end k ≤ cfg.test_end k := Nat.le_add_right _ _
  obtain ⟨htrain, hvalidation, htest⟩ := cfg.mem_fold intervals k m
  constructor
  · intro hfree i hi hkept
    have htrained : i ∈ (cfg.fold intervals k m).train_rows := List.mem_filter.mpr ⟨hi, by simpa using hkept⟩
    refine ⟨?_, ?_⟩
    · rintro ⟨j, hfirst, hpast, -, hmeet⟩
      have hj : j ∈ (cfg.fold intervals k m).validation_rows := List.mem_range'_1.mpr ⟨hfirst, hpast⟩
      have happart := hfree.labels i htrained j (List.mem_append_left _ hj)
      rw [hmeet] at happart
      cases happart
    · rintro ⟨j, hfirst, hpast, -, hmeet⟩
      have hj : j ∈ (cfg.fold intervals k m).test_rows := List.mem_range'_1.mpr ⟨hfirst, hpast⟩
      have happart := hfree.labels i htrained j (List.mem_append_right _ hj)
      rw [hmeet] at happart
      cases happart
  · intro hnone
    have hperm := cfg.fold_covered intervals k m
    refine ⟨fun i hi j hj => ?_, fun i hi j hj => ?_, fun i hi j hj => ?_, fun i hi j hj => ?_, ?_, ?_⟩
    · obtain ⟨hi, hopen⟩ := List.mem_filter.mp hi
      have hkept : cfg.purges intervals k i = false := by simpa using hopen
      obtain ⟨hnoval, hnotest⟩ := hnone i hi hkept
      simp only [WalkForwardConfig.purges, hpurge, Bool.true_and, Bool.or_eq_false_iff] at hkept
      rw [Bool.eq_false_iff]
      intro hmeet
      obtain hj | hj := List.mem_append.mp hj
      · obtain ⟨hfirst, hpast⟩ := hvalidation j hj
        exact hnoval (outlasted_of_meet hordered hok hfirst hpast (hmiddle.trans hwithin) hmeet hkept.1)
      · obtain ⟨hfirst, hpast⟩ := htest j hj
        exact hnotest (outlasted_of_meet hordered hok hfirst hpast hwithin hmeet hkept.2)
    · exact (htrain i hi).trans_le (hvalidation j hj).1
    · exact (htrain i hi).trans_le ((Nat.le_add_right _ _).trans (htest j hj).1)
    · exact (hvalidation i hi).2.trans_le (htest j hj).1
    · have htraining : (cfg.training k).Nodup := List.nodup_range'
      have hheld := List.nodup_append.mpr ⟨hperm.nodup_iff.mpr htraining,
        (List.nodup_range' : ((cfg.fold intervals k m).validation_rows).Nodup), fun i hi j hj =>
          ((htrain i hi).trans_le (hvalidation j hj).1).ne⟩
      refine List.nodup_append.mpr ⟨hheld, List.nodup_range', fun i hi j hj => ?_⟩
      obtain hi | hi := List.mem_append.mp hi
      · exact ((htrain i hi).trans_le ((Nat.le_add_right _ _).trans (htest j hj).1)).ne
      · exact ((hvalidation i hi).2.trans_le (htest j hj).1).ne
    · change ((cfg.fold intervals k m).train_rows ++ _).Perm (cfg.training (cfg.train_end_idx m))
      rw [hk]
      exact hperm

end Window

/-- The folds leak nothing exactly when no kept training row of an emitted
window has a label that starts after the window's and meets one of its rows'. -/
theorem WalkForwardValidator.split_leak_free (v : WalkForwardValidator) (intervals : List ObservationInterval)
    (folds : List Fold) (hok : ∀ row ∈ intervals, row.ok = true) (hpurge : v.cfg.purge = true)
    (hsplit : v.split intervals = .ok folds) :
    (∀ f ∈ folds, f.LeakFree v.cfg intervals) ↔
      ∀ m, v.cfg.Emits intervals m → ∀ i ∈ v.cfg.training (v.cfg.train_end_idx m),
        v.cfg.purges intervals (v.cfg.train_end_idx m) i = false →
          ¬ Outlasted intervals (v.cfg.train_end_idx m) (v.cfg.val_end (v.cfg.train_end_idx m)) i ∧
            ¬ Outlasted intervals (v.cfg.val_end (v.cfg.train_end_idx m))
              (v.cfg.test_end (v.cfg.train_end_idx m)) i := by
  have hsplits := v.split_ok hsplit
  by_cases hrows : intervals = []
  · rw [hsplits.empty hrows]
    refine iff_of_true (fun f hf => by cases hf) fun m hemits i hi => ?_
    have hpast := hemits.train_end_le
    have hbefore := (WalkForwardConfig.mem_training.mp hi).2
    rw [hrows, List.length_nil] at hpast
    omega
  · have hmem := hsplits.mem_iff hrows
    constructor
    · intro hfree m hemits
      exact (WalkForwardConfig.fold_leakFree_iff hsplits.ordered hok hpurge hemits).mp
        (hfree _ ((hmem _).mpr ⟨m, hemits, rfl⟩))
    · intro hnone f hf
      obtain ⟨m, hemits, rfl⟩ := (hmem f).mp hf
      exact (WalkForwardConfig.fold_leakFree_iff hsplits.ordered hok hpurge hemits).mpr (hnone m hemits)

/-! ### A label that outlasts its window -/

/-- A row with nothing before its features end. -/
def labelled (feature_end label_start label_end : Timestamp) : ObservationInterval :=
  ⟨feature_end, feature_end, label_start, label_end⟩

/-- Train on two rows, validate on one, test on two. -/
def smallValidator (embargo : Nat := 0) : WalkForwardValidator :=
  ⟨{ train_size := 2, validation_size := 1, test_size := 2, step := 2, min_train_rows := 1, embargo }⟩

/-- The label of row 1 starts late, and that of row 3 ends late. -/
def delayedRows : List ObservationInterval :=
  [labelled 0 0 1, labelled 1 20 21, labelled 2 2 3, labelled 3 3 100, labelled 4 4 5]

theorem WalkForwardValidator.split_leak_free_delayed :
    ∃ folds, (smallValidator.split delayedRows) = .ok folds ∧ folds.length = 1 ∧
      ((∀ f ∈ folds, f.LeakFree smallValidator.cfg delayedRows) ↔
        ∀ m, smallValidator.cfg.Emits delayedRows m →
          ∀ i ∈ smallValidator.cfg.training (smallValidator.cfg.train_end_idx m),
            smallValidator.cfg.purges delayedRows (smallValidator.cfg.train_end_idx m) i = false →
              ¬ Outlasted delayedRows (smallValidator.cfg.train_end_idx m)
                  (smallValidator.cfg.val_end (smallValidator.cfg.train_end_idx m)) i ∧
                ¬ Outlasted delayedRows (smallValidator.cfg.val_end (smallValidator.cfg.train_end_idx m))
                  (smallValidator.cfg.test_end (smallValidator.cfg.train_end_idx m)) i) := by
  have hsplit : (smallValidator.split delayedRows).toOption.map List.length = some 1 := by decide +kernel
  obtain ⟨folds, hfolds, hlength⟩ := Option.map_eq_some_iff.mp hsplit
  have hok := Result.toOption_eq_some.mp hfolds
  exact ⟨folds, hok, hlength, smallValidator.split_leak_free delayedRows folds (by decide +kernel) rfl hok⟩

/-- Row 1 is trained on, and its label lies within that of row 3, which is
tested on. -/
theorem WalkForwardValidator.split_leaks :
    ∃ folds, smallValidator.split delayedRows = .ok folds ∧ (∀ row ∈ delayedRows, row.ok = true) ∧
      smallValidator.cfg.purge = true ∧ ¬ ∀ f ∈ folds, f.LeakFree smallValidator.cfg delayedRows := by
  have hsplit : (smallValidator.split delayedRows).toOption.map (fun folds =>
      folds.map fun f => (f.train_rows, f.test_rows)) = some [([0, 1], [3, 4])] := by decide +kernel
  obtain ⟨folds, hfolds, hrows⟩ := Option.map_eq_some_iff.mp hsplit
  refine ⟨folds, Result.toOption_eq_some.mp hfolds, by decide +kernel, rfl, fun hfree => ?_⟩
  obtain ⟨f, rfl, hf⟩ := List.map_eq_singleton_iff.mp hrows
  obtain ⟨htrain, htest⟩ := Prod.mk.inj hf
  have happart := (hfree f List.mem_cons_self).labels 1 (by rw [htrain]; decide) 3
    (List.mem_append_right _ (by rw [htest]; decide))
  revert happart
  decide +kernel

/-! What the embargo keeps out of later folds. It is reported with each fold,
and no training set is made from it. -/

/-- No later fold trains on a row that an earlier one reports as embargoed. -/
def EmbargoHonoured (folds : List Fold) : Prop :=
  folds.Pairwise fun f g => ∀ i ∈ f.embargoed_rows, i ∉ g.train_rows

instance (folds : List Fold) : Decidable (EmbargoHonoured folds) :=
  inferInstanceAs (Decidable (folds.Pairwise fun f g => ∀ i ∈ f.embargoed_rows, i ∉ g.train_rows))

/-- In a list in the order of ids, what holds of every two folds in order holds
of every two whose ids are. -/
theorem pairwise_iff_of_ids {Q : Fold → Fold → Prop} {folds : List Fold}
    (hids : folds.Pairwise fun f g => f.fold_id < g.fold_id) :
    folds.Pairwise Q ↔ ∀ f ∈ folds, ∀ g ∈ folds, f.fold_id < g.fold_id → Q f g := by
  induction folds with
  | nil => exact iff_of_true .nil fun f hf => by cases hf
  | cons h folds ih =>
    obtain ⟨hhead, htail⟩ := List.pairwise_cons.mp hids
    rw [List.pairwise_cons, ih htail]
    constructor
    · rintro ⟨hfirst, hrest⟩ f hf g hg hless
      obtain rfl | hf := List.mem_cons.mp hf
      · obtain rfl | hg := List.mem_cons.mp hg
        · exact absurd hless (lt_irrefl _)
        · exact hfirst g hg
      · obtain heq | hg := List.mem_cons.mp hg
        · rw [heq] at hless
          exact absurd hless (hhead f hf).not_gt
        · exact hrest f hf g hg hless
    · intro hall
      exact ⟨fun g hg => hall h List.mem_cons_self g (List.mem_cons_of_mem _ hg) (hhead g hg),
        fun f hf g hg => hall f (List.mem_cons_of_mem _ hf) g (List.mem_cons_of_mem _ hg)⟩

theorem WalkForwardConfig.mem_embargoed {cfg : WalkForwardConfig} {intervals : List ObservationInterval}
    {k id i : Nat} :
    i ∈ (cfg.fold intervals k id).embargoed_rows ↔
      cfg.test_end k ≤ i ∧ i < cfg.test_end k + cfg.embargo ∧ i < intervals.length := by
  change i ∈ List.range' _ _ ↔ _
  rw [List.mem_range'_1]
  omega

/-- The embargo is honoured exactly when the purge drops every row of a later
training range that lies within it. -/
theorem WalkForwardValidator.split_embargo (v : WalkForwardValidator) (intervals : List ObservationInterval)
    (folds : List Fold) (hsplit : v.split intervals = .ok folds) :
    EmbargoHonoured folds ↔
      ∀ m k, m < k → v.cfg.Emits intervals m → v.cfg.Emits intervals k →
        ∀ i ∈ v.cfg.training (v.cfg.train_end_idx k), v.cfg.test_end (v.cfg.train_end_idx m) ≤ i →
          i < v.cfg.test_end (v.cfg.train_end_idx m) + v.cfg.embargo →
            v.cfg.purges intervals (v.cfg.train_end_idx k) i = true := by
  have hsplits := v.split_ok hsplit
  rw [EmbargoHonoured, pairwise_iff_of_ids hsplits.ids]
  by_cases hrows : intervals = []
  · rw [hsplits.empty hrows]
    refine iff_of_true (fun f hf => by cases hf) fun m k _ _ hemits i hi => ?_
    have hpast := hemits.train_end_le
    have hbefore := (WalkForwardConfig.mem_training.mp hi).2
    rw [hrows, List.length_nil] at hpast
    omega
  · have hmem := hsplits.mem_iff hrows
    constructor
    · intro hkept m k hless hm hk i hi hfrom hto
      have hlength := hk.train_end_le
      have hbefore := (WalkForwardConfig.mem_training.mp hi).2
      have hout := hkept _ ((hmem _).mpr ⟨m, hm, rfl⟩) _ ((hmem _).mpr ⟨k, hk, rfl⟩) hless i
        (WalkForwardConfig.mem_embargoed.mpr ⟨hfrom, hto, by omega⟩)
      by_contra hopen
      exact hout (List.mem_filter.mpr ⟨hi, by simpa using hopen⟩)
    · intro hpurged f hf g hg hless i hi htrained
      obtain ⟨m, hm, rfl⟩ := (hmem f).mp hf
      obtain ⟨k, hk, rfl⟩ := (hmem g).mp hg
      obtain ⟨hfrom, hto, -⟩ := WalkForwardConfig.mem_embargoed.mp hi
      obtain ⟨hi, hopen⟩ := List.mem_filter.mp htrained
      have hdropped := hpurged m k hless hm hk i hi hfrom hto
      simp [hdropped] at hopen

/-- Nine rows whose labels are over before the next row. -/
def plainRows : List ObservationInterval :=
  ([0, 1, 2, 3, 4, 5, 6, 7, 8] : List Timestamp).map fun i => labelled i i (i + 1)

theorem WalkForwardValidator.split_embargo_plain :
    ∃ folds, (smallValidator 2).split plainRows = .ok folds ∧ folds.length = 3 ∧
      (EmbargoHonoured folds ↔
        ∀ m k, m < k → (smallValidator 2).cfg.Emits plainRows m → (smallValidator 2).cfg.Emits plainRows k →
          ∀ i ∈ (smallValidator 2).cfg.training ((smallValidator 2).cfg.train_end_idx k),
            (smallValidator 2).cfg.test_end ((smallValidator 2).cfg.train_end_idx m) ≤ i →
              i < (smallValidator 2).cfg.test_end ((smallValidator 2).cfg.train_end_idx m) +
                  (smallValidator 2).cfg.embargo →
                (smallValidator 2).cfg.purges plainRows ((smallValidator 2).cfg.train_end_idx k) i = true) := by
  have hsplit : ((smallValidator 2).split plainRows).toOption.map List.length = some 3 := by decide +kernel
  obtain ⟨folds, hfolds, hlength⟩ := Option.map_eq_some_iff.mp hsplit
  have hok := Result.toOption_eq_some.mp hfolds
  exact ⟨folds, hok, hlength, (smallValidator 2).split_embargo plainRows folds hok⟩

/-- The first fold reports row 5, and the third trains on it. -/
theorem WalkForwardValidator.split_trains_on_embargoed :
    ∃ folds, (smallValidator 2).split plainRows = .ok folds ∧ 0 < (smallValidator 2).cfg.embargo ∧
      ¬ EmbargoHonoured folds := by
  have hsplit : ((smallValidator 2).split plainRows).toOption.map (fun folds =>
      decide (EmbargoHonoured folds)) = some false := by decide +kernel
  obtain ⟨folds, hfolds, hbroken⟩ := Option.map_eq_some_iff.mp hsplit
  exact ⟨folds, Result.toOption_eq_some.mp hfolds, by decide, of_decide_eq_false hbroken⟩

end ptl.validation
