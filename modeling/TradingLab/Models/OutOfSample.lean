import Mathlib.Data.Rat.Sqrt
import TradingLab.Models.Pipeline

open ptl.features ptl.validation

namespace ptl.models

variable {D M : Type} [Double D]

/-! ### What one fold computes -/

/-- The features, labels and weights of a run. -/
structure Observations (D : Type) where
  features : FeatureMatrix D
  targets : List D
  weights : List D := []

section Fold

variable (I : IModel D M) (runner : WalkForwardRunner D M) (o : Observations D)

/-- The pipeline a fold is scored with, if one can be fitted. -/
def WalkForwardRunner.fitted (fold : Fold) : Option (Pipeline D M) :=
  runner.prototype.bind fun prototype =>
    if fold.train_rows = [] ∨ fold.test_rows = [] then none
    else ((Pipeline.new (some (I.clone_unfitted prototype)) runner.cfg).fit I o.features o.targets
      fold.train_rows o.weights).toOption

open WalkForwardRunner

/-- The scores of its test rows. -/
def WalkForwardRunner.scores (fold : Fold) : Option (List D) :=
  (runner.fitted I o fold).bind fun pipeline => (pipeline.predict I o.features fold.test_rows).toOption

/-- The entries of its test rows, in their order. -/
def WalkForwardRunner.entries (fold : Fold) : List (OosPrediction D) :=
  (runner.scores I o fold).elim [] fun predictions =>
    List.zipWith (entry o.features o.targets fold) fold.test_rows predictions

/-- Every fold that is fitted scores each of its test rows. -/
def WalkForwardRunner.Scores (fold : Fold) : Prop :=
  (runner.fitted I o fold).isSome = true →
    ∃ predictions, runner.scores I o fold = some predictions ∧ predictions.length = fold.test_rows.length

end Fold

section Run

variable {I : IModel D M} {runner : WalkForwardRunner D M} {o : Observations D}

/-- The entries of a run are those of its folds, one after the other. -/
theorem WalkForwardRunner.run_folds_ok {prototype : M} (hprototype : runner.prototype = some prototype)
    {folds : List Fold} {result result' : WalkForwardResult D}
    (hrun : runner.run_folds I prototype o.features o.targets o.weights folds result = .ok result') :
    result'.predictions = result.predictions ++ folds.flatMap (runner.entries I o) ∧
      ∀ fold ∈ folds, runner.Scores I o fold := by
  induction folds generalizing result with
  | nil =>
    cases hrun
    exact ⟨by simp, nofun⟩
  | cons fold folds ih =>
    -- A fold that is not fitted has no entries.
    have hskipped (hnone : runner.fitted I o fold = none)
        (hrest : runner.run_folds I prototype o.features o.targets o.weights folds result.skip = .ok result') :
        result'.predictions = result.predictions ++ (fold :: folds).flatMap (runner.entries I o) ∧
          ∀ other ∈ fold :: folds, runner.Scores I o other := by
      obtain ⟨hentries, hscores⟩ := ih hrest
      have hempty : runner.entries I o fold = [] := by
        rw [entries, scores, hnone]
        rfl
      refine ⟨?_, List.forall_mem_cons.mpr ⟨fun hsome => ?_, hscores⟩⟩
      · rw [hentries, List.flatMap_cons, hempty, List.nil_append]
        rfl
      · rw [hnone] at hsome
        cases hsome
    unfold run_folds at hrun
    split at hrun
    · rename_i hempty
      refine hskipped ?_ hrun
      rw [fitted, hprototype, Option.bind_some, if_pos hempty]
    · rename_i hrows
      dsimp only at hrun
      have hfitted : runner.fitted I o fold = ((Pipeline.new (some (I.clone_unfitted prototype)) runner.cfg).fit I
          o.features o.targets fold.train_rows o.weights).toOption := by
        rw [fitted, hprototype, Option.bind_some, if_neg hrows]
      split at hrun
      · rename_i hfails
        rw [hfails] at hfitted
        exact hskipped hfitted hrun
      · rename_i pipeline hfit
        rw [hfit] at hfitted
        split at hrun
        · cases hrun
        · rename_i predictions hpredict
          have hscored : runner.scores I o fold = some predictions := by
            rw [scores, hfitted]
            exact congrArg Except.toOption hpredict
          split at hrun
          · cases hrun
          · rename_i hlength
            obtain ⟨hentries, hscores⟩ := ih hrun
            refine ⟨?_, List.forall_mem_cons.mpr ⟨fun _ => ⟨predictions, hscored, not_not.mp hlength⟩, hscores⟩⟩
            rw [hentries, List.flatMap_cons, List.append_assoc, entries, hscored]
            rfl

theorem WalkForwardRunner.run_ok {folds : List Fold} {result : WalkForwardResult D}
    (hrun : runner.run I o.features o.targets folds o.weights = .ok result) :
    result.predictions = folds.flatMap (runner.entries I o) ∧ ∀ fold ∈ folds, runner.Scores I o fold := by
  unfold run at hrun
  split at hrun
  · cases hrun
  · rename_i prototype hprototype
    split at hrun
    · cases hrun
    · split at hrun
      · cases hrun
      · rename_i hfolds
        split at hrun
        · cases hrun
        · cases hrun
          exact run_folds_ok hprototype hfolds

end Run

/-! ### Two runs -/

/-- The rows of one run and the rows of another hold the same features, targets
and weights. -/
structure SameTraining (o o' : Observations D) (rows rows' : List Nat) : Prop where
  features_eq : rows.map o.features.row = rows'.map o'.features.row
  targets_eq : rows.map (o.targets[·]?) = rows'.map (o'.targets[·]?)
  weights_eq : rows.map (o.weights[·]?) = rows'.map (o'.weights[·]?)
  weighted_iff : o.weights = [] ↔ o'.weights = []

section TwoRuns

variable {I : IModel D M} {runner : WalkForwardRunner D M} {o o' : Observations D} {fold fold' : Fold}
  {pipeline pipeline' : Pipeline D M}

theorem map_getD_congr {values values' : List D} {rows rows' : List Nat}
    (hsame : rows.map (values[·]?) = rows'.map (values'[·]?)) :
    rows.map (fun r => values.getD r 0) = rows'.map fun r => values'.getD r 0 := by
  have hread := congrArg (List.map fun value : Option D => value.getD 0) hsame
  simp only [List.map_map, Function.comp_def] at hread
  simpa only [List.getD_eq_getElem?_getD] using hread

/-- The training data of a fold is that of its training rows. -/
theorem SameTraining.data_eq {rows rows' : List Nat} (hsame : SameTraining o o' rows rows') (hrows : rows ≠ [])
    {data data' : TrainingData D} (hdata : make_training_data o.features o.targets rows o.weights = .ok data)
    (hdata' : make_training_data o'.features o'.targets rows' o'.weights = .ok data') : data = data' := by
  obtain ⟨hfeatures, htargets, hweights⟩ := make_training_data_ok hdata
  obtain ⟨hfeatures', htargets', hweights'⟩ := make_training_data_ok hdata'
  have hdesign : data.features = data'.features := by
    refine DesignMatrix.ext_data ?_ ?_
    · rw [hfeatures, hfeatures', hsame.features_eq]
    · rw [hfeatures]
      simpa using hrows
  have hlabels : data.targets = data'.targets := by
    rw [htargets, htargets', map_getD_congr hsame.targets_eq]
  have hweighted : data.weights = data'.weights := by
    rw [hweights, hweights']
    by_cases hnone : o.weights = []
    · rw [if_pos hnone, if_pos (hsame.weighted_iff.mp hnone)]
    · rw [if_neg hnone, if_neg (mt hsame.weighted_iff.mpr hnone), map_getD_congr hsame.weights_eq]
  cases data
  cases data'
  cases hdesign
  cases hlabels
  cases hweighted
  rfl

theorem WalkForwardRunner.fitted_eq_some (hfitted : runner.fitted I o fold = some pipeline) :
    fold.train_rows ≠ [] ∧ fold.test_rows ≠ [] ∧ ∃ prototype, runner.prototype = some prototype ∧
      (Pipeline.new (some (I.clone_unfitted prototype)) runner.cfg).fit I o.features o.targets
        fold.train_rows o.weights = .ok pipeline := by
  obtain ⟨prototype, hprototype, hfit⟩ := Option.bind_eq_some_iff.mp hfitted
  split at hfit
  · cases hfit
  · rename_i hrows
    exact ⟨fun hnone => hrows (.inl hnone), fun hnone => hrows (.inr hnone), prototype, hprototype, Result.toOption_eq_some.mp hfit⟩

/-- A fit reads its training data, and what the model is reset to. -/
theorem Pipeline.fit_ok {p : Pipeline D M} {rows : List Nat}
    (hfit : p.fit I o.features o.targets rows o.weights = .ok pipeline) :
    ∃ data, make_training_data o.features o.targets rows o.weights = .ok data ∧
      ∃ model scaler scaled fitted, p.model = some model ∧ p.standardize data = .ok (scaler, scaled) ∧
        I.fit (I.reset model) scaled = .ok fitted ∧
        pipeline = { p with model := some fitted, scaler, fitted := true } := by
  unfold Pipeline.fit at hfit
  split at hfit
  · cases hfit
  · rename_i model hmodel
    split at hfit
    · cases hfit
    · split at hfit
      · cases hfit
      · rename_i data hdata
        split at hfit
        · cases hfit
        · rename_i scaler scaled hscaled
          split at hfit
          · cases hfit
          · rename_i fitted hfitted
            cases hfit
            exact ⟨data, hdata, model, scaler, scaled, fitted, hmodel, hscaled, hfitted, rfl⟩

/-- The same training rows give the same pipeline. -/
theorem SameTraining.pipeline_eq (hsame : SameTraining o o' fold.train_rows fold'.train_rows)
    (hfitted : runner.fitted I o fold = some pipeline) (hfitted' : runner.fitted I o' fold' = some pipeline') :
    pipeline = pipeline' := by
  obtain ⟨hrows, -, prototype, hprototype, hfit⟩ := WalkForwardRunner.fitted_eq_some hfitted
  obtain ⟨-, -, prototype', hprototype', hfit'⟩ := WalkForwardRunner.fitted_eq_some hfitted'
  obtain ⟨data, hdata, model, scaler, scaled, fitted, hmodel, hscaled, hmade, rfl⟩ := Pipeline.fit_ok hfit
  obtain ⟨data', hdata', model', scaler', scaled', fitted', hmodel', hscaled', hmade', rfl⟩ :=
    Pipeline.fit_ok hfit'
  obtain rfl : prototype = prototype' := Option.some.inj (hprototype.symm.trans hprototype')
  obtain rfl : data = data' := hsame.data_eq hrows hdata hdata'
  cases hscaled.symm.trans hscaled'
  obtain rfl : model = model' := Option.some.inj (hmodel.symm.trans hmodel')
  obtain rfl : fitted = fitted' := Except.ok.inj (hmade.symm.trans hmade')
  rfl

/-- One observation as the model is shown it. -/
def Pipeline.shown (p : Pipeline D M) (row : List D) : List D :=
  if p.cfg.standardize then p.scaler.standardized row else row

theorem Pipeline.rescale_ok {p : Pipeline D M} {design out : DesignMatrix D} (hout : p.rescale design = .ok out) :
    out.data = design.data.map p.shown := by
  unfold Pipeline.rescale at hout
  unfold Pipeline.shown
  split at hout
  · rename_i hscales
    simp only [hscales, if_true]
    exact StandardScaler.transform_ok hout
  · rename_i hraw
    cases hout
    simp only [hraw, Bool.false_eq_true, if_false, List.map_id_fun']
    rfl

/-- A prediction hands the model the rows it is for. -/
theorem Pipeline.predict_ok {p : Pipeline D M} {features : FeatureMatrix D} {rows : List Nat} {scores : List D}
    (hscores : p.predict I features rows = .ok scores) :
    ∃ model design, p.model = some model ∧ design.data = rows.map (fun r => p.shown (features.row r)) ∧
      I.predict_batch model design = .ok scores := by
  unfold Pipeline.predict at hscores
  split at hscores
  · cases hscores
  · rename_i model hmodel
    split at hscores
    · cases hscores
    · split at hscores
      · cases hscores
      · rename_i raw hraw
        split at hscores
        · cases hscores
        · rename_i design hdesign
          refine ⟨model, design, hmodel, ?_, hscores⟩
          rw [Pipeline.rescale_ok hdesign, (from_features_ok hraw).1, List.map_map]
          rfl

/-- The scores of a fold depend on its training rows, and on the features of its
test rows. -/
theorem SameTraining.scores_eq (hsame : SameTraining o o' fold.train_rows fold'.train_rows)
    (hrows : fold.test_rows.map o.features.row = fold'.test_rows.map o'.features.row) {scores scores' : List D}
    (hscores : runner.scores I o fold = some scores) (hscores' : runner.scores I o' fold' = some scores') :
    scores = scores' := by
  obtain ⟨pipeline, hfitted, hpredict⟩ := Option.bind_eq_some_iff.mp hscores
  obtain ⟨pipeline', hfitted', hpredict'⟩ := Option.bind_eq_some_iff.mp hscores'
  obtain rfl := hsame.pipeline_eq hfitted hfitted'
  obtain ⟨model, design, hmodel, hdata, hbatch⟩ := Pipeline.predict_ok (Result.toOption_eq_some.mp hpredict)
  obtain ⟨model', design', hmodel', hdata', hbatch'⟩ := Pipeline.predict_ok (Result.toOption_eq_some.mp hpredict')
  obtain rfl : model = model' := Option.some.inj (hmodel.symm.trans hmodel')
  have hshown := congrArg (List.map pipeline.shown) hrows
  rw [List.map_map, List.map_map] at hshown
  obtain rfl : design = design' := by
    refine DesignMatrix.ext_data ?_ ?_
    · rw [hdata, hdata']
      exact hshown
    · rw [hdata]
      simpa using (WalkForwardRunner.fitted_eq_some hfitted).2.1
  exact Except.ok.inj (hbatch.symm.trans hbatch')

/-- Where the model scores each row by itself, so does the runner. -/
theorem SameTraining.score_eq (hsame : SameTraining o o' fold.train_rows fold'.train_rows) (hrowwise : I.RowWise)
    {scores scores' : List D} (hscores : runner.scores I o fold = some scores)
    (hscores' : runner.scores I o' fold' = some scores') {i j r s : Nat} (hi : fold.test_rows[i]? = some r)
    (hj : fold'.test_rows[j]? = some s) (hrow : o.features.row r = o'.features.row s) :
    scores[i]? = scores'[j]? := by
  obtain ⟨score, hscore⟩ := hrowwise
  obtain ⟨pipeline, hfitted, hpredict⟩ := Option.bind_eq_some_iff.mp hscores
  obtain ⟨pipeline', hfitted', hpredict'⟩ := Option.bind_eq_some_iff.mp hscores'
  obtain rfl := hsame.pipeline_eq hfitted hfitted'
  obtain ⟨model, design, hmodel, hdata, hbatch⟩ := Pipeline.predict_ok (Result.toOption_eq_some.mp hpredict)
  obtain ⟨model', design', hmodel', hdata', hbatch'⟩ := Pipeline.predict_ok (Result.toOption_eq_some.mp hpredict')
  obtain rfl : model = model' := Option.some.inj (hmodel.symm.trans hmodel')
  rw [hscore model design scores hbatch, hscore model design' scores' hbatch', hdata, hdata']
  simp only [List.getElem?_map, hi, hj, Option.map_some, hrow]

end TwoRuns

/-- A run has one entry for each test row of each fitted fold, in order. What a
fold is scored depends on its training rows and on the features of its test
rows, and where the model scores each row by itself, on those of the row. -/
theorem WalkForwardRunner.run_blind {I : IModel D M} {runner : WalkForwardRunner D M} {o o' : Observations D}
    {folds folds' : List Fold} {result result' : WalkForwardResult D}
    (hrun : runner.run I o.features o.targets folds o.weights = .ok result)
    (hrun' : runner.run I o'.features o'.targets folds' o'.weights = .ok result') :
    (result.predictions = folds.flatMap (runner.entries I o) ∧ ∀ fold ∈ folds, runner.Scores I o fold) ∧
      (result'.predictions = folds'.flatMap (runner.entries I o') ∧ ∀ fold ∈ folds', runner.Scores I o' fold) ∧
      ∀ fold ∈ folds, ∀ fold' ∈ folds', SameTraining o o' fold.train_rows fold'.train_rows →
        ∀ scores ∈ runner.scores I o fold, ∀ scores' ∈ runner.scores I o' fold',
          (fold.test_rows.map o.features.row = fold'.test_rows.map o'.features.row → scores = scores') ∧
          (I.RowWise → ∀ i j r s : Nat, fold.test_rows[i]? = some r → fold'.test_rows[j]? = some s →
            o.features.row r = o'.features.row s → scores[i]? = scores'[j]?) := by
  refine ⟨run_ok hrun, run_ok hrun', ?_⟩
  intro fold _ fold' _ hsame scores hscores scores' hscores'
  exact ⟨fun hrows => hsame.scores_eq hrows hscores hscores',
    fun hrowwise _ _ _ _ hi hj hrow => hsame.score_eq hrowwise hscores hscores' hi hj hrow⟩

/-! ### A baseline, and a model that centres its batch -/

/-- The bits of a rational that is zero or a normal double. -/
def ieee754 (x : Rat) : UInt64 :=
  if x = 0 then 0
  else
    let magnitude := |x|
    let estimate : Int := (magnitude.num.natAbs.log2 : Int) - magnitude.den.log2
    let exponent := if magnitude < 2 ^ estimate then estimate - 1 else estimate
    let mantissa := ((magnitude / 2 ^ exponent - 1) * 2 ^ 52).floor.toNat
    UInt64.ofNat ((if x < 0 then 2 ^ 63 else 0) + (exponent + 1023).toNat * 2 ^ 52 + mantissa)

example : ieee754 1 = 0x3ff0000000000000 ∧ ieee754 (-5 / 2) = 0xc004000000000000 := by decide +kernel

instance : Double Rat where
  decidableLT := inferInstance
  is_finite := is_finite
  sqrt := Rat.sqrt
  bits := ieee754

/-- Five rows of one feature, the last of which is given. -/
def fiveRows (last : Rat) : Observations Rat where
  features := { names := ["ret_1"], keys := List.replicate 5 {}, columns := [[1, 2, 3, 5, last]] }
  targets := [0, 1, 2, 3, 4]

def lastTwo : Fold where
  train_rows := [0, 1, 2]
  test_rows := [3, 4]

theorem fiveRows_sameTraining (last last' : Rat) :
    SameTraining (fiveRows last) (fiveRows last') lastTwo.train_rows lastTwo.train_rows :=
  ⟨rfl, rfl, rfl, Iff.rfl⟩

def baselineRunner : WalkForwardRunner Rat (RuleBaseline Rat) where
  prototype := some (.new { direction := 1, target_volatility := 1 / 100 })
  cfg := { clip_sigma := 0 }

/-- The baseline scores the fourth row alike whatever the fifth is. -/
theorem WalkForwardRunner.run_blind_fiveRows :
    ∃ result result', baselineRunner.run ruleBaseline (fiveRows 7).features (fiveRows 7).targets [lastTwo] [] =
        .ok result ∧
      baselineRunner.run ruleBaseline (fiveRows 9).features (fiveRows 9).targets [lastTwo] [] = .ok result' ∧
      result.predictions = [lastTwo].flatMap (baselineRunner.entries ruleBaseline (fiveRows 7)) ∧
      baselineRunner.scores ruleBaseline (fiveRows 7) lastTwo = some [3 / 100, 5 / 100] ∧
      baselineRunner.scores ruleBaseline (fiveRows 9) lastTwo = some [3 / 100, 7 / 100] ∧
      ([3 / 100, 5 / 100] : List Rat)[0]? = ([3 / 100, 7 / 100] : List Rat)[0]? := by
  obtain ⟨result, hresult⟩ := Option.isSome_iff_exists.mp (show (baselineRunner.run ruleBaseline
    (fiveRows 7).features (fiveRows 7).targets [lastTwo] []).toOption.isSome = true by decide +kernel)
  obtain ⟨result', hresult'⟩ := Option.isSome_iff_exists.mp (show (baselineRunner.run ruleBaseline
    (fiveRows 9).features (fiveRows 9).targets [lastTwo] []).toOption.isSome = true by decide +kernel)
  have hrun : baselineRunner.run ruleBaseline (fiveRows 7).features (fiveRows 7).targets [lastTwo]
      (fiveRows 7).weights = .ok result := Result.toOption_eq_some.mp hresult
  have hrun' : baselineRunner.run ruleBaseline (fiveRows 9).features (fiveRows 9).targets [lastTwo]
      (fiveRows 9).weights = .ok result' := Result.toOption_eq_some.mp hresult'
  have hscores : baselineRunner.scores ruleBaseline (fiveRows 7) lastTwo = some [3 / 100, 5 / 100] := by
    decide +kernel
  have hscores' : baselineRunner.scores ruleBaseline (fiveRows 9) lastTwo = some [3 / 100, 7 / 100] := by
    decide +kernel
  obtain ⟨hentries, -, hblind⟩ := run_blind hrun hrun'
  refine ⟨result, result', hrun, hrun', hentries.1, hscores, hscores', ?_⟩
  exact (hblind lastTwo List.mem_cons_self lastTwo List.mem_cons_self (fiveRows_sameTraining 7 9) _ hscores _
    hscores').2 ruleBaseline_rowWise 0 0 3 3 rfl rfl rfl

/-- Scores a row by how far it is from the mean of its batch. -/
def centring : IModel Rat Unit where
  fit _ _ := .ok ()
  predict_batch _ X := .ok ((X.column 0).map fun x => x - (Welford.of (X.column 0)).mean)
  diagnostics _ := .new
  parameter_hash _ := 0
  clone_unfitted _ := ()
  reset _ := ()

def centringRunner : WalkForwardRunner Rat Unit where
  prototype := some ()
  cfg := { clip_sigma := 0 }

/-- What it scores the fourth row depends on the fifth. -/
theorem WalkForwardRunner.run_not_blind :
    ¬ ∀ (I : IModel Rat Unit) (runner : WalkForwardRunner Rat Unit) (o o' : Observations Rat)
      (folds folds' : List Fold) (result result' : WalkForwardResult Rat),
      runner.run I o.features o.targets folds o.weights = .ok result →
      runner.run I o'.features o'.targets folds' o'.weights = .ok result' →
      ∀ fold ∈ folds, ∀ fold' ∈ folds', SameTraining o o' fold.train_rows fold'.train_rows →
        ∀ scores ∈ runner.scores I o fold, ∀ scores' ∈ runner.scores I o' fold',
          ∀ i j r s : Nat, fold.test_rows[i]? = some r → fold'.test_rows[j]? = some s →
            o.features.row r = o'.features.row s → scores[i]? = scores'[j]? := by
  intro hblind
  obtain ⟨result, hresult⟩ := Option.isSome_iff_exists.mp (show (centringRunner.run centring
    (fiveRows 7).features (fiveRows 7).targets [lastTwo] []).toOption.isSome = true by decide +kernel)
  obtain ⟨result', hresult'⟩ := Option.isSome_iff_exists.mp (show (centringRunner.run centring
    (fiveRows 9).features (fiveRows 9).targets [lastTwo] []).toOption.isSome = true by decide +kernel)
  have hscores : centringRunner.scores centring (fiveRows 7) lastTwo = some [-1, 1] := by decide +kernel
  have hscores' : centringRunner.scores centring (fiveRows 9) lastTwo = some [-2, 2] := by decide +kernel
  have hsame := hblind centring centringRunner (fiveRows 7) (fiveRows 9) [lastTwo] [lastTwo] result result'
    (Result.toOption_eq_some.mp hresult) (Result.toOption_eq_some.mp hresult') lastTwo List.mem_cons_self lastTwo
    List.mem_cons_self (fiveRows_sameTraining 7 9) _ hscores _ hscores' 0 0 3 3 rfl rfl rfl
  exact absurd hsame (by decide)

end ptl.models
