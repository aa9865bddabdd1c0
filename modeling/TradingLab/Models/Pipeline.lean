import TradingLab.Models.Matrix
import TradingLab.Validation.WalkForward

open ptl.features ptl.validation

namespace ptl.models

variable {D M : Type}

/-! ### Scaler -/

structure StandardScaler (D : Type) where
  fitted : Bool := false
  clip_sigma : D
  means : List D := []
  stdevs : List D := []

section Scaler

variable [Double D]

def std_max (a b : D) : D := if a < b then b else a

def std_clamp (v lo hi : D) : D := if v < lo then lo else if hi < v then hi else v

/-- Welford's running moments. -/
structure Welford (D : Type) where
  seen : Nat := 0
  mean : D
  m2 : D

def Welford.add (w : Welford D) (x : D) : Welford D :=
  let seen := w.seen + 1
  let delta := x - w.mean
  let mean := w.mean + delta / (seen : D)
  { seen, mean, m2 := w.m2 + delta * (x - mean) }

def Welford.of (xs : List D) : Welford D := xs.foldl Welford.add { mean := 0, m2 := 0 }

def DesignMatrix.column (m : DesignMatrix D) (c : Nat) : List D :=
  (List.range m.rows).map fun r => m.at r c

/-- A constant column keeps its scale. -/
def column_stdev (xs : List D) : D :=
  let sd := Double.sqrt (std_max 0 ((Welford.of xs).m2 / ((xs.length - 1 : Nat) : D)))
  if 1e-12 < sd ∧ Double.is_finite sd then sd else 1

def StandardScaler.fit (training_features : DesignMatrix D) (clip_sigma : D) : Result (StandardScaler D) :=
  if training_features.empty then .error (bad "cannot fit a scaler on empty data")
  else if training_features.rows < 2 then
    .error (bad "scaler needs at least two observations to estimate a variance")
  else
    let columns := (List.range training_features.cols).map training_features.column
    .ok {
      fitted := true
      clip_sigma
      means := columns.map fun xs => (Welford.of xs).mean
      stdevs := columns.map column_stdev }

def StandardScaler.scaled (s : StandardScaler D) (c : Nat) (x : D) : D :=
  let z := (x - s.means.getD c 0) / s.stdevs.getD c 1
  let z := if 0 < s.clip_sigma then std_clamp z (-s.clip_sigma) s.clip_sigma else z
  if Double.is_finite z then z else 0

/-- One observation, standardised. -/
def StandardScaler.standardized (s : StandardScaler D) (row : List D) : List D := row.mapIdx s.scaled

@[simp] theorem StandardScaler.length_standardized (s : StandardScaler D) (row : List D) :
    (s.standardized row).length = row.length :=
  List.length_mapIdx

theorem StandardScaler.width (s : StandardScaler D) (m : DesignMatrix D) :
    ∀ row ∈ m.data.map s.standardized, row.length = m.cols := by
  intro row hrow
  obtain ⟨old, hold, rfl⟩ := List.mem_map.mp hrow
  rw [s.length_standardized, m.width old hold]

def StandardScaler.transform (s : StandardScaler D) (features : DesignMatrix D) : Result (DesignMatrix D) :=
  if ¬ s.fitted then .error (bad "scaler has not been fitted")
  else if features.cols ≠ s.means.length then
    .error (bad ("scaler was fitted on " ++ toString s.means.length ++ " features but was given " ++
      toString features.cols))
  else .ok ⟨features.cols, features.data.map s.standardized, s.width features⟩

def hash_double (h : UInt64) (x : D) : UInt64 := hash_bytes h (sizeof64 (Double.bits x))

def StandardScaler.content_hash (s : StandardScaler D) : UInt64 :=
  (s.clip_sigma :: s.means ++ s.stdevs).foldl hash_double kFnvOffset

theorem StandardScaler.transform_ok {s : StandardScaler D} {features out : DesignMatrix D}
    (hout : s.transform features = .ok out) : out.data = features.data.map s.standardized := by
  unfold StandardScaler.transform at hout
  split at hout
  · cases hout
  · split at hout
    · cases hout
    · cases hout
      rfl

end Scaler

/-! ### Models -/

/-- Reported alongside every fit. -/
structure ModelDiagnostics (D : Type) where
  n_train : Nat := 0
  n_features : Nat := 0
  intercept : D
  coefficients : List D := []
  standard_errors : List D := []
  t_statistics : List D := []
  variance_inflation : List D := []
  r_squared : D
  adjusted_r_squared : D
  in_sample_ic : D
  condition_number : D
  residual_stdev : D

def ModelDiagnostics.new [Double D] : ModelDiagnostics D where
  intercept := 0
  r_squared := 0
  adjusted_r_squared := 0
  in_sample_ic := 0
  condition_number := 0
  residual_stdev := 0

/-- A model of states `M`. -/
structure IModel (D M : Type) where
  fit : M → TrainingData D → Result M
  predict_batch : M → DesignMatrix D → Result (List D)
  diagnostics : M → ModelDiagnostics D
  parameter_hash : M → UInt64
  clone_unfitted : M → M
  reset : M → M

/-- Each row of a batch is scored by itself. -/
def IModel.RowWise (I : IModel D M) : Prop :=
  ∃ score : M → List D → D, ∀ m design scores, I.predict_batch m design = .ok scores →
    scores = design.data.map (score m)

structure PipelineConfig (D : Type) where
  standardize : Bool := true
  clip_sigma : D

/-- Scaler and model as one unit. -/
structure Pipeline (D M : Type) where
  model : Option M
  scaler : StandardScaler D
  cfg : PipelineConfig D
  fitted : Bool := false

section Pipeline

variable [Double D] (I : IModel D M)

def Pipeline.new (model : Option M) (cfg : PipelineConfig D) : Pipeline D M where
  model
  scaler := { clip_sigma := 0 }
  cfg

/-- The scaler fitted on the training rows, and these rows standardised. -/
def Pipeline.standardize (p : Pipeline D M) (data : TrainingData D) :
    Result (StandardScaler D × TrainingData D) :=
  if p.cfg.standardize then
    match StandardScaler.fit data.features p.cfg.clip_sigma with
    | .error err => .error err
    | .ok scaler =>
      match scaler.transform data.features with
      | .error err => .error err
      | .ok features => .ok (scaler, { data with features })
  else .ok (p.scaler, data)

def Pipeline.fit (p : Pipeline D M) (features : FeatureMatrix D) (targets : List D) (train_rows : List Nat)
    (weights : List D) : Result (Pipeline D M) :=
  match p.model with
  | none => .error (bad "pipeline has no model")
  | some model =>
    if train_rows = [] then .error (bad "training row set is empty")
    else
      match make_training_data features targets train_rows weights with
      | .error err => .error err
      | .ok data =>
        match p.standardize data with
        | .error err => .error err
        | .ok (scaler, data) =>
          match I.fit (I.reset model) data with
          | .error err => .error err
          | .ok model => .ok { p with model := some model, scaler, fitted := true }

/-- The statistics of the training, applied to other rows. -/
def Pipeline.rescale (p : Pipeline D M) (design : DesignMatrix D) : Result (DesignMatrix D) :=
  if p.cfg.standardize then p.scaler.transform design else .ok design

/-- A fitted pipeline has a model. -/
def Pipeline.predict (p : Pipeline D M) (features : FeatureMatrix D) (rows : List Nat) : Result (List D) :=
  match p.model with
  | none => .error (bad "pipeline has not been fitted")
  | some model =>
    if ¬ p.fitted then .error (bad "pipeline has not been fitted")
    else
      match DesignMatrix.from_features features rows with
      | .error err => .error err
      | .ok design =>
        match p.rescale design with
        | .error err => .error err
        | .ok design => I.predict_batch model design

def Pipeline.parameter_hash (p : Pipeline D M) : UInt64 :=
  hash_bytes (p.model.elim 0 I.parameter_hash) (sizeof64 p.scaler.content_hash)

end Pipeline

/-! ### Walk-forward runner -/

/-- One out-of-sample prediction. -/
structure OosPrediction (D : Type) where
  feature_end_time : Timestamp := kNoTimestamp
  instrument : InstrumentId := kInvalidInstrument
  prediction : D
  actual : D
  fold_id : Nat := 0
  is_test : Bool := true

structure WalkForwardResult (D : Type) where
  predictions : List (OosPrediction D) := []
  per_fold_diagnostics : List (ModelDiagnostics D) := []
  per_fold_parameter_hashes : List UInt64 := []
  folds_fitted : Nat := 0
  folds_skipped : Nat := 0

structure WalkForwardRunner (D M : Type) where
  prototype : Option M
  cfg : PipelineConfig D

section Runner

variable [Double D] (I : IModel D M)

/-- The entry of one test row. -/
def entry (features : FeatureMatrix D) (targets : List D) (fold : Fold) (row : Nat) (prediction : D) :
    OosPrediction D :=
  let key := features.keys.getD row {}
  { feature_end_time := key.feature_end_time
    instrument := key.instrument
    prediction
    actual := targets.getD row 0
    fold_id := fold.fold_id
    is_test := true }

def WalkForwardResult.skip (result : WalkForwardResult D) : WalkForwardResult D :=
  { result with folds_skipped := result.folds_skipped + 1 }

/-- A fresh model for each fold. -/
def WalkForwardRunner.run_folds (runner : WalkForwardRunner D M) (prototype : M) (features : FeatureMatrix D)
    (targets weights : List D) : List Fold → WalkForwardResult D → Result (WalkForwardResult D)
  | [], result => .ok result
  | fold :: folds, result =>
    if fold.train_rows = [] ∨ fold.test_rows = [] then
      runner.run_folds prototype features targets weights folds result.skip
    else
      let pipeline := Pipeline.new (some (I.clone_unfitted prototype)) runner.cfg
      match pipeline.fit I features targets fold.train_rows weights with
      | .error _ => runner.run_folds prototype features targets weights folds result.skip
      | .ok pipeline =>
        match pipeline.predict I features fold.test_rows with
        | .error err => .error err
        | .ok predictions =>
          if predictions.length ≠ fold.test_rows.length then
            .error (bad "prediction count does not match the test row count")
          else
            runner.run_folds prototype features targets weights folds {
              predictions := result.predictions ++
                List.zipWith (entry features targets fold) fold.test_rows predictions
              per_fold_diagnostics := result.per_fold_diagnostics ++
                (pipeline.model.map I.diagnostics).toList
              per_fold_parameter_hashes := result.per_fold_parameter_hashes ++ [pipeline.parameter_hash I]
              folds_fitted := result.folds_fitted + 1
              folds_skipped := result.folds_skipped }

def WalkForwardRunner.run (runner : WalkForwardRunner D M) (features : FeatureMatrix D) (targets : List D)
    (folds : List Fold) (weights : List D) : Result (WalkForwardResult D) :=
  match runner.prototype with
  | none => .error (bad "runner has no model prototype")
  | some prototype =>
    if targets.length ≠ features.rows then
      .error (bad "target series length does not match the feature matrix")
    else
      match runner.run_folds I prototype features targets weights folds {} with
      | .error err => .error err
      | .ok result =>
        if result.folds_fitted = 0 then
          .error (bad ("no fold could be fitted: " ++ toString result.folds_skipped ++ " were skipped"))
        else .ok result

end Runner

end ptl.models

namespace ptl.models

variable {D : Type}

/-- No volatility column disables the scaling. -/
structure RuleBaselineConfig (D : Type) where
  signal_column : Nat := 0
  direction : D
  volatility_column : Option Nat := none
  target_volatility : D

/-- A rule without a model: a signal, scaled by its dispersion in training. -/
structure RuleBaseline (D : Type) where
  cfg : RuleBaselineConfig D
  fitted : Bool := false
  scale : D
  diag : ModelDiagnostics D

variable [Double D]

def RuleBaseline.new (cfg : RuleBaselineConfig D) : RuleBaseline D where
  cfg
  scale := 1
  diag := .new

def RuleBaseline.fit (b : RuleBaseline D) (data : TrainingData D) : Result (RuleBaseline D) :=
  match data.validate with
  | .error err => .error err
  | .ok _ =>
    if data.features.cols ≤ b.cfg.signal_column then .error (bad "signal column is out of range")
    else
      let moments := Welford.of (data.features.column b.cfg.signal_column)
      let sd := if 1 < data.features.rows then
          Double.sqrt (moments.m2 / ((data.features.rows - 1 : Nat) : D))
        else 0
      .ok { b with
        scale := if 1e-12 < sd then b.cfg.target_volatility / sd else 1
        diag := { ModelDiagnostics.new with
          n_train := data.features.rows
          n_features := data.features.cols }
        fitted := true }

/-- Scaled down where the instrument is moving more. -/
def RuleBaseline.targeted (b : RuleBaseline D) (features : List D) (y : D) : D :=
  match b.cfg.volatility_column.bind (features[·]?) with
  | none => y
  | some vol => if 1e-12 < vol ∧ Double.is_finite vol then y * (b.cfg.target_volatility / vol) else y

def RuleBaseline.predict (b : RuleBaseline D) (features : List D) : Result D :=
  if ¬ b.fitted then .error (bad "baseline has not been fitted")
  else
    match features[b.cfg.signal_column]? with
    | none => .error (bad "signal column is out of range")
    | some signal =>
      let y := b.targeted features (b.cfg.direction * signal * b.scale)
      if Double.is_finite y then .ok y else .error (bad "baseline prediction is not finite")

/-- The loop of `predict_batch`. -/
def RuleBaseline.predict_rows (b : RuleBaseline D) : List (List D) → Result (List D)
  | [] => .ok []
  | row :: rows =>
    match b.predict row with
    | .error err => .error err
    | .ok v =>
      match b.predict_rows rows with
      | .error err => .error err
      | .ok out => .ok (v :: out)

def RuleBaseline.predict_batch (b : RuleBaseline D) (X : DesignMatrix D) : Result (List D) :=
  if ¬ b.fitted then .error (bad "baseline has not been fitted") else b.predict_rows X.data

def RuleBaseline.parameter_hash (b : RuleBaseline D) : UInt64 :=
  hash_bytes (hash_double (hash_double kFnvOffset b.scale) b.cfg.direction)
    (sizeof64 (UInt64.ofNat b.cfg.signal_column))

def RuleBaseline.clone_unfitted (b : RuleBaseline D) : RuleBaseline D := .new b.cfg

def RuleBaseline.reset (b : RuleBaseline D) : RuleBaseline D := .new b.cfg

/-- The baseline as a model of the pipeline. -/
def ruleBaseline : IModel D (RuleBaseline D) where
  fit := RuleBaseline.fit
  predict_batch := RuleBaseline.predict_batch
  diagnostics := RuleBaseline.diag
  parameter_hash := RuleBaseline.parameter_hash
  clone_unfitted := RuleBaseline.clone_unfitted
  reset := RuleBaseline.reset

theorem RuleBaseline.predict_rows_ok {b : RuleBaseline D} {rows : List (List D)} {out : List D}
    (hout : b.predict_rows rows = .ok out) : out = rows.map fun row => (b.predict row).toOption.getD 0 := by
  induction rows generalizing out with
  | nil =>
    cases hout
    rfl
  | cons row rows ih =>
    unfold RuleBaseline.predict_rows at hout
    split at hout
    · cases hout
    · rename_i v hv
      split at hout
      · cases hout
      · rename_i rest hrest
        cases hout
        rw [List.map_cons, hv, ih hrest]
        rfl

/-- The baseline scores each row of a batch by itself. -/
theorem ruleBaseline_rowWise : (ruleBaseline : IModel D (RuleBaseline D)).RowWise := by
  refine ⟨fun b row => (b.predict row).toOption.getD 0, fun b X scores hscores => ?_⟩
  have hrows : b.predict_batch X = .ok scores := hscores
  unfold RuleBaseline.predict_batch at hrows
  split at hrows
  · cases hrows
  · exact RuleBaseline.predict_rows_ok hrows

end ptl.models
