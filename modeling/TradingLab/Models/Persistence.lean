import TradingLab.Models.Linear

open Fields ptl.features

namespace ptl.models

variable {C D M : Type} [StoredDouble D]

/-! ### The rule baseline -/

/-- `static_cast<std::size_t>(-1)`. -/
def npos : UInt64 := 0xffffffffffffffff

def column_of (c : UInt64) : Option Nat := if c = npos then none else some c.toNat

def column_bits : Option Nat → UInt64
  | none => npos
  | some c => UInt64.ofNat c

/-- What the parameter hash is taken of. -/
def RuleBaseline.hash_input (b : RuleBaseline D) : List UInt8 :=
  double_bytes b.scale ++ (double_bytes b.cfg.direction ++ sizeof64 (UInt64.ofNat b.cfg.signal_column))

def RuleBaseline.fields : List (Field (RuleBaseline D) UInt8) :=
  [word_field (fun b => UInt64.ofNat b.cfg.signal_column) fun c b =>
      { b with cfg := { b.cfg with signal_column := c.toNat } },
    double_field (fun b => b.cfg.direction) fun x b => { b with cfg := { b.cfg with direction := x } },
    word_field (fun b => column_bits b.cfg.volatility_column) fun c b =>
      { b with cfg := { b.cfg with volatility_column := column_of c } },
    double_field (fun b => b.cfg.target_volatility) fun x b =>
      { b with cfg := { b.cfg with target_volatility := x } },
    double_field RuleBaseline.scale fun x b => { b with scale := x }]

def RuleBaseline.written (b : RuleBaseline D) : List UInt8 :=
  memory 4 kLinearMagic ++ (memory 4 kLinearVersion ++ write_fields fields b)

/-- Under the number of the linear models. -/
def RuleBaseline.save (b : RuleBaseline D) : Result (List UInt8) :=
  if ¬ b.fitted then .error (bad "cannot serialise an unfitted baseline")
  else .ok (b.written ++ sizeof64 b.parameter_hash)

def RuleBaseline.verify (b : RuleBaseline D) (input : List UInt8) : Outcome Unit × RuleBaseline D :=
  match overlay (sizeof64 0) input with
  | (_, _, false) => (.failed (bad "truncated baseline hash"), b)
  | (stored, _, true) =>
    if stored ≠ sizeof64 b.parameter_hash then (.failed (bad "baseline hash mismatch: file is corrupt"), b)
    else (.done (), b)

def RuleBaseline.load (b : RuleBaseline D) (input : List UInt8) : Outcome Unit × RuleBaseline D :=
  match read_magic kLinearMagic kLinearVersion "not a serialised model"
      (fun _ => "unsupported model format version") input with
  | .error err => (.failed err, b)
  | .ok rest =>
    match read_fields fields b rest with
    | (b, _, false) => (.failed (bad "truncated baseline"), b)
    | (b, rest, true) => RuleBaseline.verify { b with fitted := true } rest

/-! ### The scaler -/

def kScalerMagic : Nat := 0x50544C53
def kScalerVersion : Nat := 1

def StandardScaler.write (s : StandardScaler D) : List UInt8 :=
  memory 4 kScalerMagic ++ (memory 4 kScalerVersion ++ (double_bytes s.clip_sigma ++
    (sizeof64 (UInt64.ofNat s.means.length) ++ (doubles_bytes s.means ++ doubles_bytes s.stdevs))))

/-- A new scaler, and what is left of the stream. -/
def StandardScaler.read (input : List UInt8) : Outcome (StandardScaler D × List UInt8) :=
  match read_magic kScalerMagic kScalerVersion "not a serialised scaler"
      (fun found => "unsupported scaler format version " ++ toString found) input with
  | .error err => .failed err
  | .ok rest =>
    match read_fields [double_field Prod.fst fun x s => (x, s.2), word_field Prod.snd fun p s => (s.1, p)]
        ((0 : D), (0 : UInt64)) rest with
    | (_, _, false) => .failed (bad "truncated scaler header")
    | ((clip_sigma, p), rest, true) =>
      if kMaxSize < p.toNat then .thrown
      else
        match read_doubles (List.replicate p.toNat 0) rest with
        | (_, _, false) => .failed (bad "truncated scaler means")
        | (means, rest, true) =>
          match read_doubles (List.replicate p.toNat 0) rest with
          | (_, _, false) => .failed (bad "truncated scaler deviations")
          | (stdevs, rest, true) => .done ({ fitted := true, clip_sigma, means, stdevs }, rest)

/-- One row, standardised. -/
def StandardScaler.transform_row (s : StandardScaler D) (row : List D) : Result (List D) :=
  if ¬ s.fitted then .error (bad "scaler has not been fitted")
  else if row.length ≠ s.means.length then
    .error (bad "scaler width does not match the observation width")
  else .ok (s.standardized row)

/-! ### Models that are stored -/

/-- A model with the operations on single rows and on streams. -/
structure StoredModel (D M : Type) extends IModel D M where
  predict : M → List D → Result D
  save : M → Result (List UInt8)
  load : M → List UInt8 → Outcome Unit × M

section Pipeline

variable (I : StoredModel D M)

def Pipeline.predict_one (p : Pipeline D M) (raw_features : List D) : Result D :=
  match p.model with
  | none => .error (bad "pipeline has not been fitted")
  | some model =>
    if ¬ p.fitted then .error (bad "pipeline has not been fitted")
    else if p.cfg.standardize then
      match p.scaler.transform_row raw_features with
      | .error err => .error err
      | .ok row => I.predict model row
    else I.predict model raw_features

def Pipeline.save (p : Pipeline D M) : Result (List UInt8) :=
  match p.model with
  | none => .error (bad "cannot serialise an unfitted pipeline")
  | some model =>
    if ¬ p.fitted then .error (bad "cannot serialise an unfitted pipeline")
    else
      match I.save model with
      | .error err => .error err
      | .ok file =>
        if p.cfg.standardize then .ok (1 :: (p.scaler.write ++ file)) else .ok (0 :: file)

/-- The model at the end of a stream, into the model of the pipeline. -/
def Pipeline.load_model (p : Pipeline D M) (model : M) (input : List UInt8) : Outcome Unit × Pipeline D M :=
  match I.load model input with
  | (.done (), model) => (.done (), { p with model := some model, fitted := true })
  | (outcome, model) => (outcome, { p with model := some model })

def Pipeline.load (p : Pipeline D M) (input : List UInt8) : Outcome Unit × Pipeline D M :=
  match p.model with
  | none => (.failed (bad "pipeline has no model to load into"), p)
  | some model =>
    match input with
    | [] => (.failed (bad "truncated pipeline header"), p)
    | flag :: rest =>
      let p := { p with cfg := { p.cfg with standardize := flag ≠ 0 } }
      if flag ≠ 0 then
        match StandardScaler.read rest with
        | .failed err => (.failed err, p)
        | .thrown => (.thrown, p)
        | .done (scaler, rest) => Pipeline.load_model I { p with scaler } model rest
      else p.load_model I model rest

end Pipeline

/-! ### The models of the library -/

inductive ModelKind where
  | linear
  | logistic
  | baseline
  deriving DecidableEq, Repr

inductive AnyModel (D : Type) where
  | linear (m : LinearRegression D)
  | logistic (m : LogisticRegression D)
  | baseline (b : RuleBaseline D)

def AnyModel.kind : AnyModel D → ModelKind
  | .linear _ => .linear
  | .logistic _ => .logistic
  | .baseline _ => .baseline

/-- What the linear algebra library makes of training data. -/
structure Solvers (D : Type) where
  linear : LinearRegression D → TrainingData D → Result (LinearRegression D)
  logistic : LogisticRegression D → TrainingData D → Result (LogisticRegression D)

def LinearModel.reset (m : LinearModel C D) : LinearModel C D where
  cfg := m.cfg
  intercept := 0
  diag := .new

namespace AnyModel

def fit (solvers : Solvers D) : AnyModel D → TrainingData D → Result (AnyModel D)
  | .linear m, data => (solvers.linear m data).map .linear
  | .logistic m, data => (solvers.logistic m data).map .logistic
  | .baseline b, data => (b.fit data).map .baseline

def predict : AnyModel D → List D → Result D
  | .linear m => LinearRegression.predict m
  | .logistic m => LogisticRegression.predict m
  | .baseline b => b.predict

def predict_batch : AnyModel D → DesignMatrix D → Result (List D)
  | .linear m => LinearRegression.predict_batch m
  | .logistic m => LogisticRegression.predict_batch m
  | .baseline b => b.predict_batch

def diagnostics : AnyModel D → ModelDiagnostics D
  | .linear m => m.diag
  | .logistic m => m.diag
  | .baseline b => b.diag

def parameter_hash : AnyModel D → UInt64
  | .linear m => m.parameter_hash
  | .logistic m => m.parameter_hash
  | .baseline b => b.parameter_hash

def hash_input : AnyModel D → List UInt8
  | .linear m => m.hash_input
  | .logistic m => m.hash_input
  | .baseline b => b.hash_input

theorem parameter_hash_eq (m : AnyModel D) : m.parameter_hash = hash_bytes kFnvOffset m.hash_input := by
  cases m with
  | linear m => rfl
  | logistic m => rfl
  | baseline b =>
    simp only [parameter_hash, hash_input, RuleBaseline.parameter_hash, RuleBaseline.hash_input, hash_double,
      double_bytes, hash_bytes_append]

def reset : AnyModel D → AnyModel D
  | .linear m => .linear m.reset
  | .logistic m => .logistic m.reset
  | .baseline b => .baseline b.reset

def save : AnyModel D → Result (List UInt8)
  | .linear m => LinearRegression.save m
  | .logistic m => LogisticRegression.save m
  | .baseline b => b.save

/-- Into a model of its own kind. -/
def load : AnyModel D → List UInt8 → Outcome Unit × AnyModel D
  | .linear m, input => ((LinearRegression.load m input).1, .linear (LinearRegression.load m input).2)
  | .logistic m, input => ((LogisticRegression.load m input).1, .logistic (LogisticRegression.load m input).2)
  | .baseline b, input => ((b.load input).1, .baseline (b.load input).2)

/-- The models as one; a fresh copy is a model that was reset. -/
def stored (solvers : Solvers D) : StoredModel D (AnyModel D) where
  fit := fit solvers
  predict_batch := predict_batch
  diagnostics := diagnostics
  parameter_hash := parameter_hash
  clone_unfitted := reset
  reset := reset
  predict := predict
  save := save
  load := load

end AnyModel

end ptl.models
