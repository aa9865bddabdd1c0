import Mathlib.Algebra.Order.Field.Rat
import TradingLab.Core.Numbers
import TradingLab.Core.Types

namespace ptl.features

structure RowKey where
  feature_end_time : Timestamp := kNoTimestamp
  instrument : InstrumentId := kInvalidInstrument
  deriving DecidableEq, Repr

/-- Column-major. -/
structure FeatureMatrix (D : Type) where
  names : List String
  keys : List RowKey
  columns : List (List D)

variable {D : Type} [Zero D]

def FeatureMatrix.rows (m : FeatureMatrix D) : Nat := m.keys.length

def FeatureMatrix.cols (m : FeatureMatrix D) : Nat := m.names.length

def FeatureMatrix.at (m : FeatureMatrix D) (row col : Nat) : D := (m.columns.getD col []).getD row 0

/-- One observation. -/
def FeatureMatrix.row (m : FeatureMatrix D) (row : Nat) : List D := (List.range m.cols).map (m.at row)

@[simp] theorem FeatureMatrix.length_row (m : FeatureMatrix D) (row : Nat) : (m.row row).length = m.cols := by
  simp [FeatureMatrix.row]

end ptl.features

namespace ptl.models

def bad (message : String) (context : String := "") : Error := make_error .ValidationFailed message context

/-- The operations on doubles the models use. No law is assumed of them. -/
class Double (D : Type) extends Zero D, One D, Add D, Sub D, Mul D, Div D, Neg D, LT D, NatCast D,
    OfScientific D where
  decidableLT : DecidableLT D
  is_finite : D → Bool
  sqrt : D → D
  bits : D → UInt64

instance Double.instDecidableLT {D : Type} [Double D] : DecidableLT D := Double.decidableLT

variable {D : Type}

/-- Row-major, every row of the same width. -/
structure DesignMatrix (D : Type) where
  cols : Nat
  data : List (List D)
  width : ∀ row ∈ data, row.length = cols

def DesignMatrix.rows (m : DesignMatrix D) : Nat := m.data.length

def DesignMatrix.empty (m : DesignMatrix D) : Bool := m.rows = 0 || m.cols = 0

/-- Two matrices of the same rows, if there are any. -/
theorem DesignMatrix.ext_data {m m' : DesignMatrix D} (hdata : m.data = m'.data) (hrows : m.data ≠ []) :
    m = m' := by
  obtain ⟨cols, data, hwidth⟩ := m
  obtain ⟨cols', data', hwidth'⟩ := m'
  obtain rfl : data = data' := hdata
  obtain ⟨row, hrow⟩ := List.exists_mem_of_ne_nil data hrows
  obtain rfl : cols = cols' := (hwidth row hrow).symm.trans (hwidth' row hrow)
  rfl

variable [Double D]

def DesignMatrix.at (m : DesignMatrix D) (r c : Nat) : D := (m.data.getD r []).getD c 0

def DesignMatrix.all_finite (m : DesignMatrix D) : Bool := m.data.all fun row => row.all Double.is_finite

theorem length_of_mem_rows (source : features.FeatureMatrix D) (rows : List Nat) :
    ∀ row ∈ rows.map source.row, row.length = source.cols := by
  intro row hrow
  obtain ⟨r, -, rfl⟩ := List.mem_map.mp hrow
  exact source.length_row r

/-- The rows selected are those of the fold. -/
def DesignMatrix.from_features (source : features.FeatureMatrix D) (rows : List Nat) :
    Result (DesignMatrix D) :=
  if source.cols = 0 then .error (bad "feature matrix has no columns")
  else
    match rows.find? fun src => source.rows ≤ src with
    | some src => .error (bad "row index out of range" (toString src))
    | none =>
      let out : DesignMatrix D := ⟨source.cols, rows.map source.row, length_of_mem_rows source rows⟩
      if ¬ out.all_finite then .error (bad "selected feature rows contain a non-finite value")
      else .ok out

/-- Weights are uniform where there are none. -/
structure TrainingData (D : Type) where
  features : DesignMatrix D
  targets : List D := []
  weights : List D := []

/-- Underdetermined systems are refused. -/
def TrainingData.validate (d : TrainingData D) : Result Unit :=
  if d.features.rows ≠ d.targets.length then
    .error (bad ("feature rows (" ++ toString d.features.rows ++ ") and target count (" ++
      toString d.targets.length ++ ") disagree"))
  else if d.targets = [] then .error (bad "training set is empty")
  else if d.features.cols = 0 then .error (bad "training set has no features")
  else if d.weights ≠ [] ∧ d.weights.length ≠ d.targets.length then
    .error (bad "weight count does not match the target count")
  else if ¬ d.features.all_finite then .error (bad "features contain a non-finite value")
  else
    match d.targets.findIdx? fun y => ¬ Double.is_finite y with
    | some i => .error (bad ("target " ++ toString i ++ " is not finite"))
    | none =>
      if d.weights.any fun w => ¬ Double.is_finite w ∨ w < 0 then
        .error (bad "weights must be finite and non-negative")
      else if d.targets.length ≤ d.features.cols then
        .error (bad ("need more observations than features: " ++ toString d.targets.length ++ " rows for " ++
          toString d.features.cols ++ " features"))
      else .ok ()

def make_training_data (features : features.FeatureMatrix D) (targets : List D) (rows : List Nat)
    (weights : List D) : Result (TrainingData D) :=
  match DesignMatrix.from_features features rows with
  | .error err => .error err
  | .ok design =>
    match rows.find? fun r => targets.length ≤ r with
    | some r => .error (bad "row index exceeds the target series" (toString r))
    | none =>
      if weights ≠ [] ∧ rows.any fun r => weights.length ≤ r then
        .error (bad "row index exceeds the weight series")
      else
        let data : TrainingData D := {
          features := design
          targets := rows.map fun r => targets.getD r 0
          weights := if weights = [] then [] else rows.map fun r => weights.getD r 0 }
        match data.validate with
        | .error err => .error err
        | .ok _ => .ok data

theorem from_features_ok {source : features.FeatureMatrix D} {rows : List Nat} {out : DesignMatrix D}
    (hout : DesignMatrix.from_features source rows = .ok out) :
    out.data = rows.map source.row ∧ ∀ r ∈ rows, r < source.rows := by
  unfold DesignMatrix.from_features at hout
  split at hout
  · cases hout
  · split at hout
    · cases hout
    · rename_i hwithin
      dsimp only at hout
      split at hout
      · cases hout
      · cases hout
        refine ⟨rfl, fun r hr => ?_⟩
        have hnot := List.find?_eq_none.mp hwithin r hr
        simpa using hnot

theorem make_training_data_ok {features : features.FeatureMatrix D} {targets : List D} {rows : List Nat}
    {weights : List D} {data : TrainingData D} (hdata : make_training_data features targets rows weights = .ok data) :
    data.features.data = rows.map features.row ∧ data.targets = rows.map (fun r => targets.getD r 0) ∧
      data.weights = if weights = [] then [] else rows.map fun r => weights.getD r 0 := by
  unfold make_training_data at hdata
  split at hdata
  · cases hdata
  · rename_i design hdesign
    split at hdata
    · cases hdata
    · split at hdata
      · cases hdata
      · dsimp only at hdata
        split at hdata
        · cases hdata
        · cases hdata
          exact ⟨(from_features_ok hdesign).1, rfl, rfl⟩

end ptl.models
