import TradingLab.Core.Types
import TradingLab.TableSum

open Std (TreeMap)

namespace ptl.storage

/-- An id and a version, in the order of the source's maps. -/
abbrev VersionKey := String × UInt32

instance : Ord VersionKey := lexOrd

structure SchemaField where
  name : String
  type : String
  lookback_periods : Nat := 0
  deriving DecidableEq, Repr

/-- What is checked of a dataset version. A checksum of zero is an empty one. -/
structure DatasetVersion where
  dataset_id : String
  version : UInt32
  range_begin : Timestamp := kNoTimestamp
  range_end : Timestamp := kNoTimestamp
  content_checksum : UInt64
  feature_schema : List SchemaField
  split_boundaries : List Timestamp := []
  deriving DecidableEq, Repr

def DatasetVersion.key (d : DatasetVersion) : String := d.dataset_id ++ "@v" ++ toString d.version

def DatasetVersion.validate (d : DatasetVersion) : Option Error :=
  if d.dataset_id = "" then some (bad "dataset has no id")
  else if d.version = 0 then some (bad "dataset version must be at least 1" d.dataset_id)
  else if d.content_checksum = 0 then
    some (bad "dataset has no content checksum; it cannot be verified later" d.dataset_id)
  else if d.feature_schema.isEmpty then some (bad "dataset has an empty feature schema" d.dataset_id)
  else if is_set d.range_begin ∧ is_set d.range_end ∧ d.range_end ≤ d.range_begin then
    some (bad "dataset range ends before it begins" d.dataset_id)
  else if ¬ d.split_boundaries.IsChain (· < ·) then
    some (bad "walk-forward split boundaries must be strictly ascending" d.dataset_id)
  else none

structure DatasetRegistry where
  datasets : TreeMap VersionKey DatasetVersion := ∅

def DatasetRegistry.contains (r : DatasetRegistry) (dataset_id : String) (version : UInt32) : Bool :=
  (r.datasets[(dataset_id, version)]?).isSome

/-- The highest version of an id. -/
def DatasetRegistry.latest (r : DatasetRegistry) (dataset_id : String) : Option DatasetVersion :=
  r.datasets.foldl (fun best key d =>
    if key.1 ≠ dataset_id then best
    else
      match best with
      | none => some d
      | some b => if d.version > b.version then some d else best) none

/-- Why a dataset version is refused, if it is. -/
def DatasetRegistry.refusal (r : DatasetRegistry) (d : DatasetVersion) : Option Error :=
  match d.validate with
  | some err => some err
  | none =>
    if r.datasets.contains (d.dataset_id, d.version) then
      some (bad "dataset version already registered; datasets are append-only" d.key)
    else
      match r.latest d.dataset_id with
      | none => none
      | some previous =>
        if d.version ≤ previous.version then
          some (bad ("dataset version must advance; latest is v" ++ toString previous.version) d.key)
        else none

def DatasetRegistry.register_dataset (r : DatasetRegistry) (d : DatasetVersion) : Result Bool × DatasetRegistry :=
  match r.refusal d with
  | some err => (.error err, r)
  | none => (.ok true, { datasets := r.datasets.insert (d.dataset_id, d.version) d })

/-! ### Models -/

inductive ModelStatus where
  | Training
  | Trained
  | Challenger
  | Champion
  | Archived
  | Failed
  deriving DecidableEq, Repr

def ModelStatus.to_string : ModelStatus → String
  | .Training => "training"
  | .Trained => "trained"
  | .Challenger => "challenger"
  | .Champion => "champion"
  | .Archived => "archived"
  | .Failed => "failed"

structure ModelMetadata where
  model_id : String
  version : UInt32
  status : ModelStatus := .Training
  dataset_id : String
  dataset_version : UInt32
  kind : String
  deriving DecidableEq, Repr

def ModelMetadata.key (m : ModelMetadata) : String := m.model_id ++ "@v" ++ toString m.version

def ModelMetadata.validate (m : ModelMetadata) : Option Error :=
  if m.model_id = "" then some (bad "model has no id")
  else if m.version = 0 then some (bad "model version must be at least 1" m.model_id)
  else if m.kind = "" then some (bad "model has no kind" m.model_id)
  else if m.dataset_id = "" ∨ m.dataset_version = 0 then
    some (bad "model does not name a dataset version; it would not be reproducible" m.model_id)
  else none

/-- One promotion or rollback, recorded. -/
structure ModelTransition where
  model_id : String
  from_version : UInt32 := 0
  to_version : UInt32
  from_status : ModelStatus := .Trained
  to_status : ModelStatus
  at_time : Timestamp
  reason : String
  deriving DecidableEq, Repr

structure ModelRegistry where
  models : TreeMap VersionKey ModelMetadata := ∅
  champions : TreeMap String UInt32 := ∅
  history : List ModelTransition := []

/-- Why a model is refused, if it is. -/
def ModelRegistry.refusal (r : ModelRegistry) (datasets : DatasetRegistry) (m : ModelMetadata) : Option Error :=
  match m.validate with
  | some err => some err
  | none =>
    if ¬ datasets.contains m.dataset_id m.dataset_version then
      some (bad ("refusing to register a model trained on an unregistered dataset version; " ++
        "register the dataset first so the model stays reproducible")
        (m.dataset_id ++ "@v" ++ toString m.dataset_version))
    else if r.models.contains (m.model_id, m.version) then
      some (bad "model version already registered" m.key)
    else none

def ModelRegistry.register_model (r : ModelRegistry) (datasets : DatasetRegistry) (m : ModelMetadata) :
    Result Bool × ModelRegistry :=
  match r.refusal datasets m with
  | some err => (.error err, r)
  | none => (.ok true, { r with models := r.models.insert (m.model_id, m.version) m })

def ModelRegistry.find (r : ModelRegistry) (model_id : String) (version : UInt32) : Option ModelMetadata :=
  r.models[(model_id, version)]?

def ModelRegistry.champion (r : ModelRegistry) (model_id : String) : Option ModelMetadata :=
  (r.champions[model_id]?).bind (r.find model_id)

/-- The record of an incumbent as it is left by a promotion of its model. -/
def archive (model_id : String) (key : VersionKey) (m : ModelMetadata) : ModelMetadata :=
  if key.1 = model_id ∧ m.status = .Champion then { m with status := .Archived } else m

/-- The transition of a promotion. It names the last incumbent, if there is
    one. -/
def ModelRegistry.transition (r : ModelRegistry) (model_id : String) (version : UInt32) (at_time : Timestamp)
    (reason : String) : ModelTransition :=
  r.models.foldl (fun transition key m =>
    if key.1 = model_id ∧ m.status = .Champion then
      { transition with from_version := m.version, from_status := .Champion }
    else transition) { model_id, to_version := version, to_status := .Champion, at_time, reason }

def ModelRegistry.promote (r : ModelRegistry) (model_id : String) (version : UInt32) (at_time : Timestamp)
    (reason : String := "") : Result Bool × ModelRegistry :=
  match r.find model_id version with
  | none => (.error (bad "no such model" (model_id ++ "@v" ++ toString version)), r)
  | some m =>
    if m.status = .Champion then (.ok true, r)
    else if m.status = .Failed then (.error (bad "a failed model cannot be promoted" m.key), r)
    else
      (.ok true, {
        models := (r.models.map (archive model_id)).insert (model_id, version) { m with status := .Champion }
        champions := r.champions.insert model_id version
        history := r.history ++ [r.transition model_id version at_time reason] })

def ModelRegistry.rollback (r : ModelRegistry) (model_id : String) (version : UInt32) (at_time : Timestamp)
    (reason : String := "") : Result Bool × ModelRegistry :=
  match r.find model_id version with
  | none => (.error (bad "no such model to roll back to" (model_id ++ "@v" ++ toString version)), r)
  | some m =>
    if m.status ≠ .Archived ∧ m.status ≠ .Champion then
      (.error (bad ("only an archived former champion can be rolled back to; this model is " ++
        m.status.to_string) m.key), r)
    else r.promote model_id version at_time (if reason = "" then "rollback" else "rollback: " ++ reason)

end ptl.storage
