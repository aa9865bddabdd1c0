import TradingLab.Core.Numbers
import TradingLab.Entries
import TradingLab.Storage.Registry
import TradingLab.Strategy.Registry

open Std (TreeMap)

namespace ptl

/-- Feeding part after part is feeding what they amount to. -/
theorem foldl_hash_bytes (h : UInt64) (parts : List (List UInt8)) :
    parts.foldl hash_bytes h = hash_bytes h parts.flatten := by
  have hfeed := foldl_feed hash_bytes id hash_bytes_append (fun _ => rfl) h parts
  rwa [List.flatMap_id] at hfeed

/-- `Checksum::of`: no text has the checksum zero. -/
def checksum_of (content : String) : UInt64 :=
  let h := hash_bytes kFnvOffset (characters content)
  if h = 0 then 1 else h

/-! ### Parameter maps -/

abbrev ParameterMap := TreeMap String String

/-- Names and values in key order, nothing between them. -/
def parameter_parts (m : ParameterMap) : List (List UInt8) :=
  m.toList.flatMap fun e => [characters e.1, characters e.2]

theorem characters_append (s t : String) : characters (s ++ t) = characters s ++ characters t := by
  rw [characters, String.toByteArray_append, ByteArray.data_append, Array.toList_append]
  rfl

/-- The values and names of any map, run together, are the text of one value. -/
theorem exists_characters_eq (m : ParameterMap) : ∃ w, characters w = (parameter_parts m).flatten := by
  have hall : ∀ es : List (String × String),
      ∃ w, characters w = (es.flatMap fun e => [characters e.1, characters e.2]).flatten := by
    intro es
    induction es with
    | nil => exact ⟨"", rfl⟩
    | cons e es ih =>
      obtain ⟨w, hw⟩ := ih
      refine ⟨e.1 ++ (e.2 ++ w), ?_⟩
      rw [characters_append, characters_append, hw, List.flatMap_cons, List.flatten_append]
      simp
  exact hall m.toList

theorem parameter_parts_single (name value : String) :
    (parameter_parts (TreeMap.empty.insert name value)).flatten = characters name ++ characters value := by
  have hlist : (TreeMap.empty.insert name value : ParameterMap).toList = [(name, value)] := rfl
  rw [parameter_parts, hlist]
  simp

/-- Every map has a twin: another map that feeds the same bytes. Its text is the
value of the empty name, or the empty name's value is its name. -/
theorem exists_parameter_twin (m : ParameterMap) :
    ∃ m' : ParameterMap, (parameter_parts m').flatten = (parameter_parts m).flatten ∧ m'.toList ≠ m.toList := by
  obtain ⟨w, hw⟩ := exists_characters_eq m
  have hempty : characters "" = [] := rfl
  by_cases hm : m.toList = [("", w)]
  · by_cases hnone : w = ""
    · refine ⟨∅, ?_, ?_⟩
      · rw [← hw, hnone]
        rfl
      · rw [hm]
        exact (List.cons_ne_nil _ _).symm
    · refine ⟨TreeMap.empty.insert w "", ?_, fun heq => ?_⟩
      · rw [parameter_parts_single, hw, hempty, List.append_nil]
      · have hlist : [(w, "")] = [("", w)] := heq.trans hm
        exact hnone (Prod.mk.inj (List.cons.inj hlist).1).1
  · refine ⟨TreeMap.empty.insert "" w, ?_, fun heq => hm heq.symm⟩
    rw [parameter_parts_single, hw, hempty, List.nil_append]

theorem parameter_parts_inj {m m' : ParameterMap} {rest rest' : List (List UInt8)}
    (hcount : m.toList.length = m'.toList.length)
    (heq : parameter_parts m ++ rest = parameter_parts m' ++ rest') :
    m.toList = m'.toList ∧ rest = rest' := by
  refine Feed.flatMap_inj_of_length 2 (fun _ => rfl) (fun e e' hparts => ?_) hcount heq
  simp only [List.cons.injEq, and_true] at hparts
  exact Prod.ext (characters_inj hparts.1) (characters_inj hparts.2)

theorem length_parameter_parts (m : ParameterMap) : (parameter_parts m).length = 2 * m.toList.length := by
  rw [parameter_parts, List.length_flatMap]
  simp [Nat.mul_comm]

/-- Hashing the entries of a map one after the other. -/
theorem foldl_hash_parameters (h : UInt64) (m : ParameterMap) :
    m.foldl (fun h name value => hash_bytes (hash_bytes h (characters name)) (characters value)) h =
      (parameter_parts m).foldl hash_bytes h := by
  rw [TreeMap.foldl_eq_foldl_toList, parameter_parts, List.foldl_flatMap]
  rfl

end ptl

/-! ### Strategies -/

namespace ptl.strategy

def required_byte (required : Bool) : UInt8 := if required then 1 else 0

theorem required_byte_inj : ∀ a b, required_byte a = required_byte b → a = b := by decide

def StrategyDescriptor.fingerprint (d : StrategyDescriptor) : UInt64 :=
  let h := hash_bytes kFnvOffset (characters d.id.value)
  let h := hash_bytes h (sizeof32 d.version.major)
  let h := hash_bytes h (sizeof32 d.version.minor)
  let h := hash_bytes h (sizeof32 d.version.patch)
  let h := d.parameters.foldl (fun h spec =>
    let h := hash_bytes h (characters spec.name)
    let h := hash_bytes h (characters spec.type)
    let h := hash_bytes h [required_byte spec.required]
    hash_bytes h (characters spec.default_value)) h
  d.depends_on.foldl (fun h dependency => hash_bytes h (characters dependency.value)) h

def StrategyVersion.parts (v : StrategyVersion) : List (List UInt8) :=
  [sizeof32 v.major, sizeof32 v.minor, sizeof32 v.patch]

def ParameterSpec.parts (spec : ParameterSpec) : List (List UInt8) :=
  [characters spec.name, characters spec.type, [required_byte spec.required], characters spec.default_value]

/-- What is hashed of a descriptor, part by part. -/
def StrategyDescriptor.parts (d : StrategyDescriptor) : List (List UInt8) :=
  characters d.id.value :: (d.version.parts ++
    (d.parameters.flatMap ParameterSpec.parts ++ d.depends_on.map fun dependency => characters dependency.value))

def StrategyDescriptor.feed (d : StrategyDescriptor) : List UInt8 := d.parts.flatten

/-- What the fingerprint of a descriptor covers. -/
def StrategyDescriptor.identity (d : StrategyDescriptor) :
    StrategyId × StrategyVersion × List ParameterSpec × List StrategyId :=
  (d.id, d.version, d.parameters, d.depends_on)

theorem StrategyDescriptor.fingerprint_eq (d : StrategyDescriptor) :
    d.fingerprint = hash_bytes kFnvOffset d.feed := by
  have hspecs : ∀ h, (d.parameters.flatMap ParameterSpec.parts).foldl hash_bytes h =
      d.parameters.foldl (fun h spec => spec.parts.foldl hash_bytes h) h := fun h => List.foldl_flatMap
  have hdepends : ∀ h, (d.depends_on.map fun dependency => characters dependency.value).foldl hash_bytes h =
      d.depends_on.foldl (fun h dependency => hash_bytes h (characters dependency.value)) h :=
    fun h => List.foldl_map
  rw [feed, ← foldl_hash_bytes, parts, List.foldl_cons, List.foldl_append, List.foldl_append, hspecs, hdepends]
  simp only [fingerprint, StrategyVersion.parts, ParameterSpec.parts, List.foldl_cons, List.foldl_nil]

theorem StrategyVersion.parts_inj {v v' : StrategyVersion} (heq : v.parts = v'.parts) : v = v' := by
  obtain ⟨major, minor, patch⟩ := v
  obtain ⟨major', minor', patch'⟩ := v'
  simp only [parts, List.cons.injEq, and_true] at heq
  obtain ⟨hmajor, hminor, hpatch⟩ := heq
  rw [sizeof32_inj hmajor, sizeof32_inj hminor, sizeof32_inj hpatch]

theorem ParameterSpec.parts_inj (spec spec' : ParameterSpec) (heq : spec.parts = spec'.parts) : spec = spec' := by
  obtain ⟨name, type, required, default_value⟩ := spec
  obtain ⟨name', type', required', default_value'⟩ := spec'
  simp only [parts, List.cons.injEq, and_true] at heq
  obtain ⟨hname, htype, hrequired, hdefault⟩ := heq
  rw [characters_inj hname, characters_inj htype, required_byte_inj _ _ hrequired, characters_inj hdefault]

/-- Another dependency that was never created feeds nothing. -/
theorem StrategyDescriptor.exists_twin (d : StrategyDescriptor) :
    ∃ d' : StrategyDescriptor, d'.feed = d.feed ∧ d'.identity ≠ d.identity := by
  let unset : StrategyId := ⟨"", rfl, by decide⟩
  refine ⟨{ d with depends_on := d.depends_on ++ [unset] }, ?_, fun heq => ?_⟩
  · have hunset : characters unset.value = [] := rfl
    simp [feed, parts, hunset]
  · have hdepends : d.depends_on ++ [unset] = d.depends_on := (Prod.mk.inj (Prod.mk.inj (Prod.mk.inj heq).2).2).2
    simp at hdepends

theorem StrategyDescriptor.identity_of_aligned {d d' : StrategyDescriptor}
    (haligned : Feed.Aligned StrategyDescriptor.parts d d')
    (hcount : d.parameters.length = d'.parameters.length) (hfeed : d.feed = d'.feed) :
    d.identity = d'.identity := by
  obtain ⟨hid, hrest⟩ := List.cons.inj (haligned.parts_eq hfeed)
  obtain ⟨hversion, hrest⟩ := List.append_inj hrest rfl
  obtain ⟨hspecs, hdepends⟩ := Feed.flatMap_inj_of_length 4 (fun _ => rfl) ParameterSpec.parts_inj hcount hrest
  have hdepends : d.depends_on = d'.depends_on :=
    List.map_injective_iff.mpr (fun a b hab => StrategyId.ext (characters_inj hab)) hdepends
  rw [identity, identity, StrategyId.ext (characters_inj hid), StrategyVersion.parts_inj hversion, hspecs, hdepends]

end ptl.strategy

/-! ### Schemas and models -/

namespace ptl.storage

structure Schema where
  fields : List SchemaField
  deriving DecidableEq, Repr

/-- What one field adds to the text of a schema. -/
def SchemaField.entry (f : SchemaField) : String :=
  f.name ++ ":" ++ f.type ++ ":" ++ toString f.lookback_periods ++ ";"

def Schema.text (s : Schema) : String := s.fields.foldl (fun ss field => ss ++ field.entry) ""

def Schema.checksum (s : Schema) : UInt64 := checksum_of s.text

def Schema.feed (s : Schema) : List UInt8 := characters s.text

def SchemaField.parts (f : SchemaField) : List (List Char) :=
  [f.name.toList, [':'], f.type.toList, [':'], (toString f.lookback_periods).toList, [';']]

theorem SchemaField.toList_entry (f : SchemaField) : f.entry.toList = f.parts.flatten := by
  simp [entry, parts]

theorem Schema.toList_text (s : Schema) : s.text.toList = (s.fields.flatMap SchemaField.parts).flatten := by
  have hfrom : ∀ (fields : List SchemaField) (ss : String),
      (fields.foldl (fun ss field => ss ++ field.entry) ss).toList =
        ss.toList ++ (fields.flatMap SchemaField.parts).flatten := by
    intro fields
    induction fields with
    | nil => simp
    | cons f fields ih =>
      intro ss
      rw [List.foldl_cons, ih, String.toList_append, SchemaField.toList_entry, List.flatMap_cons,
        List.flatten_append, List.append_assoc]
  exact hfrom s.fields ""

/-- Two schemas feed the same bytes when their texts have the same characters. -/
theorem Schema.feed_eq_iff {s s' : Schema} : s.feed = s'.feed ↔
    (s.fields.flatMap SchemaField.parts).flatten = (s'.fields.flatMap SchemaField.parts).flatten := by
  rw [← toList_text, ← toList_text, String.toList_inj]
  exact ⟨characters_inj, congrArg characters⟩

theorem toString_inj {n n' : Nat} (heq : (toString n).toList = (toString n').toList) : n = n' := by
  rw [← ofDigits_toString n, heq, ofDigits_toString]

theorem SchemaField.parts_inj (f f' : SchemaField) (heq : f.parts = f'.parts) : f = f' := by
  obtain ⟨name, type, lookback⟩ := f
  obtain ⟨name', type', lookback'⟩ := f'
  simp only [parts, List.cons.injEq, true_and, and_true] at heq
  obtain ⟨hname, htype, hlookback⟩ := heq
  rw [String.toList_inj.mp hname, String.toList_inj.mp htype, toString_inj hlookback]

/-! A field writes two colons of its own, and the digits none. -/

theorem SchemaField.count_colon (f : SchemaField) :
    f.parts.flatten.count ':' = f.name.toList.count ':' + f.type.toList.count ':' + 2 := by
  have hdigits : (toString f.lookback_periods).toList.count ':' = 0 := by
    rw [List.count_eq_zero]
    intro hmem
    have hdigit := isDigit_of_mem_toString hmem
    cases hdigit
  simp only [parts, List.flatten_cons, List.flatten_nil, List.count_append, hdigits]
  simp
  omega

theorem two_mul_length_le_count (fields : List SchemaField) :
    2 * fields.length ≤ (fields.flatMap SchemaField.parts).flatten.count ':' := by
  induction fields with
  | nil => simp
  | cons f fields ih =>
    rw [List.flatMap_cons, List.flatten_append, List.count_append, f.count_colon, List.length_cons]
    omega

/-- A name and a type without colons end at the colons that follow them. -/
theorem SchemaField.eq_of_flatten_eq {f f' : SchemaField}
    (hfree : ':' ∉ f.name.toList ∧ ':' ∉ f.type.toList) (hfree' : ':' ∉ f'.name.toList ∧ ':' ∉ f'.type.toList)
    (heq : f.parts.flatten = f'.parts.flatten) : f = f' := by
  simp only [parts, List.flatten_cons, List.flatten_nil, List.append_nil, List.singleton_append] at heq
  obtain ⟨hname, hrest⟩ := Feed.append_mark_inj hfree.1 hfree'.1 heq
  obtain ⟨htype, hrest⟩ := Feed.append_mark_inj hfree.2 hfree'.2 hrest
  obtain ⟨hlookback, _⟩ := List.append_inj' hrest rfl
  obtain ⟨name, type, lookback⟩ := f
  obtain ⟨name', type', lookback'⟩ := f'
  rw [SchemaField.mk.injEq]
  exact ⟨String.toList_inj.mp hname, String.toList_inj.mp htype, toString_inj hlookback⟩

/-- A field, and one more that takes over its entry as the start of its name. -/
def SchemaField.joined (f g : SchemaField) : SchemaField :=
  { g with name := f.entry ++ g.name }

theorem SchemaField.flatten_joined (f g : SchemaField) :
    (f.joined g).parts.flatten = f.parts.flatten ++ g.parts.flatten := by
  rw [← toList_entry f]
  simp [joined, parts]

/-- A text with a colon in it is split there. -/
theorem exists_colon {s : String} (hcolon : ':' ∈ s.toList) :
    ∃ front back : String, s.toList = front.toList ++ ':' :: back.toList ∧ front ≠ s := by
  obtain ⟨front, back, hsplit⟩ := List.append_of_mem hcolon
  refine ⟨String.ofList front, String.ofList back, by simpa using hsplit, fun heq => ?_⟩
  have hlength := congrArg List.length hsplit
  rw [← heq, String.toList_ofList, List.length_append, List.length_cons] at hlength
  omega

/-- A field with a colon in its name or its type can be cut there, and two fields
can be joined. -/
theorem Schema.free_of_identified {s : Schema} (hidentified : Feed.Identified Schema.feed Schema.fields s) :
    s.fields = [] ∨ ∃ f, s.fields = [f] ∧ ':' ∉ f.name.toList ∧ ':' ∉ f.type.toList := by
  obtain ⟨fields⟩ := s
  have hfeed : ∀ fields', (fields'.flatMap SchemaField.parts).flatten = (fields.flatMap SchemaField.parts).flatten →
      fields' = fields := fun fields' heq => hidentified ⟨fields'⟩ (feed_eq_iff.mpr heq)
  match fields, hfeed with
  | [], _ => exact .inl rfl
  | [f], hfeed =>
    refine .inr ⟨f, rfl, fun hcolon => ?_, fun hcolon => ?_⟩
    · obtain ⟨front, back, hsplit, hne⟩ := exists_colon hcolon
      have htwin := hfeed [{ f with name := front, type := back ++ ":" ++ f.type }]
        (by simp [SchemaField.parts, hsplit])
      exact hne (congrArg SchemaField.name (List.cons.inj htwin).1)
    · obtain ⟨front, back, hsplit, hne⟩ := exists_colon hcolon
      have htwin := hfeed [{ f with name := f.name ++ ":" ++ front, type := back }]
        (by simp [SchemaField.parts, hsplit])
      have hname := congrArg (fun f => f.name.toList.length) (List.cons.inj htwin).1
      simp at hname
  | f :: g :: rest, hfeed =>
    have htwin := hfeed (f.joined g :: rest) (by
      simp only [List.flatMap_cons, List.flatten_append, SchemaField.flatten_joined, List.append_assoc])
    have hlength := congrArg List.length htwin
    simp only [List.length_cons] at hlength
    omega

/-- A single field with no colon of its own is read back from its two colons. -/
theorem SchemaField.eq_singleton {f : SchemaField} (hname : ':' ∉ f.name.toList) (htype : ':' ∉ f.type.toList)
    {fields : List SchemaField} (heq : (fields.flatMap SchemaField.parts).flatten = f.parts.flatten) :
    fields = [f] := by
  have hcount := congrArg (List.count ':') heq
  have hleast := two_mul_length_le_count fields
  rw [f.count_colon, List.count_eq_zero.mpr hname, List.count_eq_zero.mpr htype] at hcount
  match fields, heq, hcount, hleast with
  | [], _, hcount, _ => cases hcount
  | [f'], heq, hcount, _ =>
    simp only [List.flatMap_cons, List.flatMap_nil, List.append_nil] at hcount heq
    rw [f'.count_colon] at hcount
    have hname' : ':' ∉ f'.name.toList := List.count_eq_zero.mp (by omega)
    have htype' : ':' ∉ f'.type.toList := List.count_eq_zero.mp (by omega)
    exact congrArg (fun f => [f]) (SchemaField.eq_of_flatten_eq ⟨hname', htype'⟩ ⟨hname, htype⟩ heq)
  | f' :: g' :: rest, _, hcount, hleast =>
    rw [hcount, List.length_cons, List.length_cons] at hleast
    omega

/-- A schema is told from every other one exactly when it has no field, or one
whose name and type are free of colons. -/
theorem Schema.identified_iff (s : Schema) : Feed.Identified Schema.feed Schema.fields s ↔
    s.fields = [] ∨ ∃ f, s.fields = [f] ∧ ':' ∉ f.name.toList ∧ ':' ∉ f.type.toList := by
  refine ⟨free_of_identified, ?_⟩
  rintro hone s' hfeed
  rw [feed_eq_iff] at hfeed
  obtain hnone | ⟨f, hone, hname, htype⟩ := hone
  · have hleast := two_mul_length_le_count s'.fields
    rw [hnone] at hfeed ⊢
    rw [hfeed] at hleast
    exact List.length_eq_zero_iff.mp (by simpa using hleast)
  · rw [hone] at hfeed ⊢
    exact SchemaField.eq_singleton hname htype (by simpa using hfeed)

theorem Schema.fields_of_aligned {s s' : Schema}
    (haligned : Feed.Aligned (fun s : Schema => s.fields.flatMap SchemaField.parts) s s') (hfeed : s.feed = s'.feed) :
    s.fields = s'.fields := by
  have hparts := haligned.parts_eq (feed_eq_iff.mp hfeed)
  have hcount : s.fields.length = s'.fields.length := by
    have hlength := congrArg List.length hparts
    simp only [List.length_flatMap, SchemaField.parts, List.length_cons, List.length_nil] at hlength
    simpa using hlength
  have hstream : s.fields.flatMap SchemaField.parts ++ [] = s'.fields.flatMap SchemaField.parts ++ [] :=
    congrArg (· ++ []) hparts
  exact (Feed.flatMap_inj_of_length 6 (fun _ => rfl) SchemaField.parts_inj hcount hstream).1

/-- A model's metadata with the parts of it that only its fingerprint reads. -/
structure TrainedModel extends ModelMetadata where
  hyperparameters : ParameterMap := ∅
  seed : UInt64 := 0

def TrainedModel.fingerprint (m : TrainedModel) : UInt64 :=
  let h := hash_bytes kFnvOffset (characters m.model_id)
  let h := hash_bytes h (sizeof32 m.version)
  let h := hash_bytes h (characters m.kind)
  let h := hash_bytes h (characters m.dataset_id)
  let h := hash_bytes h (sizeof32 m.dataset_version)
  let h := m.hyperparameters.foldl
    (fun h name value => hash_bytes (hash_bytes h (characters name)) (characters value)) h
  let h := hash_bytes h (sizeof64 m.seed)
  checksum_of (toString h)

def TrainedModel.parts (m : TrainedModel) : List (List UInt8) :=
  [characters m.model_id, sizeof32 m.version, characters m.kind, characters m.dataset_id,
    sizeof32 m.dataset_version] ++ (parameter_parts m.hyperparameters ++ [sizeof64 m.seed])

def TrainedModel.feed (m : TrainedModel) : List UInt8 := m.parts.flatten

/-- What the fingerprint of a model covers. -/
def TrainedModel.identity (m : TrainedModel) :
    String × UInt32 × String × String × UInt32 × List (String × String) × UInt64 :=
  (m.model_id, m.version, m.kind, m.dataset_id, m.dataset_version, m.hyperparameters.toList, m.seed)

theorem TrainedModel.fingerprint_eq (m : TrainedModel) :
    m.fingerprint = checksum_of (toString (hash_bytes kFnvOffset m.feed)) := by
  rw [feed, ← foldl_hash_bytes, parts, List.foldl_append, List.foldl_append, ← foldl_hash_parameters]
  simp only [fingerprint, List.foldl_cons, List.foldl_nil]

theorem TrainedModel.exists_twin (m : TrainedModel) :
    ∃ m' : TrainedModel, m'.feed = m.feed ∧ m'.identity ≠ m.identity := by
  obtain ⟨hyperparameters, hsame, hne⟩ := exists_parameter_twin m.hyperparameters
  refine ⟨{ m with hyperparameters }, ?_, fun heq => hne ?_⟩
  · simp only [feed, parts, List.flatten_append, hsame]
  · simp only [identity, Prod.mk.injEq, true_and, and_true] at heq
    exact heq

theorem TrainedModel.identity_of_aligned {m m' : TrainedModel} (haligned : Feed.Aligned TrainedModel.parts m m')
    (hfeed : m.feed = m'.feed) : m.identity = m'.identity := by
  have hparts := haligned.parts_eq hfeed
  have hcount : m.hyperparameters.toList.length = m'.hyperparameters.toList.length := by
    have hlength := congrArg List.length hparts
    simp only [parts, List.length_append, length_parameter_parts, List.length_cons, List.length_nil] at hlength
    omega
  obtain ⟨hfirst, hrest⟩ := List.append_inj hparts rfl
  obtain ⟨hyper, hseed⟩ := parameter_parts_inj hcount hrest
  simp only [List.cons.injEq, and_true] at hfirst hseed
  obtain ⟨hid, hversion, hkind, hdataset, hdataversion⟩ := hfirst
  rw [identity, identity, characters_inj hid, sizeof32_inj hversion, characters_inj hkind,
    characters_inj hdataset, sizeof32_inj hdataversion, hyper, sizeof64_inj hseed]

end ptl.storage

/-! ### Experiments -/

namespace ptl.experiment

open ptl.strategy ptl.storage

/-- The parts of a configuration that are checked or hashed. -/
structure ExperimentConfig where
  experiment_id : String
  strategy_id : StrategyId
  strategy_version : StrategyVersion := {}
  parameters : ParameterMap := ∅
  dataset_id : String
  dataset_version : UInt32 := 0
  seed : UInt64 := 0
  config_hash : UInt64 := 0

/-- Why a configuration is refused, if it is. -/
def ExperimentConfig.refusal (c : ExperimentConfig) : Option Error :=
  if c.experiment_id = "" then some (bad "experiment has no id")
  else if c.strategy_id.value = "" then some (bad "experiment names no strategy" c.experiment_id)
  else if c.dataset_id = "" ∨ c.dataset_version = 0 then
    some (bad "experiment names no dataset version; it would not be reproducible" c.experiment_id)
  else if c.seed = 0 then
    some (bad "experiment has no seed; set one explicitly so the run can be reproduced" c.experiment_id)
  else none

def ExperimentConfig.validate (c : ExperimentConfig) : Result Bool :=
  match c.refusal with
  | some err => .error err
  | none => .ok true

def ExperimentConfig.fingerprint (c : ExperimentConfig) : UInt64 :=
  let h := hash_bytes kFnvOffset (characters c.strategy_id.value)
  let h := hash_bytes h (sizeof32 c.strategy_version.major)
  let h := hash_bytes h (sizeof32 c.strategy_version.minor)
  let h := hash_bytes h (sizeof32 c.strategy_version.patch)
  let h := hash_bytes h (characters c.dataset_id)
  let h := hash_bytes h (sizeof32 c.dataset_version)
  let h := hash_bytes h (sizeof64 c.seed)
  let h := hash_bytes h (sizeof64 c.config_hash)
  c.parameters.foldl (fun h name value => hash_bytes (hash_bytes h (characters name)) (characters value)) h

def ExperimentConfig.parts (c : ExperimentConfig) : List (List UInt8) :=
  characters c.strategy_id.value :: (c.strategy_version.parts ++
    ([characters c.dataset_id, sizeof32 c.dataset_version, sizeof64 c.seed, sizeof64 c.config_hash] ++
      parameter_parts c.parameters))

def ExperimentConfig.feed (c : ExperimentConfig) : List UInt8 := c.parts.flatten

/-- What the fingerprint of a configuration covers. -/
def ExperimentConfig.identity (c : ExperimentConfig) :
    StrategyId × StrategyVersion × String × UInt32 × UInt64 × UInt64 × List (String × String) :=
  (c.strategy_id, c.strategy_version, c.dataset_id, c.dataset_version, c.seed, c.config_hash, c.parameters.toList)

theorem ExperimentConfig.fingerprint_eq (c : ExperimentConfig) :
    c.fingerprint = hash_bytes kFnvOffset c.feed := by
  rw [feed, ← foldl_hash_bytes, parts, List.foldl_cons, List.foldl_append, List.foldl_append, ← foldl_hash_parameters]
  simp only [fingerprint, StrategyVersion.parts, List.foldl_cons, List.foldl_nil]

/-- The twin of a configuration is accepted whenever the configuration is. -/
theorem ExperimentConfig.exists_twin (c : ExperimentConfig) :
    ∃ c' : ExperimentConfig, c'.feed = c.feed ∧ c'.identity ≠ c.identity ∧ c'.validate = c.validate := by
  obtain ⟨parameters, hsame, hne⟩ := exists_parameter_twin c.parameters
  refine ⟨{ c with parameters }, ?_, fun heq => hne ?_, rfl⟩
  · simp only [feed, parts, List.flatten_cons, List.flatten_append, hsame]
  · simp only [identity, Prod.mk.injEq, true_and] at heq
    exact heq

theorem ExperimentConfig.identity_of_aligned {c c' : ExperimentConfig}
    (haligned : Feed.Aligned ExperimentConfig.parts c c') (hfeed : c.feed = c'.feed) :
    c.identity = c'.identity := by
  have hparts := haligned.parts_eq hfeed
  have hcount : c.parameters.toList.length = c'.parameters.toList.length := by
    have hlength := congrArg List.length hparts
    simp only [parts, StrategyVersion.parts, List.length_append, length_parameter_parts, List.length_cons,
      List.length_nil] at hlength
    omega
  obtain ⟨hid, hrest⟩ := List.cons.inj hparts
  obtain ⟨hversion, hrest⟩ := List.append_inj hrest rfl
  obtain ⟨hfixed, hparameters⟩ := List.append_inj hrest rfl
  have hstream : parameter_parts c.parameters ++ [] = parameter_parts c'.parameters ++ [] :=
    congrArg (· ++ []) hparameters
  obtain ⟨hparameters, _⟩ := parameter_parts_inj hcount hstream
  simp only [List.cons.injEq, and_true] at hfixed
  obtain ⟨hdataset, hdataversion, hseed, hconfig⟩ := hfixed
  rw [identity, identity, StrategyId.ext (characters_inj hid), StrategyVersion.parts_inj hversion,
    characters_inj hdataset, sizeof32_inj hdataversion, sizeof64_inj hseed, sizeof64_inj hconfig, hparameters]

/-- No configuration, descriptor or model is identified by its bytes: each has a
twin that feeds the same ones. A schema is identified when it has no field, or
one without colons. Values whose parts are as long, one by one, are told apart. -/
theorem fingerprints_identify_iff (c : ExperimentConfig) (d : StrategyDescriptor) (m : TrainedModel) (s : Schema) :
    (¬ Feed.Identified ExperimentConfig.feed ExperimentConfig.identity c ∧
      ¬ Feed.Identified StrategyDescriptor.feed StrategyDescriptor.identity d ∧
      ¬ Feed.Identified TrainedModel.feed TrainedModel.identity m ∧
      (Feed.Identified Schema.feed Schema.fields s ↔
        s.fields = [] ∨ ∃ f, s.fields = [f] ∧ ':' ∉ f.name.toList ∧ ':' ∉ f.type.toList)) ∧
    (∀ c', Feed.Aligned ExperimentConfig.parts c c' → c.feed = c'.feed → c.identity = c'.identity) ∧
    (∀ d', Feed.Aligned StrategyDescriptor.parts d d' → d.parameters.length = d'.parameters.length →
      d.feed = d'.feed → d.identity = d'.identity) ∧
    (∀ m', Feed.Aligned TrainedModel.parts m m' → m.feed = m'.feed → m.identity = m'.identity) ∧
    ∀ s', Feed.Aligned (fun s : Schema => s.fields.flatMap SchemaField.parts) s s' → s.feed = s'.feed →
      s.fields = s'.fields := by
  refine ⟨⟨?_, ?_, ?_, s.identified_iff⟩, fun _ => ExperimentConfig.identity_of_aligned,
    fun _ => StrategyDescriptor.identity_of_aligned, fun _ => TrainedModel.identity_of_aligned,
    fun _ => Schema.fields_of_aligned⟩
  · obtain ⟨c', hfeed, hne, _⟩ := c.exists_twin
    exact Feed.Identified.not_of_twin hfeed hne
  · obtain ⟨d', hfeed, hne⟩ := d.exists_twin
    exact Feed.Identified.not_of_twin hfeed hne
  · obtain ⟨m', hfeed, hne⟩ := m.exists_twin
    exact Feed.Identified.not_of_twin hfeed hne

/-! What a caller may write: a parameter `a` that is `bc`, or `ab` that is `c`. -/

def momentum : ExperimentConfig where
  experiment_id := "first"
  strategy_id := (StrategyId.create "momentum").value
  parameters := TreeMap.empty.insert "a" "bc"
  dataset_id := "bars"
  dataset_version := 1
  seed := 1

def composed (depends_on : List StrategyId) : StrategyDescriptor where
  id := (StrategyId.create "momentum").value
  depends_on := depends_on

def ridge : TrainedModel where
  model_id := "ridge"
  version := 1
  kind := "ridge"
  dataset_id := "bars"
  dataset_version := 1
  hyperparameters := TreeMap.empty.insert "a" "bc"

theorem fingerprints_collide :
    (¬ ∀ c c' : ExperimentConfig, c.identity ≠ c'.identity → c.feed ≠ c'.feed) ∧
      (¬ ∀ d d' : StrategyDescriptor, d.identity ≠ d'.identity → d.feed ≠ d'.feed) ∧
      (¬ ∀ m m' : TrainedModel, m.identity ≠ m'.identity → m.feed ≠ m'.feed) ∧
      ¬ ∀ s s' : Schema, s.fields ≠ s'.fields → s.feed ≠ s'.feed := by
  refine ⟨fun htold => ?_, fun htold => ?_, fun htold => ?_, fun htold => ?_⟩
  · refine htold momentum { momentum with parameters := TreeMap.empty.insert "ab" "c" } (fun heq => ?_)
      (by decide +kernel)
    exact absurd (congrArg (fun i => i.2.2.2.2.2.2) heq) (by decide +kernel)
  · let a := (StrategyId.create "a").value
    let b := (StrategyId.create "b").value
    let ab := (StrategyId.create "ab").value
    exact htold (composed [a, b]) (composed [ab]) (by decide +kernel) (by decide +kernel)
  · refine htold ridge { ridge with hyperparameters := TreeMap.empty.insert "ab" "c" } (fun heq => ?_)
      (by decide +kernel)
    exact absurd (congrArg (fun i => i.2.2.2.2.2.1) heq) (by decide +kernel)
  · exact htold ⟨[⟨"open", "double", 0⟩, ⟨"close", "double", 0⟩]⟩ ⟨[⟨"open:double:0;close", "double", 0⟩]⟩
      (by decide +kernel) (by decide +kernel)

end ptl.experiment
