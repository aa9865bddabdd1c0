import TradingLab.Codec
import TradingLab.Core.Pod
import TradingLab.Models.Pipeline

open Fields

namespace ptl.models

variable {D : Type}

/-- Doubles as they lie in memory, with what logistic models use of them. -/
class StoredDouble (D : Type) extends Double D where
  of_bits : UInt64 → D
  of_bits_bits : ∀ x, of_bits (Double.bits x) = x
  exp : D → D
  /-- The comparison `z >= 0.0`. -/
  nonnegative : D → Bool

section Bytes

variable [StoredDouble D]

def double_bytes (x : D) : List UInt8 := sizeof64 (Double.bits x)

def double_of (bytes : List UInt8) : D := StoredDouble.of_bits (UInt64.ofNat (value_of bytes))

def doubles_bytes (xs : List D) : List UInt8 := xs.flatMap double_bytes

def doubles_of : List UInt8 → List D
  | b₀ :: b₁ :: b₂ :: b₃ :: b₄ :: b₅ :: b₆ :: b₇ :: rest =>
    double_of [b₀, b₁, b₂, b₃, b₄, b₅, b₆, b₇] :: doubles_of rest
  | _ => []

theorem UInt64_of_sizeof64 (x : UInt64) : UInt64.ofNat (value_of (sizeof64 x)) = x := by
  rw [sizeof64, value_of_memory (by simpa using x.toNat_lt), UInt64.ofNat_toNat]

@[simp] theorem length_double_bytes (x : D) : (double_bytes x).length = 8 := length_sizeof64 _

@[simp] theorem double_of_bytes (x : D) : double_of (double_bytes x) = x := by
  rw [double_of, double_bytes, UInt64_of_sizeof64, StoredDouble.of_bits_bits]

theorem double_bytes_inj {x y : D} (heq : double_bytes x = double_bytes y) : x = y := by
  rw [← double_of_bytes x, heq, double_of_bytes]

theorem doubles_of_append (x : D) (rest : List UInt8) : doubles_of (double_bytes x ++ rest) = x :: doubles_of rest := by
  have hback := double_of_bytes x
  have hlength := length_double_bytes x
  match hbytes : double_bytes x, hlength with
  | [b₀, b₁, b₂, b₃, b₄, b₅, b₆, b₇], _ =>
    rw [hbytes] at hback
    simp only [List.cons_append, List.nil_append, doubles_of, hback]

@[simp] theorem doubles_of_bytes (xs : List D) : doubles_of (doubles_bytes xs) = xs := by
  induction xs with
  | nil => rfl
  | cons x xs ih => rw [doubles_bytes, List.flatMap_cons, doubles_of_append, ← doubles_bytes, ih]

@[simp] theorem length_doubles_bytes (xs : List D) : (doubles_bytes xs).length = 8 * xs.length := by
  induction xs with
  | nil => rfl
  | cons x xs ih =>
    rw [doubles_bytes, List.flatMap_cons, List.length_append, ← doubles_bytes, ih, length_double_bytes,
      List.length_cons]
    omega

theorem doubles_bytes_inj {xs ys : List D} (heq : doubles_bytes xs = doubles_bytes ys) : xs = ys := by
  rw [← doubles_of_bytes xs, heq, doubles_of_bytes]

/-- `resize`, which fills up with zeros. -/
def resized (p : Nat) (xs : List D) : List D := xs.take p ++ List.replicate (p - xs.length) 0

@[simp] theorem length_resized (p : Nat) (xs : List D) : (resized p xs).length = p := by
  rw [resized, List.length_append, List.length_take, List.length_replicate]
  omega

/-- A block of doubles read over a vector. -/
def read_doubles (xs : List D) (input : List UInt8) : List D × List UInt8 × Bool :=
  let (found, rest, whole) := overlay (doubles_bytes xs) input
  (doubles_of found, rest, whole)

theorem read_doubles_append {xs ys : List D} (hlength : ys.length = xs.length) (rest : List UInt8) :
    read_doubles xs (doubles_bytes ys ++ rest) = (ys, rest, true) := by
  have hbytes : (doubles_bytes ys).length = (doubles_bytes xs).length := by simp [hlength]
  rw [read_doubles, overlay_append hbytes]
  simp

/-! ### Fields -/

variable {S : Type}

def double_field (get : S → D) (set : D → S → S) : Field S UInt8 where
  get s := double_bytes (get s)
  set bytes s := set (double_of bytes) s

def word_field (get : S → UInt64) (set : UInt64 → S → S) : Field S UInt8 where
  get s := sizeof64 (get s)
  set bytes s := set (UInt64.ofNat (value_of bytes)) s

/-- A flag is a byte. -/
def flag_field (get : S → Bool) (set : Bool → S → S) : Field S UInt8 where
  get s := [if get s then 1 else 0]
  set bytes s := set (bytes ≠ [0]) s

theorem double_field_sized (get : S → D) (set : D → S → S) : (double_field get set).Sized := fun s t => by
  simp [double_field]

theorem word_field_sized (get : S → UInt64) (set : UInt64 → S → S) : (word_field get set).Sized := fun s t => by
  simp [word_field]

theorem flag_field_sized (get : S → Bool) (set : Bool → S → S) : (flag_field get set).Sized := fun _ _ => rfl

end Bytes

/-- The longest vector of doubles there can be. -/
def kMaxSize : Nat := (2 ^ 63 - 1) / 8

/-- A load may also throw, where a vector is to be longer than one can be. -/
inductive Outcome (A : Type) where
  | done (value : A)
  | failed (err : Error)
  | thrown

/-- A number and a version at the front of what is read. -/
def read_magic (magic version : Nat) (not_this : String) (unsupported : Nat → String) (input : List UInt8) :
    Result (List UInt8) :=
  match expect_pod (fun _ => bad not_this) 4 magic input with
  | .error err => .error err
  | .ok (_, rest) =>
    match expect_pod (fun found => bad (unsupported found)) 4 version rest with
    | .error err => .error err
    | .ok (_, rest) => .ok rest

theorem read_magic_append {magic version : Nat} (hmagic : magic < 256 ^ 4) (hversion : version < 256 ^ 4)
    (not_this : String) (unsupported : Nat → String) (rest : List UInt8) :
    read_magic magic version not_this unsupported (memory 4 magic ++ (memory 4 version ++ rest)) = .ok rest := by
  have hfirst := (expect_pod_parses (fun _ => bad not_this) hmagic).complete (a := ()) (memory 4 version ++ rest)
    trivial
  have hsecond := (expect_pod_parses (fun found => bad (unsupported found)) hversion).complete (a := ()) rest trivial
  simp only [read_magic, hfirst, hsecond]

end ptl.models

namespace ptl.models

variable {D C : Type}

/-- No other part of a configuration is read by what is modelled of linear models. -/
structure LinearConfig (D : Type) where
  l2_penalty : D
  fit_intercept : Bool := true
  conditioning_epsilon : D

structure LogisticConfig (D : Type) where
  l2_penalty : D
  fit_intercept : Bool := true
  max_iterations : UInt64 := 100
  tolerance : D
  conditioning_epsilon : D

/-- A fitted line, with the configuration it was fitted by. -/
structure LinearModel (C D : Type) where
  cfg : C
  fitted : Bool := false
  intercept : D
  coef : List D := []
  diag : ModelDiagnostics D

/-- Coefficients, and the ridge they may have been fitted with. -/
abbrev LinearRegression (D : Type) := LinearModel (LinearConfig D) D

/-- How the iteration went is not read by what is modelled here. -/
abbrev LogisticRegression (D : Type) := LinearModel (LogisticConfig D) D

section Model

variable [StoredDouble D]

/-! ### Predictions -/

/-- The sum of one row. -/
def LinearModel.eta (m : LinearModel C D) (features : List D) : D :=
  (List.zip m.coef features).foldl (fun y t => y + t.1 * t.2) m.intercept

/-- `predict`, up to what is made of the sum. -/
def LinearModel.score (m : LinearModel C D) (link : D → D) (not_finite : String) (features : List D) : Result D :=
  if ¬ m.fitted then .error (bad "model has not been fitted")
  else if features.length ≠ m.coef.length then
    .error (bad ("expected " ++ toString m.coef.length ++ " features, got " ++ toString features.length))
  else
    let y := link (m.eta features)
    if ¬ Double.is_finite y then .error (bad not_finite) else .ok y

/-- `predict_batch`, up to what is made of the sums. -/
def LinearModel.score_batch (m : LinearModel C D) (link : D → D) (X : DesignMatrix D) : Result (List D) :=
  if ¬ m.fitted then .error (bad "model has not been fitted")
  else if X.cols ≠ m.coef.length then .error (bad "feature width does not match the model")
  else .ok (X.data.map fun row => link (m.eta row))

/-- With a negative exponent on both sides. -/
def sigmoid (z : D) : D :=
  if StoredDouble.nonnegative z then 1 / (1 + StoredDouble.exp (-z))
  else StoredDouble.exp z / (1 + StoredDouble.exp z)

def LinearRegression.predict (m : LinearRegression D) (features : List D) : Result D :=
  m.score id "prediction is not finite" features

/-- A sum that is not finite counts as zero in a batch. -/
def LinearRegression.predict_batch (m : LinearRegression D) (X : DesignMatrix D) : Result (List D) :=
  m.score_batch (fun y => if Double.is_finite y then y else 0) X

def LogisticRegression.predict (m : LogisticRegression D) (features : List D) : Result D :=
  m.score sigmoid "probability is not finite" features

def LogisticRegression.predict_batch (m : LogisticRegression D) (X : DesignMatrix D) : Result (List D) :=
  m.score_batch sigmoid X

/-! ### Files -/

/-- What the parameter hash is taken of. -/
def LinearModel.hash_input (m : LinearModel C D) : List UInt8 := double_bytes m.intercept ++ doubles_bytes m.coef

def LinearModel.parameter_hash (m : LinearModel C D) : UInt64 := hash_bytes kFnvOffset m.hash_input

/-- What the files of two kinds of linear models differ in. -/
structure Layout (C : Type) where
  magic : Nat
  version : Nat
  not_this : String
  fields : List (Field C UInt8)

/-- The header, with the count as the last of it. -/
def Layout.header (l : Layout C) : List (Field (LinearModel C D × UInt64) UInt8) :=
  l.fields.map (fun f => { get := fun s => f.get s.1.cfg
                           set := fun bytes s => ({ s.1 with cfg := f.set bytes s.1.cfg }, s.2) }) ++
    [double_field (fun s => s.1.intercept) fun x s => ({ s.1 with intercept := x }, s.2),
      word_field (fun s => s.2) fun p s => (s.1, p)]

/-- A file up to its hash. -/
def LinearModel.written (l : Layout C) (m : LinearModel C D) : List UInt8 :=
  memory 4 l.magic ++ (memory 4 l.version ++
    (write_fields l.header (m, UInt64.ofNat m.coef.length) ++ doubles_bytes m.coef))

def LinearModel.save (l : Layout C) (m : LinearModel C D) : Result (List UInt8) :=
  if ¬ m.fitted then .error (bad "cannot serialise an unfitted model")
  else .ok (m.written l ++ sizeof64 m.parameter_hash)

/-- The hash at the end of a file, and the model it is compared with. -/
def LinearModel.verify (m : LinearModel C D) (input : List UInt8) : Outcome Unit × LinearModel C D :=
  match overlay (sizeof64 0) input with
  | (_, _, false) => (.failed (bad "truncated model hash"), m)
  | (stored, _, true) =>
    if stored ≠ sizeof64 m.parameter_hash then
      (.failed (bad "model parameter hash mismatch: the file is corrupt"), m)
    else
      (.done (), { m with diag := { ModelDiagnostics.new with
        n_features := m.coef.length
        intercept := m.intercept
        coefficients := m.coef } })

/-- Each part is read in place, and the hash is compared at the very end. -/
def LinearModel.load (l : Layout C) (m : LinearModel C D) (input : List UInt8) : Outcome Unit × LinearModel C D :=
  match read_magic l.magic l.version l.not_this
      (fun found => "unsupported model format version " ++ toString found) input with
  | .error err => (.failed err, m)
  | .ok rest =>
    match read_fields l.header (m, 0) rest with
    | ((m, _), _, false) => (.failed (bad "truncated model header"), m)
    | ((m, p), rest, true) =>
      if kMaxSize < p.toNat then (.thrown, m)
      else
        match read_doubles (resized p.toNat m.coef) rest with
        | (coef, _, false) => (.failed (bad "truncated coefficient block"), { m with coef })
        | (coef, rest, true) => LinearModel.verify { m with coef, fitted := true } rest

def kLinearMagic : Nat := 0x50544C4D
def kLinearVersion : Nat := 1

def LinearRegression.layout : Layout (LinearConfig D) where
  magic := kLinearMagic
  version := kLinearVersion
  not_this := "not a serialised linear model"
  fields :=
    [double_field LinearConfig.l2_penalty fun x c => { c with l2_penalty := x },
      flag_field LinearConfig.fit_intercept fun b c => { c with fit_intercept := b },
      double_field LinearConfig.conditioning_epsilon fun x c => { c with conditioning_epsilon := x }]

def LinearRegression.save (m : LinearRegression D) : Result (List UInt8) := LinearModel.save layout m

def LinearRegression.load (m : LinearRegression D) (input : List UInt8) : Outcome Unit × LinearRegression D :=
  LinearModel.load layout m input

def kLogisticMagic : Nat := 0x50544C47
def kLogisticVersion : Nat := 1

/-- The conditioning of a step is not stored. -/
def LogisticRegression.layout : Layout (LogisticConfig D) where
  magic := kLogisticMagic
  version := kLogisticVersion
  not_this := "not a serialised logistic model"
  fields :=
    [double_field LogisticConfig.l2_penalty fun x c => { c with l2_penalty := x },
      flag_field LogisticConfig.fit_intercept fun b c => { c with fit_intercept := b },
      word_field LogisticConfig.max_iterations fun n c => { c with max_iterations := n },
      double_field LogisticConfig.tolerance fun x c => { c with tolerance := x }]

def LogisticRegression.save (m : LogisticRegression D) : Result (List UInt8) := LinearModel.save layout m

def LogisticRegression.load (m : LogisticRegression D) (input : List UInt8) : Outcome Unit × LogisticRegression D :=
  LinearModel.load layout m input

/-! ### Reading what was written -/

/-- A layout with numbers of 32 bits, and fields of one size. -/
structure Layout.Valid (l : Layout C) : Prop where
  magic_lt : l.magic < 256 ^ 4
  version_lt : l.version < 256 ^ 4
  fields_sized : ∀ f ∈ l.fields, f.Sized

theorem LinearRegression.layout_valid : (LinearRegression.layout : Layout (LinearConfig D)).Valid where
  magic_lt := (by decide : kLinearMagic < 256 ^ 4)
  version_lt := (by decide : kLinearVersion < 256 ^ 4)
  fields_sized := by
    simp only [layout, List.forall_mem_cons, List.not_mem_nil, false_imp_iff, implies_true, and_true]
    exact ⟨double_field_sized _ _, flag_field_sized _ _, double_field_sized _ _⟩

theorem LogisticRegression.layout_valid : (LogisticRegression.layout : Layout (LogisticConfig D)).Valid where
  magic_lt := (by decide : kLogisticMagic < 256 ^ 4)
  version_lt := (by decide : kLogisticVersion < 256 ^ 4)
  fields_sized := by
    simp only [layout, List.forall_mem_cons, List.not_mem_nil, false_imp_iff, implies_true, and_true]
    exact ⟨double_field_sized _ _, flag_field_sized _ _, word_field_sized _ _, double_field_sized _ _⟩

variable {l : Layout C}

theorem Layout.Valid.header_sized (h : l.Valid) :
    ∀ f ∈ (l.header : List (Field (LinearModel C D × UInt64) UInt8)), f.Sized := by
  intro f hf
  obtain hconfig | hown := List.mem_append.mp hf
  · obtain ⟨g, hg, rfl⟩ := List.mem_map.mp hconfig
    exact fun s t => h.fields_sized g hg s.1.cfg t.1.cfg
  · simp only [List.mem_cons, List.not_mem_nil, or_false] at hown
    obtain rfl | rfl := hown
    · exact double_field_sized _ _
    · exact word_field_sized _ _

omit [StoredDouble D] in
theorem copied_config (fields : List (Field C UInt8)) (source s : LinearModel C D × UInt64) :
    copied (fields.map fun f : Field C UInt8 =>
        ({ get := fun s => f.get s.1.cfg
           set := fun bytes s => ({ s.1 with cfg := f.set bytes s.1.cfg }, s.2) } :
          Field (LinearModel C D × UInt64) UInt8)) source s =
      ({ s.1 with cfg := copied fields source.1.cfg s.1.cfg }, s.2) := by
  induction fields generalizing s with
  | nil => rfl
  | cons f fields ih => exact ih _

/-- The header of one model over another. -/
theorem copied_header (source m : LinearModel C D) (p q : UInt64) :
    copied l.header (source, p) (m, q) =
      ({ m with cfg := copied l.fields source.cfg m.cfg, intercept := source.intercept }, p) := by
  unfold copied Layout.header
  rw [List.foldl_append]
  have hconfig := copied_config l.fields (source, p) (m, q)
  unfold copied at hconfig
  rw [hconfig]
  simp [double_field, word_field, UInt64_of_sizeof64]

/-- A file is read up to its hash, whatever the model that reads it. -/
theorem LinearModel.load_written (h : l.Valid) (source m : LinearModel C D)
    (hsize : source.coef.length ≤ kMaxSize) (rest : List UInt8) :
    m.load l (source.written l ++ rest) =
      LinearModel.verify { m with
        cfg := copied l.fields source.cfg m.cfg
        intercept := source.intercept
        coef := source.coef
        fitted := true } rest := by
  have hfits : source.coef.length < 2 ^ 64 := hsize.trans_lt (by decide)
  have hcount : (UInt64.ofNat source.coef.length).toNat = source.coef.length := UInt64.toNat_ofNat_of_lt' hfits
  unfold LinearModel.load LinearModel.written
  simp only [List.append_assoc]
  rw [read_magic_append h.magic_lt h.version_lt]
  simp only
  rw [read_fields_append h.header_sized, copied_header]
  simp only [hcount]
  rw [if_neg (Nat.not_lt.mpr hsize), read_doubles_append (by simp)]

end Model

end ptl.models
