import TradingLab.Models.OutOfSample
import TradingLab.Models.Persistence
import TradingLab.Models.Linear

open Fields ptl.features

namespace ptl.models

open LinearModel

/-- A double, as its bits. Results are truncated, and what is no number is one NaN. -/
structure Binary64 where
  word : UInt64
  deriving DecidableEq, Repr

namespace Binary64

def value (x : Binary64) : Option Rat :=
  let n := x.word.toNat
  let mantissa : Nat := n % 2 ^ 52
  let exponent : Nat := n / 2 ^ 52 % 2 ^ 11
  let magnitude : Rat :=
    if exponent = 0 then mantissa / 2 ^ 1074 else (1 + mantissa / 2 ^ 52) * 2 ^ ((exponent : Int) - 1023)
  if exponent = 2047 then none else some (if 2 ^ 63 ≤ n then -magnitude else magnitude)

def round (x : Rat) : Binary64 := ⟨ieee754 x⟩

def nan : Binary64 := ⟨0x7ff8000000000000⟩

def lift (f : Rat → Rat → Rat) (a b : Binary64) : Binary64 :=
  match a.value, b.value with
  | some x, some y => round (f x y)
  | _, _ => nan

def less (a b : Binary64) : Bool :=
  match a.value, b.value with
  | some x, some y => x < y
  | _, _ => false

/-- Thirty terms of the series. -/
def series (x : Rat) : Rat :=
  ((List.range 30).foldl (fun (sum, term) k => (sum + term, term * x / (k + 1))) ((0, 1) : Rat × Rat)).1

end Binary64

open Binary64 in
instance : StoredDouble Binary64 where
  zero := round 0
  one := round 1
  add := lift (· + ·)
  sub := lift (· - ·)
  mul := lift (· * ·)
  div a b := if b.value = some 0 then nan else lift (· / ·) a b
  neg := lift (fun _ x => -x) (round 0)
  lt a b := less a b = true
  natCast n := round n
  ofScientific m s e := round (OfScientific.ofScientific m s e)
  decidableLT a b := inferInstanceAs (Decidable (less a b = true))
  is_finite x := x.value.isSome
  sqrt x := (x.value.map fun v => Binary64.round (Rat.sqrt v)).getD nan
  bits := word
  of_bits := mk
  of_bits_bits _ := rfl
  exp x := (x.value.map fun v => Binary64.round (series v)).getD nan
  nonnegative x := (x.value.map fun v => decide (0 ≤ v)).getD false

example : (1 : Binary64) + 1 / (1 + 1) = ⟨0x3ff8000000000000⟩ := by decide +kernel

end ptl.models

namespace ptl.models

variable {C D M : Type} [StoredDouble D]

/-! ### Reading back one model -/

theorem LinearModel.verify_nil (m : LinearModel C D) : m.verify [] = (.failed (bad "truncated model hash"), m) := by
  simp [verify, overlay]

theorem RuleBaseline.verify_nil (b : RuleBaseline D) :
    b.verify [] = (.failed (bad "truncated baseline hash"), b) := by
  simp [RuleBaseline.verify, overlay]

theorem overlay_word (x : UInt64) : overlay (sizeof64 0) (sizeof64 x) = (sizeof64 x, [], true) := by
  have hread : overlay (sizeof64 0) (sizeof64 x ++ []) = (sizeof64 x, [], true) := overlay_append (by simp) []
  rwa [List.append_nil] at hread

/-- A hash that is right is accepted, and what predicts stays. -/
theorem LinearModel.verify_hash {m : LinearModel C D} {stored : UInt64} (hstored : stored = m.parameter_hash) :
    ∃ m', m.verify (sizeof64 stored) = (.done (), m') ∧ m.fitted = m'.fitted ∧ m.intercept = m'.intercept ∧
      m.coef = m'.coef := by
  rw [verify, overlay_word]
  simp only
  rw [if_neg (not_not.mpr (congrArg sizeof64 hstored))]
  exact ⟨_, rfl, rfl, rfl, rfl⟩

theorem RuleBaseline.verify_hash {b : RuleBaseline D} {stored : UInt64} (hstored : stored = b.parameter_hash) :
    b.verify (sizeof64 stored) = (.done (), b) := by
  rw [RuleBaseline.verify, overlay_word]
  simp only
  rw [if_neg (not_not.mpr (congrArg sizeof64 hstored))]

theorem RuleBaseline.fields_sized : ∀ f ∈ (RuleBaseline.fields : List (Field (RuleBaseline D) UInt8)), f.Sized := by
  simp only [fields, List.forall_mem_cons, List.not_mem_nil, false_imp_iff, implies_true, and_true]
  exact ⟨word_field_sized _ _, double_field_sized _ _, word_field_sized _ _, double_field_sized _ _,
    double_field_sized _ _⟩

/-- One baseline over another. -/
theorem RuleBaseline.copied_fields (source b : RuleBaseline D) :
    copied RuleBaseline.fields source b =
      { b with
        cfg := {
          signal_column := (UInt64.ofNat source.cfg.signal_column).toNat
          direction := source.cfg.direction
          volatility_column := column_of (column_bits source.cfg.volatility_column)
          target_volatility := source.cfg.target_volatility }
        scale := source.scale } := by
  simp only [copied, fields, List.foldl_cons, List.foldl_nil, word_field, double_field, double_of_bytes,
    UInt64_of_sizeof64]

theorem RuleBaseline.load_written (source b : RuleBaseline D) (rest : List UInt8) :
    b.load (source.written ++ rest) =
      RuleBaseline.verify { copied RuleBaseline.fields source b with fitted := true } rest := by
  unfold RuleBaseline.load RuleBaseline.written
  simp only [List.append_assoc]
  rw [read_magic_append (by decide) (by decide)]
  simp only
  rw [read_fields_append RuleBaseline.fields_sized]

/-- Columns that a machine word holds. -/
structure RuleBaselineConfig.Sized (c : RuleBaselineConfig D) : Prop where
  signal : c.signal_column < 2 ^ 64
  volatility : ∀ v ∈ c.volatility_column, v < 2 ^ 64 - 1

omit [StoredDouble D] in
theorem RuleBaselineConfig.Sized.column (c : RuleBaselineConfig D) (h : c.Sized) :
    column_of (column_bits c.volatility_column) = c.volatility_column := by
  cases hcolumn : c.volatility_column with
  | none => rfl
  | some v =>
    have hv := h.volatility v hcolumn
    have hword : (UInt64.ofNat v).toNat = v := UInt64.toNat_ofNat_of_lt' (hv.trans (by decide))
    have hne : UInt64.ofNat v ≠ npos := fun heq => by
      have hmax := congrArg UInt64.toNat heq
      rw [hword] at hmax
      exact absurd hmax (by rw [show npos.toNat = 2 ^ 64 - 1 by decide]; omega)
    rw [column_bits, column_of, if_neg hne, hword]

/-! ### Reading back any model -/

namespace AnyModel

/-- What memory can hold. -/
def Sized : AnyModel D → Prop
  | .linear m => m.coef.length ≤ kMaxSize
  | .logistic m => m.coef.length ≤ kMaxSize
  | .baseline b => b.cfg.Sized

/-- Two models that predict alike, on rows and on batches. -/
def Alike (m m' : AnyModel D) : Prop :=
  (∀ row, m.predict row = m'.predict row) ∧ ∀ X, m.predict_batch X = m'.predict_batch X

end AnyModel

/-- Only three fields of a linear model are read to predict. -/
theorem LinearModel.score_congr {m m' : LinearModel C D} (hfitted : m.fitted = m'.fitted)
    (hintercept : m.intercept = m'.intercept) (hcoef : m.coef = m'.coef) :
    m.score = m'.score ∧ m.score_batch = m'.score_batch := by
  have heta : m.eta = m'.eta := by
    funext features
    rw [eta, eta, hintercept, hcoef]
  constructor
  · funext link not_finite features
    rw [score, score, hfitted, hcoef, heta]
  · funext link X
    rw [score_batch, score_batch, hfitted, hcoef, heta]

theorem AnyModel.alike_linear {m m' : LinearRegression D} (hfitted : m.fitted = m'.fitted)
    (hintercept : m.intercept = m'.intercept) (hcoef : m.coef = m'.coef) : (linear m).Alike (.linear m') := by
  obtain ⟨hscore, hbatch⟩ := LinearModel.score_congr hfitted hintercept hcoef
  refine ⟨fun row => ?_, fun X => ?_⟩
  · simp only [AnyModel.predict, LinearRegression.predict, hscore]
  · simp only [AnyModel.predict_batch, LinearRegression.predict_batch, hbatch]

theorem AnyModel.alike_logistic {m m' : LogisticRegression D} (hfitted : m.fitted = m'.fitted)
    (hintercept : m.intercept = m'.intercept) (hcoef : m.coef = m'.coef) : (logistic m).Alike (.logistic m') := by
  obtain ⟨hscore, hbatch⟩ := LinearModel.score_congr hfitted hintercept hcoef
  refine ⟨fun row => ?_, fun X => ?_⟩
  · simp only [AnyModel.predict, LogisticRegression.predict, hscore]
  · simp only [AnyModel.predict_batch, LogisticRegression.predict_batch, hbatch]

theorem LinearModel.load_save {l : Layout C} (h : l.Valid) {source : LinearModel C D} (m : LinearModel C D)
    (hsize : source.coef.length ≤ kMaxSize) {file : List UInt8} (hsave : source.save l = .ok file) :
    ∃ m', m.load l file = (.done (), m') ∧ source.fitted = m'.fitted ∧ source.intercept = m'.intercept ∧
      source.coef = m'.coef := by
  unfold save at hsave
  split at hsave
  · cases hsave
  · rename_i hfitted
    cases hsave
    rw [load_written h source m hsize]
    obtain ⟨m', hverify, hfitted', hintercept, hcoef⟩ := verify_hash (show source.parameter_hash =
      parameter_hash { m with
        cfg := copied l.fields source.cfg m.cfg
        intercept := source.intercept
        coef := source.coef
        fitted := true } from rfl)
    exact ⟨m', hverify, (not_not.mp hfitted).trans hfitted', hintercept, hcoef⟩

theorem RuleBaseline.load_save {source : RuleBaseline D} (b : RuleBaseline D) (hsized : source.cfg.Sized)
    {file : List UInt8} (hsave : source.save = .ok file) :
    ∃ b', b.load file = (.done (), b') ∧ source.fitted = b'.fitted ∧ source.cfg = b'.cfg ∧
      source.scale = b'.scale := by
  unfold RuleBaseline.save at hsave
  split at hsave
  · cases hsave
  · rename_i hfitted
    cases hsave
    have hsignal : (UInt64.ofNat source.cfg.signal_column).toNat = source.cfg.signal_column :=
      UInt64.toNat_ofNat_of_lt' hsized.signal
    have hcolumn := RuleBaselineConfig.Sized.column source.cfg hsized
    rw [RuleBaseline.load_written, RuleBaseline.copied_fields, hsignal, hcolumn]
    exact ⟨_, RuleBaseline.verify_hash rfl, not_not.mp hfitted, rfl, rfl⟩

theorem RuleBaseline.predict_congr {b b' : RuleBaseline D} (hfitted : b.fitted = b'.fitted) (hcfg : b.cfg = b'.cfg)
    (hscale : b.scale = b'.scale) : b.predict = b'.predict ∧ b.predict_batch = b'.predict_batch := by
  obtain ⟨cfg, fitted, scale, diag⟩ := b
  obtain ⟨cfg', fitted', scale', diag'⟩ := b'
  obtain rfl : fitted = fitted' := hfitted
  obtain rfl : cfg = cfg' := hcfg
  obtain rfl : scale = scale' := hscale
  have hrows : RuleBaseline.predict_rows ⟨cfg, fitted, scale, diag⟩ =
      RuleBaseline.predict_rows ⟨cfg, fitted, scale, diag'⟩ := by
    funext rows
    induction rows with
    | nil => rfl
    | cons row rows ih =>
      rw [RuleBaseline.predict_rows, RuleBaseline.predict_rows, ih]
      rfl
  refine ⟨rfl, ?_⟩
  funext X
  simp only [RuleBaseline.predict_batch, hrows]

/-- Whatever was saved is loaded by a model of its kind, and predicts alike. -/
theorem AnyModel.load_save {source m : AnyModel D} (hkind : m.kind = source.kind) (hsized : source.Sized)
    {file : List UInt8} (hsave : source.save = .ok file) :
    ∃ m', m.load file = (.done (), m') ∧ m'.kind = source.kind ∧ m'.hash_input = source.hash_input ∧
      source.Alike m' := by
  cases source with
  | linear source =>
    cases m with
    | linear m =>
      obtain ⟨m', hload, hfitted, hintercept, hcoef⟩ :=
        LinearModel.load_save LinearRegression.layout_valid m hsized hsave
      refine ⟨.linear m', ?_, rfl, ?_, AnyModel.alike_linear hfitted hintercept hcoef⟩
      · rw [AnyModel.load, LinearRegression.load, hload]
      · simp only [AnyModel.hash_input, LinearModel.hash_input, hintercept, hcoef]
    | logistic _ => cases hkind
    | baseline _ => cases hkind
  | logistic source =>
    cases m with
    | linear _ => cases hkind
    | logistic m =>
      obtain ⟨m', hload, hfitted, hintercept, hcoef⟩ :=
        LinearModel.load_save LogisticRegression.layout_valid m hsized hsave
      refine ⟨.logistic m', ?_, rfl, ?_, AnyModel.alike_logistic hfitted hintercept hcoef⟩
      · rw [AnyModel.load, LogisticRegression.load, hload]
      · simp only [AnyModel.hash_input, LinearModel.hash_input, hintercept, hcoef]
    | baseline _ => cases hkind
  | baseline source =>
    cases m with
    | linear _ => cases hkind
    | logistic _ => cases hkind
    | baseline b =>
      obtain ⟨b', hload, hfitted, hcfg, hscale⟩ := RuleBaseline.load_save b hsized hsave
      obtain ⟨hpredict, hbatch⟩ := RuleBaseline.predict_congr hfitted hcfg hscale
      refine ⟨.baseline b', ?_, rfl, ?_, fun row => ?_, fun X => ?_⟩
      · rw [AnyModel.load, hload]
      · simp only [AnyModel.hash_input, RuleBaseline.hash_input, hcfg, hscale]
      · simp only [AnyModel.predict, hpredict]
      · simp only [AnyModel.predict_batch, hbatch]

/-! ### Loads that are cut short -/

theorem bad_inj {message message' : String} (heq : bad message = bad message') : message = message' :=
  congrArg Error.message heq

/-- Texts that begin differently. -/
theorem append_ne_of_head {a b tail : String} (hhead : a.toList.head? ≠ b.toList.head?) (hsome : a.toList ≠ []) :
    a ++ tail ≠ b := by
  rintro rfl
  rw [String.toList_append, List.head?_append_of_ne_nil _ hsome] at hhead
  exact hhead rfl

/-- A linear model that read the coefficients of another, but no hash. -/
theorem LinearModel.load_cut {l : Layout C} (h : l.Valid) (m : LinearModel C D) (count : Nat)
    (hsize : count ≤ kMaxSize) (link : D → D) (not_finite : String) (hcount : 0 < count) :
    ∃ input err m', m.load l input = (.failed err, m') ∧
      m'.score link not_finite [] =
        .error (bad ("expected " ++ toString count ++ " features, got " ++ toString 0)) := by
  have hlength : (List.replicate count (0 : D)).length = count := List.length_replicate
  have hload := load_written h { m with coef := List.replicate count 0 } m
    (by rw [hlength]; exact hsize) []
  rw [verify_nil] at hload
  refine ⟨_, _, _, hload, ?_⟩
  have hzero : ¬ (0 : Nat) = count := hcount.ne
  simp [score, hzero]

theorem RuleBaseline.load_cut (b : RuleBaseline D) (column : Nat) (hcolumn : column < 2 ^ 64) :
    ∃ input err b', b.load input = (.failed err, b') ∧ b'.fitted = true ∧ b'.cfg.signal_column = column := by
  have hload := RuleBaseline.load_written { b with cfg := { b.cfg with signal_column := column } } b []
  rw [RuleBaseline.verify_nil, RuleBaseline.copied_fields] at hload
  exact ⟨_, _, _, hload, rfl, UInt64.toNat_ofNat_of_lt' hcolumn⟩

/-- Of any model two failed loads make two that differ on some row. -/
theorem AnyModel.load_cut (m : AnyModel D) :
    ∃ row input₁ err₁ m₁ input₂ err₂ m₂, m.load input₁ = (.failed err₁, m₁) ∧
      m.load input₂ = (.failed err₂, m₂) ∧ m₁.predict row ≠ m₂.predict row := by
  have htwo : bad ("expected " ++ toString 1 ++ " features, got " ++ toString 0) ≠
      bad ("expected " ++ toString 2 ++ " features, got " ++ toString 0) := by decide
  cases m with
  | linear m =>
    obtain ⟨input₁, err₁, m₁, hload₁, hpredict₁⟩ := LinearModel.load_cut LinearRegression.layout_valid m 1
      (by decide) id "prediction is not finite" (by decide)
    obtain ⟨input₂, err₂, m₂, hload₂, hpredict₂⟩ := LinearModel.load_cut LinearRegression.layout_valid m 2
      (by decide) id "prediction is not finite" (by decide)
    refine ⟨[], input₁, err₁, .linear m₁, input₂, err₂, .linear m₂, ?_, ?_, fun heq => htwo ?_⟩
    · rw [AnyModel.load, LinearRegression.load, hload₁]
    · rw [AnyModel.load, LinearRegression.load, hload₂]
    · exact Except.error.inj (hpredict₁.symm.trans (heq.trans hpredict₂))
  | logistic m =>
    obtain ⟨input₁, err₁, m₁, hload₁, hpredict₁⟩ := LinearModel.load_cut LogisticRegression.layout_valid m 1
      (by decide) sigmoid "probability is not finite" (by decide)
    obtain ⟨input₂, err₂, m₂, hload₂, hpredict₂⟩ := LinearModel.load_cut LogisticRegression.layout_valid m 2
      (by decide) sigmoid "probability is not finite" (by decide)
    refine ⟨[], input₁, err₁, .logistic m₁, input₂, err₂, .logistic m₂, ?_, ?_, fun heq => htwo ?_⟩
    · rw [AnyModel.load, LogisticRegression.load, hload₁]
    · rw [AnyModel.load, LogisticRegression.load, hload₂]
    · exact Except.error.inj (hpredict₁.symm.trans (heq.trans hpredict₂))
  | baseline b =>
    obtain ⟨input₁, err₁, b₁, hload₁, hfitted₁, hcolumn₁⟩ := RuleBaseline.load_cut b 0 (by decide)
    obtain ⟨input₂, err₂, b₂, hload₂, hfitted₂, hcolumn₂⟩ := RuleBaseline.load_cut b 1 (by decide)
    refine ⟨[0], input₁, err₁, .baseline b₁, input₂, err₂, .baseline b₂, ?_, ?_, fun heq => ?_⟩
    · rw [AnyModel.load, hload₁]
    · rw [AnyModel.load, hload₂]
    · -- One column is there and the other is not.
      have hout : b₂.predict [0] = .error (bad "signal column is out of range") := by
        simp [RuleBaseline.predict, hfitted₂, hcolumn₂]
      have hin : b₁.predict [0] ≠ .error (bad "signal column is out of range") := by
        simp only [RuleBaseline.predict, hfitted₁, hcolumn₁, not_true_eq_false, if_false]
        simp only [List.getElem?_cons_zero]
        split
        · exact nofun
        · exact fun hsame => absurd (bad_inj (Except.error.inj hsame)) (by decide)
      exact hin (heq.trans hout)

/-! ### The pipeline -/

/-- Two pipelines that predict alike. -/
def Pipeline.Alike (I : StoredModel D M) (p q : Pipeline D M) : Prop :=
  (∀ features rows, p.predict I.toIModel features rows = q.predict I.toIModel features rows) ∧
    ∀ row, p.predict_one I row = q.predict_one I row

/-- A load that fails leaves the predictions alone. -/
def Pipeline.LoadsSafely (I : StoredModel D M) (p : Pipeline D M) : Prop :=
  ∀ input err p', p.load I input = (.failed err, p') → p.Alike I p'

section Unfitted

variable {I : StoredModel D M} {p p' : Pipeline D M}

theorem Pipeline.alike_of_unfitted (hp : p.fitted = false) (hp' : p'.fitted = false) : p.Alike I p' := by
  have hpredict : ∀ q : Pipeline D M, q.fitted = false → ∀ features rows,
      q.predict I.toIModel features rows = .error (bad "pipeline has not been fitted") := by
    intro q hq features rows
    unfold Pipeline.predict
    cases q.model <;> simp [hq]
  have hone : ∀ q : Pipeline D M, q.fitted = false → ∀ row,
      q.predict_one I row = .error (bad "pipeline has not been fitted") := by
    intro q hq row
    unfold Pipeline.predict_one
    cases q.model <;> simp [hq]
  constructor
  · intro features rows
    rw [hpredict p hp, hpredict p' hp']
  · intro row
    rw [hone p hp, hone p' hp']

omit [StoredDouble D] in
theorem Pipeline.load_model_failed {model : M} {input : List UInt8} {err : Error}
    (hload : p.load_model I model input = (.failed err, p')) : p'.fitted = p.fitted := by
  unfold Pipeline.load_model at hload
  split at hload
  · cases hload
  · obtain ⟨-, rfl⟩ := Prod.mk.inj hload
    rfl

theorem Pipeline.load_failed {input : List UInt8} {err : Error} (hload : p.load I input = (.failed err, p')) :
    p'.fitted = p.fitted := by
  unfold Pipeline.load at hload
  split at hload
  · obtain ⟨-, rfl⟩ := Prod.mk.inj hload
    rfl
  · split at hload
    · obtain ⟨-, rfl⟩ := Prod.mk.inj hload
      rfl
    · dsimp only at hload
      split at hload
      · split at hload
        · obtain ⟨-, rfl⟩ := Prod.mk.inj hload
          rfl
        · cases hload
        · have hkept := Pipeline.load_model_failed hload
          exact hkept
      · have hkept := Pipeline.load_model_failed hload
        exact hkept

end Unfitted

variable {solvers : Solvers D} {p q : Pipeline D (AnyModel D)}

/-- A stream that is not standardised goes to the model at once. -/
theorem Pipeline.load_plain {m m' : AnyModel D} {input : List UInt8} {err : Error} (hmodel : p.model = some m)
    (hload : m.load input = (.failed err, m')) :
    p.load (AnyModel.stored solvers) (0 :: input) =
      (.failed err, { p with cfg := { p.cfg with standardize := false }, model := some m' }) := by
  unfold Pipeline.load
  simp only [hmodel, ne_eq, not_true_eq_false, if_false, Pipeline.load_model, AnyModel.stored, hload]
  rfl

/-- Loads are only safe where there is nothing to lose. -/
theorem Pipeline.loadsSafely_iff {m : AnyModel D} (hmodel : p.model = some m) :
    p.LoadsSafely (AnyModel.stored solvers) ↔ p.fitted = false := by
  constructor
  · intro hsafe
    by_contra hfitted
    rw [Bool.not_eq_false] at hfitted
    obtain ⟨row, input₁, err₁, m₁, input₂, err₂, m₂, hload₁, hload₂, hne⟩ := m.load_cut
    have hseen : ∀ {input err m'}, m.load input = (.failed err, m') →
        p.predict_one (AnyModel.stored solvers) row = m'.predict row := by
      intro input err m' hload
      rw [(hsafe _ _ _ (Pipeline.load_plain hmodel hload)).2 row]
      simp [Pipeline.predict_one, hfitted, AnyModel.stored]
    exact hne ((hseen hload₁).symm.trans (hseen hload₂))
  · intro hfitted input err p' hload
    exact Pipeline.alike_of_unfitted hfitted ((Pipeline.load_failed hload).trans hfitted)

/-! ### What was saved -/

/-- As many means as deviations, and no more than a vector holds. -/
structure StandardScaler.Sized (s : StandardScaler D) : Prop where
  length_le : s.means.length ≤ kMaxSize
  stdevs_length : s.stdevs.length = s.means.length

/-- A scaler that is read was fitted, whatever the one was that was written. -/
theorem StandardScaler.read_write {s : StandardScaler D} (hsized : s.Sized) (rest : List UInt8) :
    StandardScaler.read (s.write ++ rest) = .done ({ s with fitted := true }, rest) := by
  have hfits : s.means.length < 2 ^ 64 := hsized.length_le.trans_lt (by decide)
  have hcount : (UInt64.ofNat s.means.length).toNat = s.means.length := UInt64.toNat_ofNat_of_lt' hfits
  have hfields : ∀ f ∈ ([double_field Prod.fst fun x s => (x, s.2), word_field Prod.snd fun p s => (s.1, p)] :
      List (Field (D × UInt64) UInt8)), f.Sized := by
    simp only [List.forall_mem_cons, List.not_mem_nil, false_imp_iff, implies_true, and_true]
    exact ⟨double_field_sized _ _, word_field_sized _ _⟩
  have hheader := read_fields_append hfields (s.clip_sigma, UInt64.ofNat s.means.length) ((0 : D), (0 : UInt64))
    (doubles_bytes s.means ++ (doubles_bytes s.stdevs ++ rest))
  simp only [write_fields, copied, double_field, word_field, List.flatMap_cons, List.flatMap_nil, List.foldl_cons,
    List.foldl_nil, List.append_nil, List.append_assoc, double_of_bytes, UInt64_of_sizeof64] at hheader
  unfold StandardScaler.read StandardScaler.write
  simp only [List.append_assoc]
  rw [read_magic_append (by decide) (by decide)]
  simp only [double_field, word_field]
  rw [hheader]
  simp only [hcount]
  rw [if_neg (Nat.not_lt.mpr hsized.length_le), read_doubles_append (by simp)]
  simp only
  rw [read_doubles_append (by simp [hsized.stdevs_length])]

/-- The errors of models, but for those that name a width. -/
def model_errors : List String :=
  ["model has not been fitted", "prediction is not finite", "probability is not finite",
    "baseline has not been fitted", "signal column is out of range", "baseline prediction is not finite"]

theorem LinearModel.score_ne_bad (m : LinearModel C D) (link : D → D) {not_finite message : String}
    (hnot_finite : not_finite ∈ model_errors) (hother : message ∉ model_errors)
    (hhead : message.toList.head? ≠ some 'e') (row : List D) :
    m.score link not_finite row ≠ .error (bad message) := by
  unfold score
  split
  · intro heq
    exact hother (bad_inj (Except.error.inj heq) ▸ List.mem_cons_self)
  · split
    · intro heq
      have htext := bad_inj (Except.error.inj heq)
      rw [String.append_assoc, String.append_assoc] at htext
      exact append_ne_of_head (fun hsame => hhead (hsame.symm.trans (by decide))) (by decide) htext
    · dsimp only
      split
      · exact fun heq => hother (bad_inj (Except.error.inj heq) ▸ hnot_finite)
      · exact nofun

/-- No model complains as a scaler does. -/
theorem AnyModel.predict_ne_bad (m : AnyModel D) {message : String} (hother : message ∉ model_errors)
    (hhead : message.toList.head? ≠ some 'e') (row : List D) : m.predict row ≠ .error (bad message) := by
  cases m with
  | linear m => exact m.score_ne_bad _ (by decide) hother hhead row
  | logistic m => exact m.score_ne_bad _ (by decide) hother hhead row
  | baseline b =>
    have hnot : ∀ own ∈ model_errors, (.error (bad own) : Result D) ≠ .error (bad message) := fun own hown heq =>
      hother (bad_inj (Except.error.inj heq) ▸ hown)
    simp only [AnyModel.predict, RuleBaseline.predict]
    split
    · exact hnot _ (by decide)
    · split
      · exact hnot _ (by decide)
      · split
        · exact nofun
        · exact hnot _ (by decide)

/-- Pipelines that agree on their parts predict alike. -/
theorem Pipeline.alike_of_parts {m m' : AnyModel D} (hp : p.model = some m) (hq : q.model = some m')
    (halike : m.Alike m') (hfitted : p.fitted = q.fitted) (hstandardize : p.cfg.standardize = q.cfg.standardize)
    (hscaler : p.cfg.standardize = true → p.scaler = q.scaler) : p.Alike (AnyModel.stored solvers) q := by
  obtain ⟨hrow, hbatch⟩ := halike
  by_cases hscaled : p.cfg.standardize = true
  · have hparts := hscaler hscaled
    constructor
    · intro features rows
      simp only [Pipeline.predict, Pipeline.rescale, hp, hq, hfitted, ← hstandardize, hscaled, hparts,
        AnyModel.stored, hbatch]
    · intro row
      simp only [Pipeline.predict_one, hp, hq, hfitted, ← hstandardize, hscaled, hparts, AnyModel.stored, hrow]
  · rw [Bool.not_eq_true] at hscaled
    constructor
    · intro features rows
      simp only [Pipeline.predict, Pipeline.rescale, hp, hq, hfitted, ← hstandardize, hscaled, AnyModel.stored,
        hbatch, Bool.false_eq_true, if_false]
    · intro row
      simp only [Pipeline.predict_one, hp, hq, hfitted, ← hstandardize, hscaled, AnyModel.stored, hrow,
        Bool.false_eq_true, if_false]

/-- What a pipeline holds after it read what another saved. -/
theorem Pipeline.load_saved {m₀ m : AnyModel D} (hmodel : p.model = some m₀) (hsource : q.model = some m)
    (hkind : m₀.kind = m.kind) (hmodel_sized : m.Sized) (hscaler_sized : q.scaler.Sized) {file : List UInt8}
    (hsave : q.save (AnyModel.stored solvers) = .ok file) :
    q.fitted = true ∧ ∃ m', m'.kind = m.kind ∧ m'.hash_input = m.hash_input ∧ m.Alike m' ∧
      p.load (AnyModel.stored solvers) file = (.done (), {
        model := some m'
        scaler := if q.cfg.standardize then { q.scaler with fitted := true } else p.scaler
        cfg := { p.cfg with standardize := q.cfg.standardize }
        fitted := true }) := by
  unfold Pipeline.save at hsave
  rw [hsource] at hsave
  dsimp only at hsave
  split at hsave
  · cases hsave
  · rename_i hfitted
    split at hsave
    · cases hsave
    · rename_i body hbody
      obtain ⟨m', hload, hkind', hhash, halike⟩ := AnyModel.load_save hkind hmodel_sized hbody
      refine ⟨not_not.mp hfitted, m', hkind', hhash, halike, ?_⟩
      split at hsave
      · rename_i hstandardize
        cases hsave
        unfold Pipeline.load
        simp only [hmodel, Pipeline.load_model, AnyModel.stored, StandardScaler.read_write hscaler_sized, hload,
          hstandardize, if_true]
        rfl
      · rename_i hplain
        cases hsave
        rw [Bool.not_eq_true] at hplain
        unfold Pipeline.load
        simp only [hmodel, Pipeline.load_model, AnyModel.stored, hload, hplain]
        rfl

/-- A pipeline that was saved is read back, and predicts alike exactly if its scaler was
fitted where it has a use for one. -/
theorem Pipeline.load_save {m₀ m : AnyModel D} (hmodel : p.model = some m₀) (hsource : q.model = some m)
    (hkind : m₀.kind = m.kind) (hmodel_sized : m.Sized) (hscaler_sized : q.scaler.Sized) {file : List UInt8}
    (hsave : q.save (AnyModel.stored solvers) = .ok file) :
    ∃ p', p.load (AnyModel.stored solvers) file = (.done (), p') ∧
      (q.Alike (AnyModel.stored solvers) p' ↔ (q.cfg.standardize = true → q.scaler.fitted = true)) := by
  obtain ⟨hfitted, m', -, -, halike, hload⟩ :=
    Pipeline.load_saved hmodel hsource hkind hmodel_sized hscaler_sized hsave
  refine ⟨_, hload, fun hsame hstandardize => ?_, fun hscaled => ?_⟩
  · by_contra hunfitted
    -- A row that the scaler read back takes, and the one that was saved does not.
    have hrefused : q.predict_one (AnyModel.stored solvers) (List.replicate q.scaler.means.length 0) =
        .error (bad "scaler has not been fitted") := by
      simp [Pipeline.predict_one, StandardScaler.transform_row, hsource, hfitted, hstandardize, hunfitted]
    have hrow := hsame.2 (List.replicate q.scaler.means.length 0)
    rw [hrefused] at hrow
    simp only [Pipeline.predict_one, StandardScaler.transform_row, AnyModel.stored, List.length_replicate,
      not_true_eq_false, if_false, ne_eq, if_true, hstandardize] at hrow
    exact m'.predict_ne_bad (by decide) (by decide) _ hrow.symm
  · refine Pipeline.alike_of_parts hsource rfl halike hfitted rfl fun hstandardize => ?_
    rw [if_pos hstandardize, ← hscaled hstandardize]

/-- Where a failed load leaves the predictions alone, and where what was saved is read
back as it was. -/
theorem Pipeline.load_exact {m : AnyModel D} (hmodel : p.model = some m) :
    (p.LoadsSafely (AnyModel.stored solvers) ↔ p.fitted = false) ∧
      ∀ (q : Pipeline D (AnyModel D)) (source : AnyModel D) (file : List UInt8), q.model = some source →
        m.kind = source.kind → source.Sized → q.scaler.Sized → q.save (AnyModel.stored solvers) = .ok file →
        ∃ p', p.load (AnyModel.stored solvers) file = (.done (), p') ∧
          (q.Alike (AnyModel.stored solvers) p' ↔ (q.cfg.standardize = true → q.scaler.fitted = true)) :=
  ⟨Pipeline.loadsSafely_iff hmodel, fun _ _ _ hsource hkind hmodel_sized hscaler_sized hsave =>
    Pipeline.load_save hmodel hsource hkind hmodel_sized hscaler_sized hsave⟩

/-! ### A line through the mean -/

def noSolvers : Solvers Binary64 where
  linear _ _ := .error (bad "no solver")
  logistic _ _ := .error (bad "no solver")

def line : LinearRegression Binary64 where
  cfg := { l2_penalty := 0, conditioning_epsilon := 0 }
  fitted := true
  intercept := 0
  coef := [1]
  diag := .new

def centred : Pipeline Binary64 (AnyModel Binary64) where
  model := some (.linear line)
  scaler := { fitted := true, clip_sigma := 0, means := [1], stdevs := [1] }
  cfg := { clip_sigma := 0 }
  fitted := true

def blank : Pipeline Binary64 (AnyModel Binary64) :=
  Pipeline.new (some (.linear line.reset)) { standardize := false, clip_sigma := 0 }

/-- A pipeline that was not fitted is safe to load into, and reads back what was saved. -/
theorem Pipeline.load_exact_blank :
    blank.LoadsSafely (AnyModel.stored noSolvers) ∧
      ∃ file p', centred.save (AnyModel.stored noSolvers) = .ok file ∧
        blank.load (AnyModel.stored noSolvers) file = (.done (), p') ∧
        centred.Alike (AnyModel.stored noSolvers) p' := by
  have hexact := @Pipeline.load_exact Binary64 _ noSolvers blank _ rfl
  refine ⟨hexact.1.mpr rfl, ?_⟩
  have hsave : centred.save (AnyModel.stored noSolvers) =
      .ok (1 :: (centred.scaler.write ++ (line.written LinearRegression.layout ++ sizeof64 line.parameter_hash))) :=
    rfl
  obtain ⟨p', hload, halike⟩ := hexact.2 centred (.linear line) _ rfl rfl (by decide : line.coef.length ≤ kMaxSize)
    ⟨by decide, rfl⟩ hsave
  exact ⟨_, p', hsave, hload, halike.mpr fun _ => rfl⟩

/-- One byte turns the scaling off, although there is no model after it. -/
theorem Pipeline.load_unsafe :
    ∃ err p', centred.load (AnyModel.stored noSolvers) [0] = (.failed err, p') ∧
      centred.predict_one (AnyModel.stored noSolvers) [1] = .ok 0 ∧
      p'.predict_one (AnyModel.stored noSolvers) [1] = .ok 1 ∧
      ¬ centred.LoadsSafely (AnyModel.stored noSolvers) := by
  have hload : centred.load (AnyModel.stored noSolvers) [0] =
      (.failed (bad "not a serialised linear model"),
        { centred with cfg := { centred.cfg with standardize := false } }) := rfl
  have hbefore : centred.predict_one (AnyModel.stored noSolvers) [1] = .ok 0 :=
    Result.toOption_eq_some.mp (by decide +kernel)
  have hafter : Pipeline.predict_one (AnyModel.stored noSolvers)
      { centred with cfg := { centred.cfg with standardize := false } } [1] = .ok 1 :=
    Result.toOption_eq_some.mp (by decide +kernel)
  refine ⟨_, _, hload, hbefore, hafter, fun hsafe => ?_⟩
  have hsame := (hsafe _ _ _ hload).2 [1]
  rw [hbefore, hafter] at hsame
  exact absurd (Except.ok.inj hsame) (by decide +kernel)

end ptl.models
