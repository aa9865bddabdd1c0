import TradingLab.Models.Reload

open Fields ptl.features

namespace ptl.models

/-- Sums that any arithmetic of doubles gets right. -/
class ExactDouble (D : Type) extends StoredDouble D where
  one_mul_one : (1 : D) * 1 = 1
  one_mul_zero : (1 : D) * 0 = 0
  zero_div_one : (0 : D) / 1 = 0
  zero_ne_one : (0 : D) ≠ 1
  finite_zero : Double.is_finite (0 : D) = true
  finite_one : Double.is_finite (1 : D) = true
  tiny_lt_one : (1e-12 : D) < 1

variable {C D : Type}

section Covered

variable [StoredDouble D]

def AnyModel.fitted : AnyModel D → Bool
  | .linear m => m.fitted
  | .logistic m => m.fitted
  | .baseline b => b.fitted

open AnyModel

/-- What the hash of a scaler is taken of. -/
def StandardScaler.hash_input (s : StandardScaler D) : List UInt8 :=
  double_bytes s.clip_sigma ++ (doubles_bytes s.means ++ doubles_bytes s.stdevs)

theorem foldl_hash_double (h : UInt64) (xs : List D) : xs.foldl hash_double h = hash_bytes h (doubles_bytes xs) :=
  foldl_feed hash_bytes double_bytes hash_bytes_append (fun _ => rfl) h xs

theorem StandardScaler.content_hash_eq (s : StandardScaler D) :
    s.content_hash = hash_bytes kFnvOffset s.hash_input := by
  have hbytes : doubles_bytes (s.clip_sigma :: s.means ++ s.stdevs) = s.hash_input := by
    simp [doubles_bytes, StandardScaler.hash_input]
  rw [StandardScaler.content_hash, foldl_hash_double, hbytes]

/-- Models of a kind that are hashed alike predict alike. -/
def ModelsCovered (D : Type) [StoredDouble D] (kind : ModelKind) : Prop :=
  ∀ m m' : AnyModel D, m.kind = kind → m'.kind = kind → m.fitted = true → m'.fitted = true →
    m.hash_input = m'.hash_input → ∀ row, m.predict row = m'.predict row

/-- A pipeline as a fit or a load that succeeded leaves it. -/
structure Pipeline.Whole (p : Pipeline D (AnyModel D)) (m : AnyModel D) : Prop where
  model : p.model = some m
  fitted : p.fitted = true
  model_fitted : m.fitted = true
  scaler_fitted : p.cfg.standardize = true → p.scaler.fitted = true
  stdevs_length : p.cfg.standardize = true → p.scaler.stdevs.length = p.scaler.means.length

open Pipeline

def PipelinesCovered (solvers : Solvers D) (kind : ModelKind) : Prop :=
  ∀ (p p' : Pipeline D (AnyModel D)) (m m' : AnyModel D), p.Whole m → p'.Whole m' → m.kind = kind → m'.kind = kind →
    m.hash_input = m'.hash_input → p.scaler.hash_input = p'.scaler.hash_input →
    p.cfg.standardize = p'.cfg.standardize → p.Alike (stored solvers) p'

/-- Two files that are accepted, with their flags. Where their hashes are equal, and not by
a collision, the pipelines that read them predict alike. -/
def FilesCovered (solvers : Solvers D) (kind : ModelKind) (flag flag' : Bool) : Prop :=
  ∀ (r r' p p' : Pipeline D (AnyModel D)) (m m' : AnyModel D) (file file' : List UInt8),
    r.load (stored solvers) file = (.done (), p) →
    r'.load (stored solvers) file' = (.done (), p') →
    p.model = some m → p'.model = some m' → m.kind = kind → m'.kind = kind →
    p.cfg.standardize = flag → p'.cfg.standardize = flag' → m.parameter_hash = m'.parameter_hash →
    (m.parameter_hash = m'.parameter_hash → m.hash_input = m'.hash_input) →
    p.Alike (stored solvers) p'

/-! ### What a hash tells -/

theorem LinearModel.hash_input_inj {m m' : LinearModel C D} (heq : m.hash_input = m'.hash_input) :
    m.intercept = m'.intercept ∧ m.coef = m'.coef := by
  obtain ⟨hintercept, hcoef⟩ := List.append_inj heq (by simp)
  exact ⟨double_bytes_inj hintercept, doubles_bytes_inj hcoef⟩

/-- Scalers with as many means as deviations. -/
theorem StandardScaler.hash_input_inj {s s' : StandardScaler D} (hs : s.stdevs.length = s.means.length)
    (hs' : s'.stdevs.length = s'.means.length) (heq : s.hash_input = s'.hash_input) :
    s.clip_sigma = s'.clip_sigma ∧ s.means = s'.means ∧ s.stdevs = s'.stdevs := by
  obtain ⟨hclip, hrest⟩ := List.append_inj heq (by simp)
  have hboth : s.means ++ s.stdevs = s'.means ++ s'.stdevs := by
    apply doubles_bytes_inj
    simpa [doubles_bytes] using hrest
  have hlength := congrArg List.length hboth
  rw [List.length_append, List.length_append] at hlength
  obtain ⟨hmeans, hstdevs⟩ := List.append_inj hboth (by omega)
  exact ⟨double_bytes_inj hclip, hmeans, hstdevs⟩

omit [StoredDouble D] in
theorem StandardScaler.eq_of_parts {s s' : StandardScaler D} (hfitted : s.fitted = s'.fitted)
    (hclip : s.clip_sigma = s'.clip_sigma) (hmeans : s.means = s'.means) (hstdevs : s.stdevs = s'.stdevs) :
    s = s' := by
  obtain ⟨fitted, clip_sigma, means, stdevs⟩ := s
  obtain rfl : fitted = s'.fitted := hfitted
  obtain rfl : clip_sigma = s'.clip_sigma := hclip
  obtain rfl : means = s'.means := hmeans
  obtain rfl : stdevs = s'.stdevs := hstdevs
  rfl

/-- Every field that a linear or logistic model reads to predict is hashed. -/
theorem AnyModel.alike_of_hash_input {m m' : AnyModel D} (hkind : m.kind = m'.kind) (hkind' : m.kind ≠ .baseline)
    (hfitted : m.fitted = m'.fitted) (heq : m.hash_input = m'.hash_input) : m.Alike m' := by
  cases m with
  | linear m =>
    cases m' with
    | linear m' =>
      obtain ⟨hintercept, hcoef⟩ := LinearModel.hash_input_inj heq
      exact alike_linear hfitted hintercept hcoef
    | logistic _ => cases hkind
    | baseline _ => cases hkind
  | logistic m =>
    cases m' with
    | linear _ => cases hkind
    | logistic m' =>
      obtain ⟨hintercept, hcoef⟩ := LinearModel.hash_input_inj heq
      exact alike_logistic hfitted hintercept hcoef
    | baseline _ => cases hkind
  | baseline _ => exact absurd rfl hkind'

/-! ### What a load that succeeds leaves -/

theorem LinearModel.load_done {l : Layout C} {m m' : LinearModel C D} {input : List UInt8}
    (hload : m.load l input = (.done (), m')) : m'.fitted = true := by
  unfold LinearModel.load at hload
  split at hload
  · cases hload
  · split at hload
    · cases hload
    · split at hload
      · cases hload
      · split at hload
        · cases hload
        · unfold LinearModel.verify at hload
          split at hload
          · cases hload
          · split at hload
            · cases hload
            · cases hload
              rfl

theorem RuleBaseline.load_done {b b' : RuleBaseline D} {input : List UInt8}
    (hload : b.load input = (.done (), b')) : b'.fitted = true := by
  unfold RuleBaseline.load at hload
  split at hload
  · cases hload
  · split at hload
    · cases hload
    · unfold RuleBaseline.verify at hload
      split at hload
      · cases hload
      · split at hload
        · cases hload
        · cases hload
          rfl

theorem AnyModel.load_done {m m' : AnyModel D} {input : List UInt8} (hload : m.load input = (.done (), m')) :
    m'.fitted = true := by
  cases m with
  | linear m =>
    obtain ⟨hdone, rfl⟩ := Prod.mk.inj hload
    exact LinearModel.load_done (Prod.ext hdone rfl)
  | logistic m =>
    obtain ⟨hdone, rfl⟩ := Prod.mk.inj hload
    exact LinearModel.load_done (Prod.ext hdone rfl)
  | baseline b =>
    obtain ⟨hdone, rfl⟩ := Prod.mk.inj hload
    exact RuleBaseline.load_done (Prod.ext hdone rfl)

theorem length_doubles_of {n : Nat} {bytes : List UInt8} (hlength : bytes.length = 8 * n) :
    (doubles_of bytes : List D).length = n := by
  induction n generalizing bytes with
  | zero =>
    obtain rfl := List.length_eq_zero_iff.mp hlength
    rfl
  | succ n ih =>
    match bytes, hlength with
    | b₀ :: b₁ :: b₂ :: b₃ :: b₄ :: b₅ :: b₆ :: b₇ :: rest, hlength =>
      rw [doubles_of, List.length_cons, ih]
      simp only [List.length_cons] at hlength
      omega

theorem length_read_doubles {xs ys : List D} {input rest : List UInt8} {whole : Bool}
    (hread : read_doubles xs input = (ys, rest, whole)) : ys.length = xs.length := by
  rw [read_doubles, overlay] at hread
  obtain ⟨rfl, -⟩ := Prod.mk.inj hread
  refine length_doubles_of ?_
  simp only [List.length_append, List.length_take, List.length_drop, length_doubles_bytes]
  omega

theorem StandardScaler.read_done {s : StandardScaler D} {input rest : List UInt8}
    (hread : StandardScaler.read input = .done (s, rest)) :
    s.fitted = true ∧ s.stdevs.length = s.means.length := by
  unfold StandardScaler.read at hread
  split at hread
  · cases hread
  · split at hread
    · cases hread
    · split at hread
      · cases hread
      · split at hread
        · cases hread
        · rename_i hmeans
          split at hread
          · cases hread
          · rename_i hstdevs
            cases hread
            rw [length_read_doubles hmeans, length_read_doubles hstdevs]
            exact ⟨rfl, rfl⟩

variable {solvers : Solvers D} {p p' : Pipeline D (AnyModel D)}

theorem Pipeline.load_model_done {model : AnyModel D} {input : List UInt8}
    (hload : p.load_model (stored solvers) model input = (.done (), p')) :
    ∃ m, m.fitted = true ∧ p' = { p with model := some m, fitted := true } := by
  unfold load_model at hload
  split at hload
  · rename_i m hm
    obtain ⟨-, rfl⟩ := Prod.mk.inj hload
    exact ⟨m, load_done hm, rfl⟩
  · rename_i hnot _
    exact absurd (Prod.mk.inj hload).1 hnot

/-- A file that is accepted makes a whole pipeline, whatever there was before. -/
theorem Pipeline.load_whole {input : List UInt8}
    (hload : p.load (stored solvers) input = (.done (), p')) : ∃ m, p'.Whole m := by
  unfold load at hload
  split at hload
  · cases hload
  · split at hload
    · cases hload
    · rename_i flag rest
      dsimp only at hload
      split at hload
      · split at hload
        · cases hload
        · cases hload
        · rename_i scaler rest hread
          obtain ⟨m, hfitted, rfl⟩ := load_model_done hload
          obtain ⟨hscaler, hstdevs⟩ := StandardScaler.read_done hread
          exact ⟨m, rfl, rfl, hfitted, fun _ => hscaler, fun _ => hstdevs⟩
      · rename_i hplain
        obtain ⟨m, hfitted, rfl⟩ := load_model_done hload
        have hoff : ∀ {x : Prop}, decide (flag ≠ 0) = true → x := fun hflag =>
          absurd (of_decide_eq_true hflag) hplain
        exact ⟨m, rfl, rfl, hfitted, hoff, hoff⟩

/-! ### Files that are accepted -/

theorem AnyModel.save_of_fitted {m : AnyModel D} (hfitted : m.fitted = true) : ∃ file, m.save = .ok file := by
  cases m with
  | linear m =>
    have hm : m.fitted = true := hfitted
    simp [save, LinearRegression.save, LinearModel.save, hm]
  | logistic m =>
    have hm : m.fitted = true := hfitted
    simp [save, LogisticRegression.save, LinearModel.save, hm]
  | baseline b =>
    have hb : b.fitted = true := hfitted
    simp [save, RuleBaseline.save, hb]

/-- A pipeline of parts. -/
def Pipeline.made (m : AnyModel D) (scaler : StandardScaler D) (flag : Bool) : Pipeline D (AnyModel D) where
  model := some m
  scaler
  cfg := { standardize := flag, clip_sigma := 0 }
  fitted := true

variable (solvers) in
/-- There is a file of it. -/
theorem Pipeline.made_file {m : AnyModel D} {scaler : StandardScaler D} (flag : Bool) (hfitted : m.fitted = true)
    (hmodel : m.Sized) (hscaler : scaler.Sized) (hready : scaler.fitted = true) :
    ∃ file p m', (made m scaler flag).load (stored solvers) file = (.done (), p) ∧
      p.model = some m' ∧ m'.kind = m.kind ∧ m'.hash_input = m.hash_input ∧ p.cfg.standardize = flag ∧
      (made m scaler flag).Alike (stored solvers) p := by
  obtain ⟨body, hbody⟩ := save_of_fitted hfitted
  have hbody' : (stored solvers).save m = .ok body := hbody
  have hsave : ∃ file, (made m scaler flag).save (stored solvers) = .ok file := by
    unfold save made
    simp only [hbody', not_true_eq_false, if_false]
    cases flag <;> exact ⟨_, rfl⟩
  obtain ⟨file, hfile⟩ := hsave
  obtain ⟨-, m', hkind, hhash, halike, hload⟩ := load_saved (p := made m scaler flag)
    (q := made m scaler flag) rfl rfl rfl hmodel hscaler hfile
  refine ⟨file, _, m', hload, rfl, hkind, hhash, rfl, ?_⟩
  refine alike_of_parts rfl rfl halike rfl rfl fun hflag => ?_
  have hkeep : ({ scaler with fitted := true } : StandardScaler D) = scaler := by rw [← hready]
  rw [if_pos hflag]
  exact hkeep.symm

/-- Where files are covered, so are the pipelines they are files of. -/
theorem FilesCovered.alike {kind : ModelKind} {flag flag' : Bool} (hcovered : FilesCovered solvers kind flag flag')
    (m m' : AnyModel D) {scaler scaler' : StandardScaler D} (hkind : m.kind = kind) (hkind' : m'.kind = kind)
    (hfitted : m.fitted = true) (hfitted' : m'.fitted = true) (hmodel : m.Sized) (hmodel' : m'.Sized)
    (hscaler : scaler.Sized) (hscaler' : scaler'.Sized) (hready : scaler.fitted = true)
    (hready' : scaler'.fitted = true) (hhash : m.hash_input = m'.hash_input) :
    (made m scaler flag).Alike (stored solvers) (made m' scaler' flag') := by
  obtain ⟨file, p, n, hload, hn, hkindn, hhashn, hflag, halike⟩ :=
    made_file solvers flag hfitted hmodel hscaler hready
  obtain ⟨file', p', n', hload', hn', hkindn', hhashn', hflag', halike'⟩ :=
    made_file solvers flag' hfitted' hmodel' hscaler' hready'
  have hinput : n.hash_input = n'.hash_input := hhashn.trans (hhash.trans hhashn'.symm)
  have hhashes : n.parameter_hash = n'.parameter_hash := by
    rw [parameter_hash_eq, parameter_hash_eq, hinput]
  have hsame := hcovered _ _ p p' n n' file file' hload hload' hn hn' (hkindn.trans hkind) (hkindn'.trans hkind')
    hflag hflag' hhashes fun _ => hinput
  exact ⟨fun features rows => (halike.1 features rows).trans ((hsame.1 features rows).trans
      (halike'.1 features rows).symm),
    fun row => (halike.2 row).trans ((hsame.2 row).trans (halike'.2 row).symm)⟩

/-- A fitted model of each kind. -/
def AnyModel.sample : ModelKind → AnyModel D
  | .linear => .linear { cfg := { l2_penalty := 0, conditioning_epsilon := 0 }, fitted := true, intercept := 0,
                         diag := .new }
  | .logistic => .logistic { cfg := { l2_penalty := 0, tolerance := 0, conditioning_epsilon := 0 }, fitted := true,
                             intercept := 0, diag := .new }
  | .baseline => .baseline { cfg := { direction := 0, target_volatility := 0 }, fitted := true, scale := 0,
                             diag := .new }

theorem AnyModel.sample_spec (kind : ModelKind) :
    (sample kind : AnyModel D).kind = kind ∧ (sample kind : AnyModel D).fitted = true ∧
      (sample kind : AnyModel D).Sized := by
  cases kind with
  | linear => exact ⟨rfl, rfl, Nat.zero_le _⟩
  | logistic => exact ⟨rfl, rfl, Nat.zero_le _⟩
  | baseline => exact ⟨rfl, rfl, Nat.two_pow_pos 64, nofun⟩

/-- A fitted scaler of some width. -/
def StandardScaler.flat (width : Nat) : StandardScaler D where
  fitted := true
  clip_sigma := 0
  means := List.replicate width 0
  stdevs := List.replicate width 1

theorem StandardScaler.flat_sized (width : Nat) (hwidth : width ≤ kMaxSize) :
    (flat width : StandardScaler D).Sized where
  length_le := by simpa [flat] using hwidth
  stdevs_length := by simp [flat]

variable (solvers) in
/-- A scaler refuses the rows of another width, which no model does in its words. -/
theorem Pipeline.made_ne (m m' : AnyModel D) {width width' : Nat} (flag : Bool) (row : List D)
    (hnarrow : row.length ≠ width) (hwide : flag = true → row.length = width') :
    (made m (.flat width) true).predict_one (stored solvers) row ≠
      (made m' (.flat width') flag).predict_one (stored solvers) row := by
  have hrefused : (made m (.flat width) true).predict_one (stored solvers) row =
      .error (bad "scaler width does not match the observation width") := by
    simp [predict_one, made, StandardScaler.transform_row, StandardScaler.flat, hnarrow]
  rw [hrefused]
  cases flag with
  | true =>
    simp only [predict_one, made, StandardScaler.transform_row, StandardScaler.flat,
      List.length_replicate, hwide rfl, stored, not_true_eq_false, if_false, ne_eq, if_true]
    exact fun heq => m'.predict_ne_bad (by decide) (by decide) _ heq.symm
  | false =>
    simp only [predict_one, made, stored, not_true_eq_false, Bool.false_eq_true, if_false]
    exact fun heq => m'.predict_ne_bad (by decide) (by decide) _ heq.symm

/-- The scaler of a file is not checked. -/
theorem not_filesCovered_of_scaled (kind : ModelKind) {flag flag' : Bool} (hscaled : flag = true ∨ flag' = true) :
    ¬ FilesCovered solvers kind flag flag' := by
  intro hcovered
  obtain ⟨hkind, hfitted, hsized⟩ := sample_spec (D := D) kind
  have halike := hcovered.alike _ _ hkind hkind hfitted hfitted hsized hsized
    (StandardScaler.flat_sized 1 (by decide)) (StandardScaler.flat_sized 2 (by decide))
    rfl rfl rfl
  by_cases hflag : flag = true
  · subst hflag
    exact made_ne solvers (.sample kind) (.sample kind) flag' [0, 0] (show (2 : Nat) ≠ 1 by decide)
      (fun _ => rfl) (halike.2 _)
  · obtain rfl : flag' = true := hscaled.resolve_left hflag
    exact made_ne solvers (.sample kind) (.sample kind) flag [0] (show (1 : Nat) ≠ 2 by decide)
      (fun _ => rfl) (halike.2 _).symm

end Covered

/-! ### The baseline -/

section Baseline

variable [ExactDouble D]

/-- The value of the first column. -/
def unscaled : RuleBaseline D where
  cfg := { direction := 1, target_volatility := 0 }
  fitted := true
  scale := 1
  diag := .new

/-- The same, scaled to no volatility by the first column. -/
def silenced : RuleBaseline D where
  cfg := { direction := 1, volatility_column := some 0, target_volatility := 0 }
  fitted := true
  scale := 1
  diag := .new

theorem unscaled_predict : (unscaled : RuleBaseline D).predict [1] = .ok 1 := by
  simp [RuleBaseline.predict, RuleBaseline.targeted, unscaled, ExactDouble.one_mul_one, ExactDouble.finite_one]

theorem silenced_predict : (silenced : RuleBaseline D).predict [1] = .ok 0 := by
  simp [RuleBaseline.predict, RuleBaseline.targeted, silenced, ExactDouble.one_mul_one, ExactDouble.finite_one,
    ExactDouble.tiny_lt_one, ExactDouble.zero_div_one, ExactDouble.one_mul_zero, ExactDouble.finite_zero]

/-- The two are hashed alike, as the hash tells nothing of the scaling. -/
theorem baseline_ne : (AnyModel.baseline (unscaled : RuleBaseline D)).predict [1] ≠
    (AnyModel.baseline silenced).predict [1] := by
  simp only [AnyModel.predict, unscaled_predict, silenced_predict]
  exact fun heq => ExactDouble.zero_ne_one (Except.ok.inj heq).symm

variable {solvers : Solvers D}

theorem modelsCovered_iff (kind : ModelKind) : ModelsCovered D kind ↔ kind ≠ .baseline := by
  constructor
  · rintro hcovered rfl
    exact baseline_ne (hcovered (.baseline unscaled) (.baseline silenced) rfl rfl rfl rfl rfl [1])
  · intro hkind m m' hm hm' hfitted hfitted' heq row
    exact (AnyModel.alike_of_hash_input (hm.trans hm'.symm) (hm ▸ hkind) (hfitted.trans hfitted'.symm) heq).1 row

theorem made_whole {m : AnyModel D} (hfitted : m.fitted = true) (scaler : StandardScaler D) :
    (Pipeline.made m scaler false).Whole m :=
  ⟨rfl, rfl, hfitted, nofun, nofun⟩

theorem pipelinesCovered_iff (kind : ModelKind) : PipelinesCovered solvers kind ↔ kind ≠ .baseline := by
  constructor
  · rintro hcovered rfl
    have halike := hcovered _ _ _ _ (made_whole (m := .baseline unscaled) rfl (.flat 0))
      (made_whole (m := .baseline silenced) rfl (.flat 0)) rfl rfl rfl rfl rfl
    exact baseline_ne (halike.2 [1])
  · intro hkind p p' m m' hp hp' hm hm' heq hscaler hflag
    have hmodels := AnyModel.alike_of_hash_input (hm.trans hm'.symm) (hm ▸ hkind)
      (hp.model_fitted.trans hp'.model_fitted.symm) heq
    refine Pipeline.alike_of_parts hp.model hp'.model hmodels (hp.fitted.trans hp'.fitted.symm) hflag fun hscaled => ?_
    have hscaled' := hflag.symm.trans hscaled
    obtain ⟨hclip, hmeans, hstdevs⟩ := StandardScaler.hash_input_inj (hp.stdevs_length hscaled)
      (hp'.stdevs_length hscaled') hscaler
    have hready := (hp.scaler_fitted hscaled).trans (hp'.scaler_fitted hscaled').symm
    exact StandardScaler.eq_of_parts hready hclip hmeans hstdevs

theorem filesCovered_iff (kind : ModelKind) (flag flag' : Bool) :
    FilesCovered solvers kind flag flag' ↔ kind ≠ .baseline ∧ flag = false ∧ flag' = false := by
  constructor
  · intro hcovered
    have hplain : flag = false ∧ flag' = false := by
      by_contra hnot
      rw [not_and_or, Bool.not_eq_false, Bool.not_eq_false] at hnot
      exact not_filesCovered_of_scaled kind hnot hcovered
    obtain ⟨rfl, rfl⟩ := hplain
    refine ⟨?_, rfl, rfl⟩
    rintro rfl
    have hsized : (AnyModel.baseline unscaled : AnyModel D).Sized := ⟨Nat.two_pow_pos 64, nofun⟩
    have hsized' : (AnyModel.baseline silenced : AnyModel D).Sized := by
      refine ⟨Nat.two_pow_pos 64, fun v hv => ?_⟩
      obtain rfl : 0 = v := Option.some.inj hv
      decide
    have halike := hcovered.alike (.baseline unscaled) (.baseline silenced) rfl rfl rfl rfl hsized hsized'
      (StandardScaler.flat_sized 0 (by decide)) (StandardScaler.flat_sized 0 (by decide)) rfl rfl rfl
    exact baseline_ne (halike.2 [1])
  · rintro ⟨hkind, rfl, rfl⟩ r r' p p' m m' file file' hload hload' hp hp' hm hm' hflag hflag' hhashes hno
    obtain ⟨n, hwhole⟩ := Pipeline.load_whole hload
    obtain ⟨n', hwhole'⟩ := Pipeline.load_whole hload'
    obtain rfl : n = m := Option.some.inj (hwhole.model.symm.trans hp)
    obtain rfl : n' = m' := Option.some.inj (hwhole'.model.symm.trans hp')
    have hmodels := AnyModel.alike_of_hash_input (hm.trans hm'.symm) (hm ▸ hkind)
      (hwhole.model_fitted.trans hwhole'.model_fitted.symm) (hno hhashes)
    exact Pipeline.alike_of_parts hp hp' hmodels (hwhole.fitted.trans hwhole'.fitted.symm) (hflag.trans hflag'.symm)
      fun hscaled => absurd (hflag.symm.trans hscaled) Bool.false_ne_true

/-- What a hash covers: all that linear and logistic models predict with, in memory and in
files without a scaler. -/
theorem hash_covers_iff (solvers : Solvers D) (kind : ModelKind) :
    (ModelsCovered D kind ↔ kind ≠ .baseline) ∧ (PipelinesCovered solvers kind ↔ kind ≠ .baseline) ∧
      ∀ flag flag', FilesCovered solvers kind flag flag' ↔ kind ≠ .baseline ∧ flag = false ∧ flag' = false :=
  ⟨modelsCovered_iff kind, pipelinesCovered_iff kind, filesCovered_iff kind⟩

end Baseline

instance : ExactDouble Binary64 where
  one_mul_one := by decide +kernel
  one_mul_zero := by decide +kernel
  zero_div_one := by decide +kernel
  zero_ne_one := by decide +kernel
  finite_zero := by decide +kernel
  finite_one := by decide +kernel
  tiny_lt_one := by decide +kernel

/-- Two baselines with one hash predict one and zero, and so may two files with one hash. -/
theorem hash_misses :
    (unscaled : RuleBaseline Binary64).hash_input = (silenced : RuleBaseline Binary64).hash_input ∧
      (unscaled : RuleBaseline Binary64).predict [1] = .ok 1 ∧
      (silenced : RuleBaseline Binary64).predict [1] = .ok 0 ∧
      ¬ ModelsCovered Binary64 .baseline ∧ ∀ kind, ¬ FilesCovered noSolvers kind true true :=
  ⟨rfl, unscaled_predict, silenced_predict, fun hcovered => (modelsCovered_iff .baseline).mp hcovered rfl,
    fun kind => not_filesCovered_of_scaled kind (.inl rfl)⟩

end ptl.models
