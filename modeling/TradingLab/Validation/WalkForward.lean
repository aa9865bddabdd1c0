import Mathlib.Data.List.Pairwise
import TradingLab.Core.Types

namespace ptl

/-- The stamps of a training observation, for tests of interval overlap. -/
structure ObservationInterval where
  sample_start_time : Timestamp := kNoTimestamp
  feature_end_time : Timestamp := kNoTimestamp
  label_start_time : Timestamp := kNoTimestamp
  label_end_time : Timestamp := kNoTimestamp
  deriving DecidableEq, Repr

def ObservationInterval.ok (row : ObservationInterval) : Bool :=
  row.sample_start_time ≤ row.feature_end_time && row.feature_end_time ≤ row.label_start_time &&
    row.label_start_time < row.label_end_time

/-- Half-open overlap of the label. -/
def ObservationInterval.label_overlaps (row : ObservationInterval) (window_begin window_end : Timestamp) : Bool :=
  row.label_start_time < window_end && window_begin < row.label_end_time

end ptl

namespace ptl.validation

inductive WindowMode where
  | Rolling
  | Expanding
  deriving DecidableEq, Repr

/-- One walk-forward fold, in row indices. -/
structure Fold where
  fold_id : Nat := 0
  mode : WindowMode := .Expanding
  train_begin : Timestamp := kNoTimestamp
  train_end : Timestamp := kNoTimestamp
  validation_begin : Timestamp := kNoTimestamp
  validation_end : Timestamp := kNoTimestamp
  test_begin : Timestamp := kNoTimestamp
  test_end : Timestamp := kNoTimestamp
  train_rows : List Nat := []
  validation_rows : List Nat := []
  test_rows : List Nat := []
  purged_rows : List Nat := []
  embargoed_rows : List Nat := []
  deriving DecidableEq, Repr

/-- Window lengths in observations. No sum of them is taken to overflow. -/
structure WalkForwardConfig where
  mode : WindowMode := .Expanding
  train_size : Nat := 20000
  validation_size : Nat := 4000
  test_size : Nat := 4000
  step : Nat := 4000
  warmup : Nat := 0
  embargo : Nat := 0
  min_train_rows : Nat := 500
  purge : Bool := true
  deriving DecidableEq, Repr

/-- The row at an index. No index of a window is out of range. -/
def rowAt (intervals : List ObservationInterval) (i : Nat) : ObservationInterval := intervals.getD i {}

section Config

variable (cfg : WalkForwardConfig) (intervals : List ObservationInterval) (train_end_idx : Nat)

/-! ### The indices of one window, by where its training ends -/

def WalkForwardConfig.val_end : Nat := train_end_idx + cfg.validation_size

def WalkForwardConfig.test_end : Nat := cfg.val_end train_end_idx + cfg.test_size

/-- Rolling trains on a trailing window, expanding on everything since the
    warmup. -/
def WalkForwardConfig.train_begin_idx : Nat :=
  match cfg.mode with
  | .Rolling => if train_end_idx ≥ cfg.train_size then train_end_idx - cfg.train_size else 0
  | .Expanding => cfg.warmup

def WalkForwardConfig.training : List Nat :=
  List.range' (cfg.train_begin_idx train_end_idx) (train_end_idx - cfg.train_begin_idx train_end_idx)

/-- A label that reaches into the span from the first row's feature end to the
    last row's label end. -/
def leaksInto (first past i : Nat) : Bool :=
  (rowAt intervals i).label_overlaps (rowAt intervals first).feature_end_time
    (rowAt intervals (past - 1)).label_end_time

/-- The row is kept out of training. -/
def WalkForwardConfig.purges (i : Nat) : Bool :=
  cfg.purge && (leaksInto intervals train_end_idx (cfg.val_end train_end_idx) i ||
    leaksInto intervals (cfg.val_end train_end_idx) (cfg.test_end train_end_idx) i)

/-- One turn of the loop of `split`. -/
def WalkForwardConfig.fold (fold_id : Nat) : Fold where
  fold_id
  mode := cfg.mode
  train_begin := (rowAt intervals (cfg.train_begin_idx train_end_idx)).feature_end_time
  train_end := (rowAt intervals (train_end_idx - 1)).feature_end_time
  validation_begin := (rowAt intervals train_end_idx).feature_end_time
  validation_end := (rowAt intervals (cfg.val_end train_end_idx - 1)).feature_end_time
  test_begin := (rowAt intervals (cfg.val_end train_end_idx)).feature_end_time
  test_end := (rowAt intervals (cfg.test_end train_end_idx - 1)).feature_end_time
  train_rows := (cfg.training train_end_idx).filter fun i => ¬ cfg.purges intervals train_end_idx i
  validation_rows := List.range' train_end_idx cfg.validation_size
  test_rows := List.range' (cfg.val_end train_end_idx) cfg.test_size
  purged_rows := (cfg.training train_end_idx).filter fun i => cfg.purges intervals train_end_idx i
  embargoed_rows :=
    List.range' (cfg.test_end train_end_idx)
      (min intervals.length (cfg.test_end train_end_idx + cfg.embargo) - cfg.test_end train_end_idx)

end Config

structure WalkForwardValidator where
  cfg : WalkForwardConfig

/-- The loop of `split`. A fold with too little to train on takes its id and is
    left out. -/
def WalkForwardValidator.folds (v : WalkForwardValidator) (intervals : List ObservationInterval)
    (hstep : 0 < v.cfg.step) (train_end_idx fold_id : Nat) : List Fold :=
  if v.cfg.test_end train_end_idx > intervals.length then []
  else
    let f := v.cfg.fold intervals train_end_idx fold_id
    let later := v.folds intervals hstep (train_end_idx + v.cfg.step) (fold_id + 1)
    if f.train_rows.length < v.cfg.min_train_rows then later else f :: later
  termination_by intervals.length + 1 - train_end_idx
  decreasing_by
    unfold WalkForwardConfig.test_end WalkForwardConfig.val_end at *
    omega

/-- The first row that is earlier than the one before it. -/
def unordered (intervals : List ObservationInterval) : Option Nat :=
  (List.range' 1 (intervals.length - 1)).find? fun i =>
    (rowAt intervals i).feature_end_time < (rowAt intervals (i - 1)).feature_end_time

theorem WalkForwardConfig.step_pos {cfg : WalkForwardConfig}
    (hsizes : ¬ (cfg.train_size = 0 ∨ cfg.test_size = 0 ∨ cfg.step = 0)) : 0 < cfg.step := by
  omega

def WalkForwardValidator.split (v : WalkForwardValidator) (intervals : List ObservationInterval) :
    Result (List Fold) :=
  if intervals.isEmpty then .ok []
  else if h : v.cfg.train_size = 0 ∨ v.cfg.test_size = 0 ∨ v.cfg.step = 0 then
    .error (bad "walk-forward window sizes must be non-zero")
  else
    match unordered intervals with
    | some i => .error (bad ("observations are not in chronological order at index " ++ toString i))
    | none => .ok (v.folds intervals (WalkForwardConfig.step_pos h) (v.cfg.warmup + v.cfg.train_size) 0)

/-! ### Which folds there are -/

section Folds

variable {v : WalkForwardValidator} {intervals : List ObservationInterval} {folds : List Fold}

/-- Where the training of a window ends. -/
def WalkForwardConfig.train_end_idx (cfg : WalkForwardConfig) (m : Nat) : Nat :=
  cfg.warmup + cfg.train_size + m * cfg.step

/-- The window is within the rows, and enough of its training rows are kept. -/
def WalkForwardConfig.Emits (cfg : WalkForwardConfig) (intervals : List ObservationInterval) (m : Nat) : Prop :=
  cfg.test_end (cfg.train_end_idx m) ≤ intervals.length ∧
    cfg.min_train_rows ≤ ((cfg.training (cfg.train_end_idx m)).filter fun i =>
      ¬ cfg.purges intervals (cfg.train_end_idx m) i).length

theorem WalkForwardConfig.Emits.train_end_le {cfg : WalkForwardConfig} {m : Nat} (hemits : cfg.Emits intervals m) :
    cfg.train_end_idx m ≤ intervals.length := by
  have hwithin := hemits.1
  unfold WalkForwardConfig.test_end WalkForwardConfig.val_end at hwithin
  omega

theorem WalkForwardConfig.mem_training {cfg : WalkForwardConfig} {train_end_idx i : Nat} :
    i ∈ cfg.training train_end_idx ↔ cfg.train_begin_idx train_end_idx ≤ i ∧ i < train_end_idx := by
  rw [WalkForwardConfig.training, List.mem_range'_1]
  omega

theorem WalkForwardConfig.train_end_idx_succ (cfg : WalkForwardConfig) (m : Nat) :
    cfg.train_end_idx m + cfg.step = cfg.train_end_idx (m + 1) := by
  unfold WalkForwardConfig.train_end_idx
  rw [Nat.succ_mul]
  omega

theorem WalkForwardConfig.test_end_mono (cfg : WalkForwardConfig) {m k : Nat} (hle : m ≤ k) :
    cfg.test_end (cfg.train_end_idx m) ≤ cfg.test_end (cfg.train_end_idx k) := by
  have hsteps := Nat.mul_le_mul_right cfg.step hle
  unfold WalkForwardConfig.test_end WalkForwardConfig.val_end WalkForwardConfig.train_end_idx
  omega

/-- The loop's folds are those of the windows that emit one. -/
theorem WalkForwardValidator.mem_folds (hstep : 0 < v.cfg.step) {m start : Nat}
    (hstart : v.cfg.train_end_idx m = start) (f : Fold) :
    f ∈ v.folds intervals hstep start m ↔
      ∃ k ≥ m, v.cfg.Emits intervals k ∧ f = v.cfg.fold intervals (v.cfg.train_end_idx k) k := by
  -- The windows from `m` on are that of `m` and those from `m + 1` on.
  have hsplit : ∀ m : Nat, (∃ k ≥ m, v.cfg.Emits intervals k ∧ f = v.cfg.fold intervals (v.cfg.train_end_idx k) k) ↔
      (v.cfg.Emits intervals m ∧ f = v.cfg.fold intervals (v.cfg.train_end_idx m) m) ∨
        ∃ k ≥ m + 1, v.cfg.Emits intervals k ∧ f = v.cfg.fold intervals (v.cfg.train_end_idx k) k := by
    intro m
    constructor
    · rintro ⟨k, hk, hkept⟩
      obtain rfl | hlater := Nat.eq_or_lt_of_le hk
      · exact .inl hkept
      · exact .inr ⟨k, hlater, hkept⟩
    · rintro (hkept | ⟨k, hk, hkept⟩)
      · exact ⟨m, le_rfl, hkept⟩
      · exact ⟨k, Nat.le_of_succ_le hk, hkept⟩
  fun_induction WalkForwardValidator.folds v intervals hstep start m with
  | case1 start m hpast =>
    refine iff_of_false List.not_mem_nil ?_
    rintro ⟨k, hk, hemits, -⟩
    have hmono := v.cfg.test_end_mono hk
    have hwithin := hemits.1
    rw [hstart] at hmono
    omega
  | case2 start m hwithin f' later hfew ih =>
    refine (ih (by rw [← hstart, v.cfg.train_end_idx_succ])).trans ?_
    rw [hsplit m, or_iff_right]
    rintro ⟨hemits, -⟩
    have henough := hemits.2
    rw [hstart] at henough
    exact absurd henough (not_le.mpr hfew)
  | case3 start m hwithin f' later henough ih =>
    have hemits : v.cfg.Emits intervals m := by
      rw [WalkForwardConfig.Emits, hstart]
      exact ⟨not_lt.mp hwithin, not_lt.mp henough⟩
    rw [List.mem_cons, hsplit m, hstart, and_iff_right hemits]
    exact or_congr Iff.rfl (ih (by rw [← hstart, v.cfg.train_end_idx_succ]))

/-- Folds come in the order of their ids. -/
theorem WalkForwardValidator.folds_ordered (hstep : 0 < v.cfg.step) {m start : Nat}
    (hstart : v.cfg.train_end_idx m = start) :
    (v.folds intervals hstep start m).Pairwise fun f g => f.fold_id < g.fold_id := by
  fun_induction WalkForwardValidator.folds v intervals hstep start m with
  | case1 start m hpast => exact .nil
  | case2 start m hwithin f later hfew ih => exact ih (by rw [← hstart, v.cfg.train_end_idx_succ])
  | case3 start m hwithin f later henough ih =>
    have hnext : v.cfg.train_end_idx (m + 1) = start + v.cfg.step := by
      rw [← hstart, v.cfg.train_end_idx_succ]
    refine .cons (fun g hg => ?_) (ih hnext)
    obtain ⟨k, hk, -, rfl⟩ := (v.mem_folds hstep hnext g).mp hg
    exact hk

/-- What a split that is made says of the rows and of its folds. -/
structure WalkForwardValidator.Splits (v : WalkForwardValidator) (intervals : List ObservationInterval)
    (folds : List Fold) : Prop where
  ordered : ∀ i j, i ≤ j → j < intervals.length →
    (rowAt intervals i).feature_end_time ≤ (rowAt intervals j).feature_end_time
  trained : intervals ≠ [] → 0 < v.cfg.train_size
  mem_iff : intervals ≠ [] → ∀ f, f ∈ folds ↔
    ∃ m, v.cfg.Emits intervals m ∧ f = v.cfg.fold intervals (v.cfg.train_end_idx m) m
  empty : intervals = [] → folds = []
  ids : folds.Pairwise fun f g => f.fold_id < g.fold_id

theorem ordered_of_unordered (hordered : unordered intervals = none) {i j : Nat} (hle : i ≤ j)
    (hj : j < intervals.length) :
    (rowAt intervals i).feature_end_time ≤ (rowAt intervals j).feature_end_time := by
  induction j, hle using Nat.le_induction with
  | base => exact le_rfl
  | succ j hij ih =>
    have hnext := List.find?_eq_none.mp hordered (j + 1) (List.mem_range'_1.mpr (by omega))
    exact (ih (by omega)).trans (by simpa using hnext)

theorem WalkForwardValidator.split_ok (hsplit : v.split intervals = .ok folds) : v.Splits intervals folds := by
  unfold WalkForwardValidator.split at hsplit
  split at hsplit
  · rename_i hempty
    cases hsplit
    rw [List.isEmpty_iff] at hempty
    subst hempty
    exact ⟨fun _ _ _ hj => absurd hj (Nat.not_lt_zero _), fun h => absurd rfl h, fun h => absurd rfl h, fun _ => rfl,
      .nil⟩
  · rename_i hrows
    split at hsplit
    · cases hsplit
    · rename_i hsizes
      split at hsplit
      · cases hsplit
      · rename_i hordered
        cases hsplit
        have hstart : v.cfg.train_end_idx 0 = v.cfg.warmup + v.cfg.train_size := by
          rw [WalkForwardConfig.train_end_idx, Nat.zero_mul, Nat.add_zero]
        refine ⟨fun i j hle hj => ordered_of_unordered hordered hle hj, fun _ => by omega, fun _ f => ?_, fun hnone => ?_,
          v.folds_ordered _ hstart⟩
        · rw [v.mem_folds _ hstart]
          simp
        · exact absurd (List.isEmpty_iff.mpr hnone) hrows

end Folds

end ptl.validation
