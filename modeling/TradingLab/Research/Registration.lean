import Mathlib.Data.Finset.Card
import TradingLab.Machine
import TradingLab.Research.Trial
import TradingLab.TableSum

open Std (TreeMap)

namespace ptl.experiments

structure RunRecord where
  run_id : String
  created_utc : String := ""
  git_sha : String := ""
  git_dirty : String := ""
  config_hash : String := ""
  config_canonical : String := ""
  data_manifest_sha : String := ""
  seed : UInt64 := 0
  compiler : String := ""
  compiler_version : String := ""
  build_type : String := ""
  tag : String := ""
  status : String := "started"
  chain_violations : UInt64 := 0
  deriving DecidableEq, Repr

structure TrialRecord where
  trial_id : Int := 0
  run_id : String
  research_question : String
  hypothesis : String := ""
  params_json : String := ""
  status : String := "planned"
  deriving DecidableEq, Repr

/-- Declared before evaluation begins. -/
structure SearchBudget where
  research_question : String
  declared_utc : String := ""
  budget : Int := 0
  used : Int := 0
  rationale : String := ""
  deriving DecidableEq, Repr

/-- The tables that are read here, under their primary keys. Trials are numbered as
they are inserted. -/
structure Registry where
  runs : TreeMap String RunRecord := ∅
  trials : List TrialRecord := []
  search_budgets : TreeMap String SearchBudget := ∅

/-- A text column is read up to the first NUL. -/
def column_text (value : String) : String := String.ofList (value.toList.takeWhile (· ≠ '\x00'))

def RunRecord.columns (r : RunRecord) : RunRecord where
  run_id := column_text r.run_id
  created_utc := column_text r.created_utc
  git_sha := column_text r.git_sha
  git_dirty := column_text r.git_dirty
  config_hash := column_text r.config_hash
  config_canonical := column_text r.config_canonical
  data_manifest_sha := column_text r.data_manifest_sha
  seed := r.seed
  compiler := column_text r.compiler
  compiler_version := column_text r.compiler_version
  build_type := column_text r.build_type
  tag := column_text r.tag
  status := column_text r.status
  chain_violations := r.chain_violations

namespace Registry

variable (reg : Registry)

def insert_run (now_utc : String) (r : RunRecord) : Result Bool × Registry :=
  let row := { r with created_utc := if r.created_utc = "" then now_utc else r.created_utc }
  (.ok true, { reg with runs := reg.runs.insert r.run_id row })

def finish_run (run_id status : String) (chain_violations : UInt64) : Result Bool × Registry :=
  match reg.runs[run_id]? with
  | none => (.ok true, reg)
  | some r => (.ok true, { reg with runs := reg.runs.insert run_id { r with status, chain_violations } })

def find_run (run_id : String) : Result (Option RunRecord) := .ok ((reg.runs[run_id]?).map RunRecord.columns)

def insert_trial (t : TrialRecord) : Result Int × Registry :=
  let trial_id : Int := reg.trials.length + 1
  (.ok trial_id, { reg with trials := reg.trials ++ [{ t with trial_id }] })

def trial_count (research_question : String) : Result Int :=
  .ok (reg.trials.countP fun t => t.research_question = research_question)

/-- A budget is declared once. -/
def declare_budget (now_utc : String) (b : SearchBudget) : Result Bool × Registry :=
  if reg.search_budgets.contains b.research_question then (.ok false, reg)
  else
    let row := { b with declared_utc := if b.declared_utc = "" then now_utc else b.declared_utc }
    (.ok true, { reg with search_budgets := reg.search_budgets.insert b.research_question row })

def get_budget (question : String) : Result (Option SearchBudget) :=
  match reg.search_budgets[question]? with
  | none => .ok none
  | some row =>
    let research_question := column_text row.research_question
    match reg.trial_count research_question with
    | .error err => .error err
    | .ok used =>
      .ok (some {
        research_question
        declared_utc := column_text row.declared_utc
        budget := row.budget
        used
        rationale := column_text row.rationale })

/-- Without a declared budget there is none to exceed. -/
def budget_exceeded (question : String) : Result Bool :=
  match reg.get_budget question with
  | .error err => .error err
  | .ok none => .ok false
  | .ok (some b) => .ok (b.used > b.budget)

end Registry

end ptl.experiments

open ptl.experiments

namespace ptl.research

/-- The number of the new trial, or zero for one that is known. -/
def register_trial (registry : Registry) (manifest : TrialManifest) (run_id : String) : Result Int × Registry :=
  match registry.find_run manifest.trial_id_hex with
  | .error err => (.error err, registry)
  | .ok (some _) => (.ok 0, registry)
  | .ok none => registry.insert_trial {
      run_id
      research_question := manifest.research_question
      hypothesis := manifest.hypothesis
      params_json := manifest.canonical
      status := "run" }

/-! ### Runs -/

/-- The registry, with the manifests registered so far. -/
structure Study where
  registry : Registry := {}
  registered : List TrialManifest := []

inductive StudyCall where
  | register_trial (manifest : TrialManifest) (run_id : String)
  | insert_run (now_utc : String) (r : RunRecord)
  | finish_run (run_id status : String) (chain_violations : UInt64)
  | declare_budget (now_utc : String) (b : SearchBudget)

def Study.step (s : Study) : StudyCall → Study
  | .register_trial manifest run_id => {
      registry := (research.register_trial s.registry manifest run_id).2
      registered := s.registered ++ [manifest] }
  | .insert_run now_utc r => { s with registry := (s.registry.insert_run now_utc r).2 }
  | .finish_run run_id status chain_violations =>
    { s with registry := (s.registry.finish_run run_id status chain_violations).2 }
  | .declare_budget now_utc b => { s with registry := (s.registry.declare_budget now_utc b).2 }

def studyMachine : Machine Study StudyCall where
  Init s := s = {}
  step s c := some (s.step c)

/-- How many configurations of a question were tried. -/
def Study.configurations (s : Study) (question : String) : Nat :=
  (s.registered.filter fun m => m.research_question = question).toFinset.card

/-- More of them than the declared budget. -/
def Study.overspent (s : Study) (question : String) : Bool :=
  (s.registry.search_budgets[question]?).elim false fun b => b.budget < s.configurations question

/-- Every configuration counts as one trial. -/
def Study.Counts (s : Study) : Prop :=
  ∀ question, s.registry.trial_count question = .ok (s.configurations question : Int)

/-- A manifest is found under its trial id exactly if it was registered before. -/
def Study.Honest (s : Study) : StudyCall → Prop
  | .register_trial manifest _ =>
    (s.registry.runs[manifest.trial_id_hex]?).isSome ↔ manifest ∈ s.registered
  | _ => True

instance (s : Study) (c : StudyCall) : Decidable (s.Honest c) := by
  cases c <;> unfold Study.Honest <;> infer_instance

/-- A budget is exceeded exactly where more configurations were tried than it allows.
The question is read back up to its first NUL. -/
def Study.BudgetsKept (s : Study) : Prop :=
  ∀ question, column_text question = question → s.registry.budget_exceeded question = .ok (s.overspent question)

/-- Budgets stand under their own questions. -/
def Study.Keyed (s : Study) : Prop :=
  ∀ (question : String) (b : SearchBudget), s.registry.search_budgets[question]? = some b →
    b.research_question = question

namespace Study

variable {s : Study}

theorem configurations_registered (manifest : TrialManifest) (registry : Registry) (question : String) :
    { registry, registered := s.registered ++ [manifest] : Study }.configurations question =
      s.configurations question +
        if manifest ∉ s.registered ∧ manifest.research_question = question then 1 else 0 := by
  unfold configurations
  rw [List.filter_append, List.toFinset_append]
  by_cases hquestion : manifest.research_question = question
  · have hone : [manifest].filter (fun m => m.research_question = question) = [manifest] := by simp [hquestion]
    rw [hone, List.toFinset_cons, List.toFinset_nil, insert_empty_eq, Finset.union_comm, ← Finset.insert_eq]
    by_cases hknown : manifest ∈ s.registered
    · rw [Finset.insert_eq_of_mem (by simp [hknown, hquestion]), if_neg (by simp [hknown])]
      rfl
    · rw [Finset.card_insert_of_notMem (by simp [hknown]), if_pos ⟨hknown, hquestion⟩]
  · have hnone : [manifest].filter (fun m => m.research_question = question) = [] := by simp [hquestion]
    rw [hnone, List.toFinset_nil, Finset.union_empty, if_neg fun h => hquestion h.2]
    rfl

theorem trial_count_inserted (reg : Registry) (t : TrialRecord) (question : String) :
    (reg.insert_trial t).2.trial_count question =
      .ok ((reg.trials.countP (fun t => t.research_question = question) : Int) +
        if t.research_question = question then 1 else 0) := by
  unfold Registry.insert_trial Registry.trial_count
  rw [List.countP_append, List.countP_singleton]
  by_cases hquestion : t.research_question = question
  · simp [hquestion]
  · simp [hquestion]

theorem register_trial_found {reg : Registry} {manifest : TrialManifest} {r : RunRecord}
    (hfound : reg.runs[manifest.trial_id_hex]? = some r) (run_id : String) :
    (register_trial reg manifest run_id).2 = reg := by
  rw [register_trial, Registry.find_run, hfound]
  rfl

theorem register_trial_new {reg : Registry} {manifest : TrialManifest}
    (hnew : reg.runs[manifest.trial_id_hex]? = none) (run_id : String) :
    ∃ t : TrialRecord, t.research_question = manifest.research_question ∧
      (register_trial reg manifest run_id).2 = (reg.insert_trial t).2 := by
  rw [register_trial, Registry.find_run, hnew]
  exact ⟨_, rfl, rfl⟩

/-- A registration keeps the count exactly if the manifest is found where it is known. -/
theorem Counts.register_iff (hcounts : s.Counts) (manifest : TrialManifest) (run_id : String) :
    (s.step (.register_trial manifest run_id)).Counts ↔ s.Honest (.register_trial manifest run_id) := by
  unfold Counts Honest step
  simp only [configurations_registered]
  cases hfound : s.registry.runs[manifest.trial_id_hex]? with
  | some r =>
    rw [register_trial_found hfound]
    simp only [Option.isSome_some, true_iff, hcounts _]
    constructor
    · intro hkept
      by_contra hnew
      have hquestion := Except.ok.inj (hkept manifest.research_question)
      rw [if_pos ⟨hnew, rfl⟩] at hquestion
      omega
    · intro hknown question
      rw [if_neg fun h => h.1 hknown]
      rfl
  | none =>
    obtain ⟨t, ht, hinserted⟩ := register_trial_new hfound run_id
    have hcount : ∀ question, (s.registry.trials.countP (fun t => t.research_question = question) : Int) =
        s.configurations question := fun question => Except.ok.inj (hcounts question)
    rw [hinserted]
    simp only [Option.isSome_none, Bool.false_eq_true, false_iff, trial_count_inserted, hcount, ht]
    constructor
    · intro hkept hknown
      have hquestion := Except.ok.inj (hkept manifest.research_question)
      rw [if_pos rfl, if_neg fun h => h.1 hknown] at hquestion
      omega
    · intro hnew question
      by_cases hquestion : manifest.research_question = question
      · rw [if_pos hquestion, if_pos ⟨hnew, hquestion⟩]
        rfl
      · rw [if_neg hquestion, if_neg fun h => hquestion h.2]
        rfl

/-- Nothing else touches the trials. -/
theorem Counts.step_iff (hcounts : s.Counts) (c : StudyCall) : (s.step c).Counts ↔ s.Honest c := by
  cases c with
  | register_trial manifest run_id => exact hcounts.register_iff manifest run_id
  | insert_run now_utc r => exact iff_of_true hcounts trivial
  | finish_run run_id status chain_violations =>
    refine iff_of_true (fun question => ?_) trivial
    rw [step, Registry.finish_run]
    split
    · exact hcounts question
    · exact hcounts question
  | declare_budget now_utc b =>
    refine iff_of_true (fun question => ?_) trivial
    rw [step, Registry.declare_budget]
    split
    · exact hcounts question
    · exact hcounts question

theorem Keyed.step (hkeyed : s.Keyed) (c : StudyCall) : (s.step c).Keyed := by
  cases c with
  | register_trial manifest run_id =>
    intro question b hb
    rw [Study.step] at hb
    cases hfound : s.registry.runs[manifest.trial_id_hex]? with
    | some r =>
      rw [register_trial_found hfound] at hb
      exact hkeyed question b hb
    | none =>
      obtain ⟨t, -, hinserted⟩ := register_trial_new hfound run_id
      rw [hinserted] at hb
      exact hkeyed question b hb
  | insert_run now_utc r => exact hkeyed
  | finish_run run_id status chain_violations =>
    intro question b hb
    refine hkeyed question b ?_
    rw [← hb, Study.step, Registry.finish_run]
    split <;> rfl
  | declare_budget now_utc b =>
    intro question row hrow
    rw [Study.step, Registry.declare_budget] at hrow
    split at hrow
    · exact hkeyed question row hrow
    · rcases Table.getElem?_insert_eq_some.mp hrow with ⟨rfl, rfl⟩ | ⟨-, hrow⟩
      · rfl
      · exact hkeyed question row hrow

theorem Counts.budgetsKept (hcounts : s.Counts) (hkeyed : s.Keyed) : s.BudgetsKept := by
  intro question hplain
  unfold Registry.budget_exceeded Registry.get_budget overspent
  cases hbudget : s.registry.search_budgets[question]? with
  | none => rfl
  | some row =>
    simp only [hkeyed question row hbudget, hplain, hcounts question, Option.elim_some]

end Study

/-- Where a manifest is found under its trial id exactly if it was registered before,
the trials of a question are its configurations in every state, and its budget is
exceeded exactly by them; and any other registration breaks the count at once. -/
theorem studyMachine_counts {s : Study} (hreach : studyMachine.Reaches Study.Honest s) :
    s.Counts ∧ s.BudgetsKept ∧ ∀ c, (s.step c).Counts ↔ s.Honest c := by
  have hkept : s.Counts ∧ s.Keyed := by
    refine hreach.invariant (I := fun s => s.Counts ∧ s.Keyed) ?_ ?_
    · rintro s rfl
      exact ⟨fun question => rfl, fun question b hb => by simp at hb⟩
    · intro s c t _ hkept hhonest hstep
      cases hstep
      exact ⟨(hkept.1.step_iff c).mpr hhonest, hkept.2.step c⟩
  exact ⟨hkept.1, hkept.1.budgetsKept hkept.2, hkept.1.step_iff⟩

/-! ### Concrete runs -/

def lambdaTrial (lambda : String) : TrialManifest where
  research_question := "q1"
  parameters := one_parameter "lambda" lambda

/-- Two strengths, the first of them run and registered once more. -/
theorem studyMachine_counts_rerun :
    ∃ s, studyMachine.Reaches Study.Honest s ∧ s.registered.length = 3 ∧
      s.Counts ∧ s.BudgetsKept ∧ ∀ c, (s.step c).Counts ↔ s.Honest c := by
  obtain ⟨s, hreach, hlength⟩ := Machine.Reaches.exec_map (M := studyMachine) (G := Study.Honest) (s := {})
    (.init rfl) [.declare_budget "now" { research_question := "q1", budget := 1 },
      .register_trial (lambdaTrial "0.1") "run", .register_trial (lambdaTrial "0.5") "run",
      .insert_run "now" { run_id := (lambdaTrial "0.1").trial_id_hex }, .register_trial (lambdaTrial "0.1") "run"]
    (fun s => s.registered.length) (b := 3) (by decide +kernel) (by decide +kernel)
  exact ⟨s, hreach, hlength, studyMachine_counts hreach⟩

/-- The same configuration registered twice counts twice. -/
theorem studyMachine_miscounts :
    ¬ ∀ s, studyMachine.Reachable s → ∀ question,
      s.registry.trial_count question = .ok (s.configurations question : Int) := by
  intro hcounts
  let calls : List StudyCall :=
    [.register_trial (lambdaTrial "0.1") "run", .register_trial (lambdaTrial "0.1") "again"]
  have htwice := hcounts _ (Machine.Reaches.foldl (f := Study.step) (fun _ _ => rfl) (.init rfl) calls) "q1"
  revert htwice
  decide +kernel

end ptl.research
