import TradingLab.Optimization.Objective
import TradingLab.Optimization.Projection

namespace ptl.optimization

open ConstraintProjector

/-- The configuration with what the gradient solver reads of it. -/
structure SolverConfig extends OptimizerConfig where
  max_iterations : Nat := 500
  tolerance : Rat := 1e-10
  step_size : Rat := 5 / 100
  deriving DecidableEq, Repr

/-- The variables of the ascent. -/
structure Climb where
  w : List Rat
  best : List Rat
  best_value : Rat
  step : Rat
  iterations : Nat := 0
  converged : Bool := false
  deriving DecidableEq, Repr

section Ascent

variable (m : Libm) (cfg : SolverConfig) (objective : Objective) (input : SolverInput)

/-- The projected step along the gradient. -/
def candidate (st : Climb) : Result (List Rat) :=
  match objective.gradient m st.w input with
  | .error err => .error err
  | .ok gradient =>
    ((mk cfg.constraints).project input.toOptimizationInput
      (List.zipWith (fun x g => x + st.step * g) st.w gradient)).map Prod.fst

/-- The body of the loop, with the count that is left out where it breaks. -/
def iterate (st : Climb) : Result Climb :=
  match candidate m cfg objective input st with
  | .error err => .error err
  | .ok candidate =>
    match objective.value m candidate input with
    | .error err => .error err
    | .ok candidate_value =>
      if st.best_value < candidate_value then
        let delta := distance candidate st.w
        let st' := { st with w := candidate, best := candidate, best_value := candidate_value }
        if delta < cfg.tolerance then .ok { st' with converged := true }
        else .ok { st' with iterations := st.iterations + 1 }
      else if st.step * (1 / 2) < 1e-14 then .ok { st with step := st.step * (1 / 2), converged := true }
      else .ok { st with step := st.step * (1 / 2), iterations := st.iterations + 1 }

/-- Iterations until one breaks or none is left. -/
def climb : Nat → Climb → Result Climb
  | 0, st => .ok st
  | remaining + 1, st =>
    match iterate m cfg objective input st with
    | .error err => .error err
    | .ok st' => if st'.converged then .ok st' else climb remaining st'

/-- What the loop starts from. -/
def base (start : List Rat) : Result Climb :=
  match (mk cfg.constraints).project input.toOptimizationInput start with
  | .error err => .error err
  | .ok projected =>
    match objective.value m projected.1 input with
    | .error err => .error err
    | .ok best_value =>
      .ok { w := projected.1, best := projected.1, best_value, step := cfg.step_size }

/-- Projected gradient ascent: the result, and its iterations. -/
def ascend (start : List Rat) : Result (OptimizationResult × Nat) :=
  if input.size = 0 then .error (bad "cannot optimize an empty universe")
  else
    match base m cfg objective input start with
    | .error err => .error err
    | .ok st =>
      match climb m cfg objective input cfg.max_iterations st with
      | .error err => .error err
      | .ok st =>
        match complete cfg.toOptimizerConfig st.best input.toOptimizationInput
            (if st.converged then .Optimal else .MaxIterations) with
        | .error err => .error err
        | .ok result => .ok (result, st.iterations)

/-- The candidates the loop looks at. -/
def candidates : Nat → Climb → List (List Rat)
  | 0, _ => []
  | remaining + 1, st =>
    match candidate m cfg objective input st, iterate m cfg objective input st with
    | .ok c, .ok st' => c :: if st'.converged then [] else candidates remaining st'
    | _, _ => []

/-- All points an ascent looks at, the projected start first. -/
def iterates (start : List Rat) : List (List Rat) :=
  match base m cfg objective input start with
  | .error _ => []
  | .ok st => st.best :: candidates m cfg objective input cfg.max_iterations st

/-- What an ascent promises: it ends in time, with the best of the points it looked at. -/
structure Best (start : List Rat) (result : OptimizationResult) (iterations : Nat) : Prop where
  iterations_le : iterations ≤ cfg.max_iterations
  weights_mem : result.weights ∈ iterates m cfg objective input start
  best : ∀ w ∈ iterates m cfg objective input start,
    ∃ v v', objective.value m w input = .ok v ∧ objective.value m result.weights input = .ok v' ∧ v ≤ v'

end Ascent

/-! ### The loop -/

section Loop

variable {m : Libm} {cfg : SolverConfig} {objective : Objective} {input : SolverInput}

/-- What is a result of the projection. -/
def Projected (cfg : SolverConfig) (input : SolverInput) (w : List Rat) : Prop :=
  ∃ u projected, (mk cfg.constraints).project input.toOptimizationInput u = .ok projected ∧
    projected.1 = w

/-- The best point has its value, and came out of the projection. -/
structure Climb.Holds (m : Libm) (cfg : SolverConfig) (objective : Objective) (input : SolverInput)
    (st : Climb) : Prop where
  valued : objective.value m st.best input = .ok st.best_value
  projected : Projected cfg input st.best

theorem candidate_projected {st : Climb} {c : List Rat} (hcandidate : candidate m cfg objective input st = .ok c) :
    Projected cfg input c := by
  unfold candidate at hcandidate
  split at hcandidate
  · cases hcandidate
  · rename_i gradient hgradient
    cases hproject : (mk cfg.constraints).project input.toOptimizationInput
        (List.zipWith (fun x g => x + st.step * g) st.w gradient) with
    | error err =>
      rw [hproject] at hcandidate
      cases hcandidate
    | ok projected =>
      rw [hproject] at hcandidate
      cases hcandidate
      exact ⟨_, projected, hproject, rfl⟩

/-- What one iteration does: it looks at a candidate, and the better of two points is the
best from then on. -/
theorem iterate_ok {st st' : Climb} (hiterate : iterate m cfg objective input st = .ok st') :
    ∃ c v, candidate m cfg objective input st = .ok c ∧ objective.value m c input = .ok v ∧
      (st.best_value < v ∧ st'.best = c ∧ st'.best_value = v ∨
        v ≤ st.best_value ∧ st'.best = st.best ∧ st'.best_value = st.best_value) ∧
      st'.iterations ≤ st.iterations + 1 := by
  unfold iterate at hiterate
  split at hiterate
  · cases hiterate
  · rename_i c hcandidate
    split at hiterate
    · cases hiterate
    · rename_i v hvalue
      refine ⟨c, v, hcandidate, hvalue, ?_⟩
      split at hiterate
      · rename_i hbetter
        dsimp only at hiterate
        split at hiterate
        · cases hiterate
          exact ⟨.inl ⟨hbetter, rfl, rfl⟩, Nat.le_succ _⟩
        · cases hiterate
          exact ⟨.inl ⟨hbetter, rfl, rfl⟩, le_rfl⟩
      · rename_i hworse
        split at hiterate
        · cases hiterate
          exact ⟨.inr ⟨not_lt.mp hworse, rfl, rfl⟩, Nat.le_succ _⟩
        · cases hiterate
          exact ⟨.inr ⟨not_lt.mp hworse, rfl, rfl⟩, le_rfl⟩

theorem Climb.Holds.iterate {st st' : Climb} (h : st.Holds m cfg objective input)
    (hiterate : iterate m cfg objective input st = .ok st') : st'.Holds m cfg objective input := by
  obtain ⟨c, v, hcandidate, hvalue, ⟨-, hbest, hbest_value⟩ | ⟨-, hbest, hbest_value⟩, -⟩ := iterate_ok hiterate
  · constructor
    · rw [hbest, hbest_value]
      exact hvalue
    · rw [hbest]
      exact candidate_projected hcandidate
  · constructor
    · rw [hbest, hbest_value]
      exact h.valued
    · rw [hbest]
      exact h.projected

/-- What the loop leaves, and how it compares with all it looked at. -/
structure Reached (m : Libm) (cfg : SolverConfig) (objective : Objective) (input : SolverInput) (remaining : Nat)
    (st out : Climb) : Prop where
  holds : out.Holds m cfg objective input
  iterations_le : out.iterations ≤ st.iterations + remaining
  best_mem : out.best ∈ st.best :: candidates m cfg objective input remaining st
  start_le : st.best_value ≤ out.best_value
  best : ∀ c ∈ candidates m cfg objective input remaining st,
    ∃ v, objective.value m c input = .ok v ∧ v ≤ out.best_value

theorem climb_ok {remaining : Nat} {st out : Climb} (h : st.Holds m cfg objective input)
    (hclimb : climb m cfg objective input remaining st = .ok out) :
    Reached m cfg objective input remaining st out := by
  induction remaining generalizing st with
  | zero =>
    cases hclimb
    exact ⟨h, le_rfl, List.mem_cons_self, le_rfl, fun c hc => absurd hc List.not_mem_nil⟩
  | succ remaining ih =>
    rw [climb] at hclimb
    split at hclimb
    · cases hclimb
    · rename_i st' hiterate
      obtain ⟨c, v, hcandidate, hvalue, hcases, hcount⟩ := iterate_ok hiterate
      have hholds := h.iterate hiterate
      have hbetter : st.best_value ≤ st'.best_value ∧ v ≤ st'.best_value := by
        obtain ⟨hlt, -, heq⟩ | ⟨hle, -, heq⟩ := hcases
        · exact ⟨heq ▸ hlt.le, heq.ge⟩
        · exact ⟨heq.ge, heq ▸ hle⟩
      have hfrom : st'.best = c ∨ st'.best = st.best := by
        obtain ⟨-, hbest, -⟩ | ⟨-, hbest, -⟩ := hcases
        · exact .inl hbest
        · exact .inr hbest
      split at hclimb
      · rename_i hconverged
        cases hclimb
        have hlooked : candidates m cfg objective input (remaining + 1) st = [c] := by
          simp only [candidates, hcandidate, hiterate, hconverged, if_true]
        refine ⟨hholds, by omega, ?_, hbetter.1, ?_⟩
        · rw [hlooked]
          obtain hc | hc := hfrom <;> simp [hc]
        · rw [hlooked]
          intro c' hc'
          obtain rfl := List.mem_singleton.mp hc'
          exact ⟨v, hvalue, hbetter.2⟩
      · rename_i hgoes
        have hlooked : candidates m cfg objective input (remaining + 1) st =
            c :: candidates m cfg objective input remaining st' := by
          simp only [candidates, hcandidate, hiterate, if_neg hgoes]
        have hrest := ih hholds hclimb
        have hcount' := hrest.iterations_le
        refine ⟨hrest.holds, by omega, ?_, hbetter.1.trans hrest.start_le, ?_⟩
        · rw [hlooked]
          obtain hbest | hlater := List.mem_cons.mp hrest.best_mem
          · rw [hbest]
            obtain hc | hc := hfrom <;> simp [hc]
          · exact List.mem_cons_of_mem _ (List.mem_cons_of_mem _ hlater)
        · rw [hlooked]
          refine List.forall_mem_cons.mpr ⟨⟨v, hvalue, hbetter.2.trans hrest.start_le⟩, hrest.best⟩

theorem base_holds {start : List Rat} {st : Climb} (hbase : base m cfg objective input start = .ok st) :
    st.Holds m cfg objective input ∧ st.iterations = 0 := by
  unfold base at hbase
  split at hbase
  · cases hbase
  · rename_i projected hproject
    split at hbase
    · cases hbase
    · rename_i v hvalue
      cases hbase
      exact ⟨⟨hvalue, start, projected, hproject, rfl⟩, rfl⟩

/-- An ascent that succeeds ends with a projection of the best point of its loop. -/
theorem ascend_ok {start : List Rat} {result : OptimizationResult} {iterations : Nat}
    (hascend : ascend m cfg objective input start = .ok (result, iterations)) :
    ∃ st out projected, base m cfg objective input start = .ok st ∧
      climb m cfg objective input cfg.max_iterations st = .ok out ∧
      (mk cfg.constraints).project input.toOptimizationInput out.best = .ok projected ∧
      result.weights = projected.1 ∧ iterations = out.iterations := by
  unfold ascend at hascend
  split at hascend
  · cases hascend
  · split at hascend
    · cases hascend
    · rename_i st hbase
      split at hascend
      · cases hascend
      · rename_i out hclimb
        split at hascend
        · cases hascend
        · rename_i hcomplete
          cases hascend
          obtain ⟨projected, hproject, hweights⟩ := complete_ok hcomplete
          exact ⟨st, out, projected, hbase, hclimb, hproject, hweights, rfl⟩

/-- A projection that is not projected again keeps the best point. -/
theorem ascend_best {start : List Rat} {result : OptimizationResult} {iterations : Nat}
    (hascend : ascend m cfg objective input start = .ok (result, iterations))
    (honce : ∀ w projected, Projected cfg input w →
      (mk cfg.constraints).project input.toOptimizationInput w = .ok projected →
      projected.1 = w) : Best m cfg objective input start result iterations := by
  obtain ⟨st, out, projected, hbase, hclimb, hproject, hweights, rfl⟩ := ascend_ok hascend
  obtain ⟨hholds, hzero⟩ := base_holds hbase
  have hreached := climb_ok hholds hclimb
  have hbest : result.weights = out.best :=
    hweights.trans (honce out.best projected hreached.holds.projected hproject)
  have hlooked : iterates m cfg objective input start =
      st.best :: candidates m cfg objective input cfg.max_iterations st := by simp only [iterates, hbase]
  have hcount := hreached.iterations_le
  constructor
  · omega
  · rw [hlooked, hbest]
    exact hreached.best_mem
  · rw [hlooked, hbest]
    have hfound := hreached.holds.valued
    refine List.forall_mem_cons.mpr ⟨⟨_, _, hholds.valued, hfound, hreached.start_le⟩, fun c hc => ?_⟩
    obtain ⟨v, hvalue, hle⟩ := hreached.best c hc
    exact ⟨v, _, hvalue, hfound, hle⟩

end Loop

/-- What is projected twice is projected once. -/
def ProjectsOnce (constraints : ConstraintSet) (input : OptimizationInput) : Prop :=
  ∀ w projected again, (mk constraints).project input w = .ok projected →
    (mk constraints).project input projected.1 = .ok again → again.1 = projected.1

theorem complete_of_project {cfg : OptimizerConfig} {w : List Rat} {input : OptimizationInput}
    {status : OptimizationStatus} {projected : List Rat × List String}
    (hproject : (mk cfg.constraints).project input w = .ok projected) :
    ∃ result, complete cfg w input status = .ok result ∧ result.weights = projected.1 := by
  have hfinite : validate_weights projected.1 = .ok () := by
    have hnone : projected.1.findIdx? (fun x => decide ¬ is_finite x = true) = none := by simp
    rw [validate_weights, hnone]
  rw [complete, hproject]
  simp only [hfinite]
  exact ⟨_, rfl, rfl⟩

/-- The first of two names is expected to rise. -/
def risingPair : SolverInput where
  toOptimizationInput := pair
  expected_returns := [1, 0]

def netCapped : SolverConfig where
  constraints := tightBook.constraints
  max_iterations := 1

def maximizeReturn : Objective where
  cfg := { kind := .MaximizeReturn }

end ptl.optimization
