import TradingLab.Optimization.Covariance

namespace ptl.optimization

/-- What is used of the mathematical library. Nothing is assumed of it. -/
structure Libm (K : Type := Rat) where
  sqrt : K → K
  log : K → K

/-- A covariance of its own size, which is zero where there is none. -/
structure RiskModel (K : Type := Rat) where
  size : Nat := 0
  at_ : SymmetricMatrix K size

namespace RiskModel

variable {K : Type}

def none : RiskModel K where
  size := 0
  at_ := fun i => i.elim0

def empty (m : RiskModel K) : Bool := m.size = 0

variable [Field K]

/-- One of the sums `at(i, j) * w[j]`. -/
def row (m : RiskModel K) (w : List K) (i : Fin m.size) : K := ∑ j, m.at_ i j * w.getD j 0

/-- Never negative. -/
def quadratic_form [LinearOrder K] (m : RiskModel K) (w : List K) : K :=
  if w.length ≠ m.size ∨ m.size = 0 then 0 else max 0 (∑ i : Fin m.size, w.getD i 0 * m.row w i)

def multiply (m : RiskModel K) (w : List K) : List K :=
  if w.length ≠ m.size then List.replicate m.size 0 else List.ofFn (m.row w)

end RiskModel

/-- The input with what objectives read of it. -/
structure SolverInput (K : Type := Rat) extends OptimizationInput where
  expected_returns : List K := []
  covariance : RiskModel K := .none

inductive ObjectiveKind where
  | MaximizeReturn
  | MaximizeSharpe
  | MinimizeVariance
  | MinimizeTrackingError
  | RiskParity
  | Kelly
  deriving DecidableEq, Repr

structure ObjectiveConfig (K : Type := Rat) [Field K] where
  kind : ObjectiveKind := .MaximizeSharpe
  risk_aversion : K := 1
  risk_free_rate : K := 0
  benchmark_weights : List K := []
  kelly_fraction : K := 0.25
  deriving DecidableEq, Repr

structure Objective (K : Type := Rat) [Field K] where
  cfg : ObjectiveConfig K := {}
  deriving DecidableEq, Repr

namespace Objective

variable {K : Type} [Field K]

def expected (w : List K) (input : SolverInput K) : K :=
  if input.expected_returns.length = w.length then
    (List.zipWith (fun x mu => x * mu) w input.expected_returns).sum
  else 0

/-- Active weights. -/
def active (o : Objective K) (w : List K) : List K := List.zipWith (fun x b => x - b) w o.cfg.benchmark_weights

variable [LinearOrder K] (m : Libm K) (o : Objective K)

/-- The score of an allocation. Higher is better, always. -/
def score (w : List K) (input : SolverInput K) : K :=
  let variance := input.covariance.quadratic_form w
  match o.cfg.kind with
  | .MaximizeReturn => expected w input - 0.5 * o.cfg.risk_aversion * variance
  | .MaximizeSharpe =>
    let vol := m.sqrt (max 0 variance)
    if 1e-12 < vol then (expected w input - o.cfg.risk_free_rate) / vol
    else expected w input - o.cfg.risk_free_rate
  | .MinimizeVariance => -variance
  | .MinimizeTrackingError => -input.covariance.quadratic_form (o.active w)
  | .RiskParity =>
    -- Outside the domain of the logarithm.
    if w.any fun x => x ≤ 1e-12 then -1e18
    else (w.map m.log).sum - 0.5 * w.length * m.log (max variance 1e-18)
  | .Kelly => o.cfg.kelly_fraction * expected w input - 0.5 * variance

def value (w : List K) (input : SolverInput K) : Result K :=
  if w.length ≠ input.size then .error (bad "weights do not match the universe")
  else
    let result := o.score m w input
    .ok (if is_finite result then result else -1e18)

/-- The entry of one instrument. -/
def slope (w : List K) (input : SolverInput K) (i : Nat) : K :=
  let sigma_w :=
    if input.covariance.empty then List.replicate w.length 0 else input.covariance.multiply w
  let mu := if input.expected_returns.length = w.length then input.expected_returns.getD i 0 else 0
  match o.cfg.kind with
  | .MaximizeReturn => mu - o.cfg.risk_aversion * sigma_w.getD i 0
  | .MaximizeSharpe =>
    let vol := m.sqrt (max 0 (input.covariance.quadratic_form w))
    if 1e-12 < vol then
      mu / vol - (expected w input - o.cfg.risk_free_rate) * sigma_w.getD i 0 / (vol * vol * vol)
    else mu
  | .MinimizeVariance => -2.0 * sigma_w.getD i 0
  | .MinimizeTrackingError => -2.0 * (input.covariance.multiply (o.active w)).getD i 0
  | .RiskParity =>
    1 / max (w.getD i 0) 1e-12 -
      w.length * sigma_w.getD i 0 / max (input.covariance.quadratic_form w) 1e-18
  | .Kelly => o.cfg.kelly_fraction * mu - sigma_w.getD i 0

def gradient (w : List K) (input : SolverInput K) : Result (List K) :=
  if w.length ≠ input.size then .error (bad "weights do not match the universe")
  else .ok (((List.range w.length).map (o.slope m w input)).map fun x => if is_finite x then x else 0)

theorem value_ok {w : List K} {input : SolverInput K} (hlength : w.length = input.size) :
    ∃ v, o.value m w input = .ok v := by
  rw [value, if_neg (not_not.mpr hlength)]
  exact ⟨_, rfl⟩

end Objective

end ptl.optimization
