import TradingLab.Core.Types

namespace ptl.optimization

def bad (message : String) (context : String := "") : Error := make_error .InvalidArgument message context

inductive DirectionMode where
  | LongOnly
  | LongShort
  | DollarNeutral
  deriving DecidableEq, Repr

structure ConstraintSet where
  direction : DirectionMode := .LongShort
  max_position : Rat := 0.10
  min_position : Rat := -0.10
  max_gross_leverage : Rat := 1
  max_net_leverage : Rat := 1
  max_sector_exposure : Rat := 0.30
  beta_neutral : Bool := false
  max_turnover : Rat := 0
  min_trade_size : Rat := 0
  cash_reserve : Rat := 0
  max_concentration : Rat := 1
  deriving DecidableEq, Repr

def ConstraintSet.validate (c : ConstraintSet) : Result Unit :=
  if ¬ is_finite c.max_position ∨ c.max_position ≤ 0 then .error (bad "max_position must be positive")
  else if ¬ is_finite c.min_position ∨ c.max_position < c.min_position then
    .error (bad "min_position must not exceed max_position")
  else if c.direction = .LongOnly ∧ c.min_position < 0 then
    .error (bad "long-only requires a non-negative min_position")
  else if c.max_gross_leverage ≤ 0 ∨ ¬ is_finite c.max_gross_leverage then
    .error (bad "max_gross_leverage must be positive")
  else if c.max_net_leverage < 0 ∨ ¬ is_finite c.max_net_leverage then
    .error (bad "max_net_leverage cannot be negative")
  else if c.cash_reserve < 0 ∨ 1 ≤ c.cash_reserve then .error (bad "cash_reserve must lie in [0, 1)")
  else if c.max_concentration ≤ 0 ∨ 1 < c.max_concentration then
    .error (bad "max_concentration must lie in (0, 1]")
  else if c.max_sector_exposure ≤ 0 then .error (bad "max_sector_exposure must be positive")
  else .ok ()

def ConstraintSet.long_only (max_position : Rat := 0.10) : ConstraintSet where
  direction := .LongOnly
  max_position
  min_position := 0
  max_gross_leverage := 1
  max_net_leverage := 1

/-- Net of the cash reserve. -/
def ConstraintSet.gross_budget (c : ConstraintSet) : Rat := c.max_gross_leverage * (1 - c.cash_reserve)

/-- A sector below zero is none. -/
structure OptimizationInput where
  instruments : List InstrumentId
  current_weights : List Rat := []
  sectors : List Int := []
  betas : List Rat := []
  deriving DecidableEq, Repr

def OptimizationInput.size (input : OptimizationInput) : Nat := input.instruments.length

def gross_of (w : List Rat) : Rat := (w.map fun x => |x|).sum

def net_of (w : List Rat) : Rat := w.sum

/-- The sum of |w| within a sector. -/
def sector_gross (sectors : List Int) (sector : Int) (w : List Rat) : Rat :=
  (List.zipWith (fun s x => if s = sector then |x| else 0) sectors w).sum

def copysign (magnitude sign : Rat) : Rat := if sign < 0 then -|magnitude| else |magnitude|

/-- The names are those of the constraints that bound, and each is kept once. -/
def note (binding : List String) (name : String) : List String :=
  if name ∈ binding then binding else binding ++ [name]

structure ConstraintProjector where
  constraints : ConstraintSet
  deriving DecidableEq, Repr

/-- How far weights moved, in sum. -/
def distance (after before : List Rat) : Rat := (List.zipWith (fun x y => |x - y|) after before).sum

namespace ConstraintProjector

variable (p : ConstraintProjector) (input : OptimizationInput)

/-! ### The steps of a pass

Each gives the new weights, and the names to note. -/

def direction_step (w : List Rat) : List Rat × List String :=
  if p.constraints.direction = .LongOnly then
    (w.map fun x => if x < 0 then 0 else x, if w.any fun x => x < 0 then ["long_only"] else [])
  else (w, [])

def capped (x : Rat) : Rat := if p.constraints.max_position < x then p.constraints.max_position else x

def bounds_step (w : List Rat) : List Rat × List String :=
  (w.map fun x => if p.capped x < p.constraints.min_position then p.constraints.min_position else p.capped x,
    w.flatMap fun x =>
      (if p.constraints.max_position < x then ["max_position"] else []) ++
        if p.capped x < p.constraints.min_position then ["min_position"] else [])

def is_dust (x : Rat) : Bool := x ≠ 0 ∧ |x| < p.constraints.min_trade_size

def min_trade_step (w : List Rat) : List Rat × List String :=
  if 0 < p.constraints.min_trade_size then
    (w.map fun x => if p.is_dust x then 0 else x, if w.any p.is_dust then ["min_trade_size"] else [])
  else (w, [])

/-- The sector is over its cap. -/
def sector_over (w : List Rat) (sector : Int) : Bool :=
  0 ≤ sector ∧ p.constraints.max_sector_exposure < sector_gross input.sectors sector w ∧
    0 < sector_gross input.sectors sector w

/-- No weight is in two sectors, so the order they are scaled in is no matter. -/
def sector_step (w : List Rat) : List Rat × List String :=
  if input.sectors ≠ [] ∧ input.sectors.length = w.length then
    (List.zipWith (fun sector x =>
        if p.sector_over input w sector then
          x * (p.constraints.max_sector_exposure / sector_gross input.sectors sector w)
        else x) input.sectors w,
      if input.sectors.any (p.sector_over input w) then ["max_sector_exposure"] else [])
  else (w, [])

def dollar_step (w : List Rat) : List Rat × List String :=
  if p.constraints.direction = .DollarNeutral ∧ 1e-12 < |net_of w| then
    (w.map fun x => x - net_of w / w.length, ["dollar_neutral"])
  else (w, [])

def beta_step (w : List Rat) : List Rat × List String :=
  let portfolio_beta := (List.zipWith (fun x beta => x * beta) w input.betas).sum
  let beta_sq := (input.betas.map fun beta => beta * beta).sum
  if p.constraints.beta_neutral ∧ input.betas.length = w.length ∧ 1e-9 < |portfolio_beta| ∧ 0 < beta_sq then
    (List.zipWith (fun x beta => x - portfolio_beta / beta_sq * beta) w input.betas, ["beta_neutral"])
  else (w, [])

def gross_step (w : List Rat) : List Rat × List String :=
  if p.constraints.gross_budget < gross_of w ∧ 0 < gross_of w then
    (w.map fun x => x * (p.constraints.gross_budget / gross_of w),
      [if 0 < p.constraints.cash_reserve then "cash_reserve" else "max_gross_leverage"])
  else (w, [])

def net_step (w : List Rat) : List Rat × List String :=
  if p.constraints.max_net_leverage < |net_of w| then
    let excess := |net_of w| - p.constraints.max_net_leverage
    let adjustment := copysign (excess / w.length) (net_of w)
    (w.map fun x => x - adjustment, ["max_net_leverage"])
  else (w, [])

def concentration_step (w : List Rat) : List Rat × List String :=
  let cap := p.constraints.max_concentration * gross_of w
  if 0 < gross_of w ∧ p.constraints.max_concentration < 1 then
    (w.map fun x => if cap < |x| then copysign cap x else x,
      if w.any fun x => cap < |x| then ["max_concentration"] else [])
  else (w, [])

/-- Moves only part of the way to a target too far. -/
def turnover_step (w : List Rat) : List Rat × List String :=
  let turnover := (List.zipWith (fun x c => |x - c|) w input.current_weights).sum
  if 0 < p.constraints.max_turnover ∧ input.current_weights.length = w.length ∧
      p.constraints.max_turnover < turnover ∧ 0 < turnover then
    (List.zipWith (fun c x => c + p.constraints.max_turnover / turnover * (x - c)) input.current_weights w,
      ["max_turnover"])
  else (w, [])

/-! ### The projection -/

def steps : List (List Rat → List Rat × List String) :=
  [p.direction_step, p.bounds_step, p.min_trade_step, p.sector_step input, p.dollar_step, p.beta_step input,
    p.gross_step, p.net_step, p.concentration_step, p.turnover_step input]

def pass (state : List Rat × List String) : List Rat × List String :=
  (p.steps input).foldl (fun state step => ((step state.1).1, (step state.1).2.foldl note state.2)) state

def converged (before after : List Rat) : Bool :=
  (List.zipWith (fun x y => |x - y|) after before).sum < 1e-12

def kMaxPasses : Nat := 12

def passes : Nat → List Rat × List String → List Rat × List String
  | 0, state => state
  | remaining + 1, state =>
    let moved := p.pass input state
    if converged state.1 moved.1 then moved else passes remaining moved

/-- Whether or not the passes converge. -/
def project (weights : List Rat) (binding : List String := []) : Result (List Rat × List String) :=
  match p.constraints.validate with
  | .error err => .error err
  | .ok _ =>
    if weights = [] then .ok (weights, binding)
    else if weights.length ≠ input.size then
      .error (bad "weight vector length does not match the universe")
    else
      let moved := p.passes input kMaxPasses (weights.map fun x => if is_finite x then x else 0, binding)
      .ok (moved.1.map fun x => if is_finite x then x else 0, moved.2)

def feasible (weights : List Rat) (tolerance : Rat := 1e-6) : Bool :=
  weights.length = input.size &&
  (weights.all fun x => is_finite x && x ≤ p.constraints.max_position + tolerance &&
    p.constraints.min_position - tolerance ≤ x &&
    ¬ (p.constraints.direction = .LongOnly ∧ x < -tolerance)) &&
  gross_of weights ≤ p.constraints.gross_budget + tolerance &&
  |net_of weights| ≤ p.constraints.max_net_leverage + tolerance &&
  (input.sectors = [] || input.sectors.length ≠ weights.length ||
    input.sectors.all fun sector => sector < 0 ||
      sector_gross input.sectors sector weights ≤ p.constraints.max_sector_exposure + tolerance)

end ConstraintProjector

/-! ### Optimisers -/

inductive OptimizationStatus where
  | Optimal
  | ConstrainedOptimal
  | MaxIterations
  | Infeasible
  | SingularRiskModel
  | Failed
  deriving DecidableEq, Repr

structure OptimizationResult where
  status : OptimizationStatus := .Failed
  weights : List Rat := []
  binding_constraints : List String := []
  deriving DecidableEq, Repr

structure OptimizerConfig where
  constraints : ConstraintSet := {}
  deriving DecidableEq, Repr

def validate_weights (weights : List Rat) : Result Unit :=
  match weights.findIdx? fun x => ¬ is_finite x with
  | some i => .error (bad ("weight " ++ toString i ++ " is not finite"))
  | none => .ok ()

/-- Where every optimiser ends. -/
def complete (cfg : OptimizerConfig) (weights : List Rat) (input : OptimizationInput)
    (status : OptimizationStatus) : Result OptimizationResult :=
  match (ConstraintProjector.mk cfg.constraints).project input weights with
  | .error err => .error err
  | .ok projected =>
    match validate_weights projected.1 with
    | .error err => .error err
    | .ok _ => .ok {
      status :=
        if projected.2 = [] then status
        else if status = .Optimal then .ConstrainedOptimal
        else status
      weights := projected.1
      binding_constraints := projected.2 }

end ptl.optimization
