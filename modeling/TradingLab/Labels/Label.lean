import TradingLab.Features.Intraday
import TradingLab.Validation.WalkForward

open ptl.features

namespace ptl.labels

inductive LabelKind where
  | ForwardLogReturn
  | VolNormalisedReturn
  | CostAwareReturn
  | Direction
  | TripleBarrier
  deriving DecidableEq, Repr

/-- The kinds whose values are winsorised. -/
def LabelKind.continuous (kind : LabelKind) : Bool :=
  kind = .ForwardLogReturn || kind = .VolNormalisedReturn || kind = .CostAwareReturn

variable {K : Type*} [Field K] [LinearOrder K]

structure LabelConfig (K : Type*) [Field K] where
  kind : LabelKind := .ForwardLogReturn
  horizon : Nat := 15
  vol_window : Nat := 60
  winsor_sigma : K := 4
  winsorize : Bool := true
  direction_threshold : K := 0
  round_trip_cost_bps : K := 2
  barrier_upper_sigma : K := 2
  barrier_lower_sigma : K := 2

structure Label (K : Type*) [Field K] where
  instrument : InstrumentId := kInvalidInstrument
  interval : ObservationInterval := {}
  value : K := 0
  weight : K := 1
  valid : Bool := false
  barrier_touched : Int := 0

set_option linter.dupNamespace false in
structure LabelSet (K : Type*) [Field K] where
  labels : List (Label K)
  config : LabelConfig K

structure PricePoint (K : Type*) [Field K] where
  ts : Timestamp := kNoTimestamp
  instrument : InstrumentId := kInvalidInstrument
  mid : K := 0

structure LabelBuilder (K : Type*) [Field K] where
  cfg : LabelConfig K

def bad (message : String) (context : String := "") : Error := make_error .ValidationFailed message context

/-- `prices[i]`. -/
def point (prices : List (PricePoint K)) (i : Nat) : PricePoint K := prices.getD i {}

section Row

variable (math : MathFunctions K)

/-- The log returns of the window that ends at `index`, those of prices that are
not positive left out. -/
def window_returns (prices : List (PricePoint K)) (index window : Nat) : List K :=
  let first := if index ≥ window then index - window + 1 else 1
  (List.range' first (index + 1 - first)).filterMap fun i =>
    let a := (point prices (i - 1)).mid
    let b := (point prices i).mid
    if a ≤ 0 ∨ b ≤ 0 then none else some (math.log (b / a))

/-- The realised volatility up to and including `index`. -/
def trailing_vol (prices : List (PricePoint K)) (index window : Nat) : K :=
  if index = 0 ∨ window = 0 then 0
  else
    let returns := window_returns math prices index window
    if returns.length = 0 then 0
    else math.sqrt (returns.foldl (fun sumsq r => sumsq + r * r) 0 / returns.length)

/-- The walk forward to the first barrier touched: `1` for the upper, `-1` for
the lower, `0` for neither. -/
def first_touch (prices : List (PricePoint K)) (p0 upper lower : K) : List Nat → Int
  | [] => 0
  | j :: rest =>
    let pj := (point prices j).mid
    if ¬ 0 < pj then first_touch prices p0 upper lower rest
    else
      let r := math.log (pj / p0)
      if upper ≤ r then 1
      else if r ≤ lower then -1
      else first_touch prices p0 upper lower rest

/-- `std::copysign`. -/
def copysign (magnitude sign : K) : K := if sign < 0 then -|magnitude| else |magnitude|

/-- The label of row `i`, before the passes over the whole sample. -/
def LabelBuilder.label_at (b : LabelBuilder K) (prices : List (PricePoint K)) (i : Nat) : Label K :=
  let h := b.cfg.horizon
  let now := point prices i
  let l : Label K :=
    { instrument := now.instrument
      interval :=
        { sample_start_time := (point prices 0).ts, feature_end_time := now.ts
          label_start_time := now.ts, label_end_time := now.ts + 1 } }
  if i + h ≥ prices.length then l
  else
    let ahead := point prices (i + h)
    let l := { l with interval := { l.interval with label_end_time := ahead.ts } }
    if ¬ 0 < now.mid ∨ ¬ 0 < ahead.mid then l
    else
      let raw := math.log (ahead.mid / now.mid)
      match b.cfg.kind with
      | .ForwardLogReturn => { l with value := raw, valid := true }
      | .VolNormalisedReturn =>
        let sigma := trailing_vol math prices i b.cfg.vol_window
        if sigma ≤ 0 then l else { l with value := raw / sigma, valid := true }
      | .CostAwareReturn =>
        let net := |raw| - b.cfg.round_trip_cost_bps * (1 / (10000 : Nat))
        { l with value := if net ≤ 0 then 0 else copysign net raw, valid := true }
      | .Direction =>
        { l with value := if b.cfg.direction_threshold < raw then 1 else 0, valid := true }
      | .TripleBarrier =>
        let sigma := trailing_vol math prices i b.cfg.vol_window
        if sigma ≤ 0 then l
        else
          let touched := first_touch math prices now.mid (b.cfg.barrier_upper_sigma * sigma)
            (-b.cfg.barrier_lower_sigma * sigma) (List.range' (i + 1) h)
          { l with barrier_touched := touched, value := (touched : K), valid := true }

end Row

section Sample

variable (math : MathFunctions K)

/-- `std::clamp`. -/
def clamp (v lo hi : K) : K := if v < lo then lo else if hi < v then hi else v

def valid_values (labels : List (Label K)) : List K :=
  labels.filterMap fun l => if l.valid then some l.value else none

/-- The bounds of the clipping, when there are any: two values at least, and not
all the same. -/
def winsor_bounds (sigma : K) (values : List K) : Option (K × K) :=
  if values.length < 2 then none
  else
    let mean : K := values.foldl (· + ·) 0 / values.length
    let m2 := values.foldl (fun m2 v => m2 + (v - mean) * (v - mean)) 0
    let sd := math.sqrt (m2 / (values.length - 1 : Nat))
    if 0 < sd then some (mean - sigma * sd, mean + sigma * sd) else none

def LabelBuilder.winsorise (b : LabelBuilder K) (labels : List (Label K)) : List (Label K) :=
  if b.cfg.winsorize && b.cfg.kind.continuous && decide (0 < b.cfg.winsor_sigma) then
    match winsor_bounds math b.cfg.winsor_sigma (valid_values labels) with
    | some (lo, hi) => labels.map fun l => if l.valid then { l with value := clamp l.value lo hi } else l
    | none => labels
  else labels

/-- Labels that overlap share information. -/
def LabelBuilder.weigh (b : LabelBuilder K) (labels : List (Label K)) : List (Label K) :=
  labels.map fun l => if l.valid then { l with weight := 1 / (b.cfg.horizon : K) } else l

def LabelBuilder.build (b : LabelBuilder K) (prices : List (PricePoint K)) : Result (LabelSet K) :=
  if b.cfg.horizon = 0 then .error (bad "label horizon must be at least one bar")
  else
    match (prices.zip prices.tail).find? fun (before, p) => p.ts ≤ before.ts with
    | some (_, p) =>
      .error (bad "label price series is not strictly chronological" (to_iso8601 p.ts))
    | none =>
      let labels := (List.range prices.length).map (b.label_at math prices)
      .ok { labels := b.weigh (b.winsorise math labels), config := b.cfg }

end Sample

/-! ### What a row reads -/

section Horizon

variable (math : MathFunctions K)

omit [LinearOrder K] in
theorem point_append {prices : List (PricePoint K)} {i : Nat} (more : List (PricePoint K))
    (hin : i < prices.length) : point (prices ++ more) i = point prices i := by
  rw [point, point, List.getD_eq_getElem?_getD, List.getD_eq_getElem?_getD, List.getElem?_append_left hin]

theorem window_returns_append {prices : List (PricePoint K)} {index : Nat} (window : Nat)
    (more : List (PricePoint K)) (hin : index < prices.length) :
    window_returns math (prices ++ more) index window = window_returns math prices index window := by
  unfold window_returns
  refine List.filterMap_congr fun i hmem => ?_
  have hi : i ≤ index := by
    rw [List.mem_range'_1] at hmem
    omega
  rw [point_append more (by omega), point_append more (by omega)]

theorem trailing_vol_append {prices : List (PricePoint K)} {index : Nat} (window : Nat)
    (more : List (PricePoint K)) (hin : index < prices.length) :
    trailing_vol math (prices ++ more) index window = trailing_vol math prices index window := by
  unfold trailing_vol
  rw [window_returns_append math window more hin]

theorem first_touch_append {prices : List (PricePoint K)} (more : List (PricePoint K)) (p0 upper lower : K)
    {rows : List Nat} (hin : ∀ j ∈ rows, j < prices.length) :
    first_touch math (prices ++ more) p0 upper lower rows =
      first_touch math prices p0 upper lower rows := by
  induction rows with
  | nil => rfl
  | cons j rows ih =>
    have hrest := ih fun k hmem => hin k (List.mem_cons_of_mem j hmem)
    simp only [first_touch, point_append more (hin j List.mem_cons_self), hrest]

/-- Further prices do not change the label of a row whose horizon they are
past. -/
theorem LabelBuilder.label_at_append (b : LabelBuilder K) {prices : List (PricePoint K)} {i : Nat}
    (more : List (PricePoint K)) (hin : i + b.cfg.horizon < prices.length) :
    b.label_at math (prices ++ more) i = b.label_at math prices i := by
  have hnow : i < prices.length := by omega
  have hfirst : 0 < prices.length := by omega
  have hwithin : ¬ i + b.cfg.horizon ≥ prices.length := not_le.mpr hin
  have hwithin' : ¬ i + b.cfg.horizon ≥ (prices ++ more).length := by
    rw [List.length_append]
    omega
  have hwalk : ∀ j ∈ List.range' (i + 1) b.cfg.horizon, j < prices.length := by
    intro j hmem
    rw [List.mem_range'_1] at hmem
    omega
  unfold label_at
  simp only [hwithin, hwithin', if_false, point_append more hin, point_append more hnow,
    point_append more hfirst, trailing_vol_append math _ more hnow,
    first_touch_append math more _ _ _ hwalk]

/-- A row without a full horizon is not valid. -/
theorem LabelBuilder.lt_of_valid (b : LabelBuilder K) {prices : List (PricePoint K)} {i : Nat}
    (hvalid : (b.label_at math prices i).valid = true) : i + b.cfg.horizon < prices.length := by
  by_contra hshort
  rw [label_at, if_pos (by omega)] at hvalid
  cases hvalid

end Horizon

end ptl.labels
