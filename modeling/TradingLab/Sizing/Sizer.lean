import Mathlib.Algebra.Order.Field.Basic
import Mathlib.Tactic.FieldSimp
import TradingLab.Execution.Broker
import TradingLab.Signal.Signal

open ptl.signal ptl.execution

namespace ptl.sizing

inductive SizingMethod where
  | FixedShares
  | FixedDollar
  | PercentCapital
  | VolatilityTarget
  | RiskParity
  | Kelly
  | FractionalKelly
  deriving DecidableEq, Repr

structure ExposureLimits where
  max_gross_leverage : Rat := 2
  max_net_leverage : Rat := 1
  max_position_weight : Rat := 0.25
  max_sector_weight : Rat := 0.40
  max_position_notional : Notional := 500000
  deriving DecidableEq, Repr

structure SizingConfig where
  method : SizingMethod := .VolatilityTarget
  fixed_shares : Rat := 100
  fixed_dollar : Notional := 10000
  percent_capital : Rat := 0.02
  target_volatility : Rat := 0.10
  annualization_periods : Rat := 252 * 390
  kelly_fraction : Rat := 0.25
  kelly_cap : Rat := 0.20
  lot_size : Rat := 1
  limits : ExposureLimits := {}
  deriving DecidableEq, Repr

/-- Everything a sizer may see at one instant. A negative sector is no
    sector. -/
structure SizingContext where
  now : Timestamp := kNoTimestamp
  equity : Notional := 0
  reference_price : Price := 0
  volatility : Rat := 0
  current_position : Qty := 0
  sector : Int := -1
  existing_gross : Notional := 0
  existing_net : Notional := 0
  sector_exposure : Notional := 0
  deriving DecidableEq, Repr

structure SizingDecision where
  target_position : Qty := 0
  target_notional : Notional := 0
  raw_weight : Rat := 0
  final_weight : Rat := 0
  capped : Bool := false
  cap_reason : String := ""
  deriving DecidableEq, Repr

/-- `std::copysign`. -/
def copysign (magnitude sign : Rat) : Rat := if sign < 0 then -|magnitude| else |magnitude|

/-- `std::clamp`. -/
def clamp (v lo hi : Rat) : Rat := if v < lo then lo else if hi < v then hi else v

def kelly_weight (edge variance : Rat) : Rat :=
  if ¬ is_finite edge ∨ ¬ is_finite variance ∨ variance ≤ 0 then 0
  else
    let f := edge / variance
    if is_finite f then f else 0

def risk_parity_weight (volatility target_volatility : Rat) : Rat :=
  if ¬ is_finite volatility ∨ volatility ≤ 0 then 0
  else
    let w := target_volatility / volatility
    if is_finite w then w else 0

/-- A sizer, over the square root it annualises with. -/
structure PositionSizer where
  cfg : SizingConfig := {}
  sqrt : Rat → Rat

/-- The weight before limits, as a fraction of equity. -/
def PositionSizer.raw_weight_for (s : PositionSizer) (sig : Signal) (ctx : SizingContext) : Rat :=
  if ctx.equity ≤ 0 ∨ ctx.reference_price ≤ 0 then 0
  else
    let annual_vol := ctx.volatility * s.sqrt s.cfg.annualization_periods
    match s.cfg.method with
    | .FixedShares => s.cfg.fixed_shares * ctx.reference_price / ctx.equity
    | .FixedDollar => s.cfg.fixed_dollar / ctx.equity
    | .PercentCapital => s.cfg.percent_capital
    | .VolatilityTarget =>
      if ctx.volatility ≤ 0 then 0
      else if annual_vol ≤ 0 then 0
      else s.cfg.target_volatility / annual_vol
    | .RiskParity => risk_parity_weight annual_vol s.cfg.target_volatility
    | .Kelly | .FractionalKelly =>
      let full := kelly_weight sig.net_edge (annual_vol * annual_vol)
      let scaled := if s.cfg.method = .Kelly then full else full * s.cfg.kelly_fraction
      clamp scaled (-s.cfg.kelly_cap) s.cfg.kelly_cap

/-- A weight on its way through the limits, with the last that bound it. -/
structure Capping where
  weight : Rat
  capped : Bool := false
  cap_reason : String := ""
  deriving DecidableEq, Repr

def Capping.apply_cap (limit : Rat) (reason : String) (c : Capping) : Capping :=
  if |c.weight| > limit then { weight := copysign limit c.weight, capped := true, cap_reason := reason }
  else c

/-- The limits that do not depend on the side, most specific first. -/
def ExposureLimits.cap (l : ExposureLimits) (ctx : SizingContext) (weight : Rat) : Capping :=
  let c := Capping.apply_cap l.max_position_weight "max position weight" { weight }
  let c :=
    if l.max_position_notional > 0 then
      c.apply_cap (l.max_position_notional / ctx.equity) "max position notional"
    else c
  let c :=
    if ctx.sector ≥ 0 ∧ l.max_sector_weight > 0 then
      c.apply_cap (max 0 (l.max_sector_weight - |ctx.sector_exposure| / ctx.equity)) "max sector weight"
    else c
  if l.max_gross_leverage > 0 then
    c.apply_cap (max 0 (l.max_gross_leverage - |ctx.existing_gross| / ctx.equity)) "max gross leverage"
  else c

/-- The limit on the net, which the side counts for. -/
def ExposureLimits.cap_net (l : ExposureLimits) (ctx : SizingContext) (direction : Direction) (c : Capping) :
    Capping :=
  if l.max_net_leverage > 0 then
    let signed_weight := c.weight * (direction.sign_of : Rat)
    let projected_net := |ctx.existing_net / ctx.equity + signed_weight|
    if projected_net > l.max_net_leverage then
      c.apply_cap (max 0 (l.max_net_leverage - |ctx.existing_net / ctx.equity|)) "max net leverage"
    else c
  else c

/-- A weight within the limits as a position, rounded toward zero. -/
def PositionSizer.position (s : PositionSizer) (ctx : SizingContext) (direction : Direction)
    (raw_weight : Rat) (c : Capping) : Result SizingDecision :=
  let notional := c.weight * ctx.equity
  let shares := toLots s.cfg.lot_size (notional / ctx.reference_price * (direction.sign_of : Rat))
  if ¬ is_finite shares then .error (bad "computed share count is not finite")
  else
    .ok {
      target_position := shares
      target_notional := shares * ctx.reference_price
      raw_weight
      final_weight := c.weight
      capped := c.capped
      cap_reason := c.cap_reason }

/-- The target position of a signal, signed, never an increment. -/
def PositionSizer.size (s : PositionSizer) (sig : Signal) (ctx : SizingContext) : Result SizingDecision :=
  if ¬ is_set ctx.now then .error (bad "sizing context has no timestamp")
  else if ¬ is_finite ctx.equity then .error (bad "equity is not finite")
  else if ctx.reference_price ≤ 0 ∨ ¬ is_finite ctx.reference_price then
    .error (bad "sizing needs a positive reference price")
  else if sig.is_flat ∨ ¬ sig.is_actionable then .ok {}
  else if ctx.equity ≤ 0 then .ok { cap_reason := "no equity", capped := true }
  else
    let weight := s.raw_weight_for sig ctx
    let raw_weight := if is_finite weight then weight else 0
    s.position ctx sig.direction raw_weight
      (s.cfg.limits.cap_net ctx sig.direction (s.cfg.limits.cap ctx raw_weight))

/-! ### What the limits leave -/

theorem abs_copysign (magnitude sign : Rat) : |copysign magnitude sign| = |magnitude| := by
  unfold copysign
  split
  · rw [abs_neg, abs_abs]
  · rw [abs_abs]

namespace Capping

theorem apply_cap_le {limit : Rat} (hlimit : 0 ≤ limit) (reason : String) (c : Capping) :
    |(c.apply_cap limit reason).weight| ≤ limit := by
  unfold apply_cap
  split
  · dsimp only
    rw [abs_copysign, abs_of_nonneg hlimit]
  · exact not_lt.mp ‹_›

/-- A cap never enlarges a weight. -/
theorem apply_cap_shrinks {limit : Rat} (hlimit : 0 ≤ limit) (reason : String) (c : Capping) :
    |(c.apply_cap limit reason).weight| ≤ |c.weight| := by
  unfold apply_cap
  split
  · rename_i hbinds
    dsimp only
    rw [abs_copysign, abs_of_nonneg hlimit]
    exact hbinds.le
  · exact le_refl _

end Capping

/-- Limits that are all there. -/
structure ExposureLimits.Positive (l : ExposureLimits) : Prop where
  gross : 0 < l.max_gross_leverage
  net : 0 < l.max_net_leverage
  position_weight : 0 < l.max_position_weight
  sector_weight : 0 < l.max_sector_weight
  position_notional : 0 < l.max_position_notional

/-- A weight within the limits that do not depend on the side. -/
structure ExposureLimits.Admits (l : ExposureLimits) (ctx : SizingContext) (weight : Rat) : Prop where
  position_weight : |weight| ≤ l.max_position_weight
  position_notional : |weight| ≤ l.max_position_notional / ctx.equity
  sector : 0 ≤ ctx.sector → |weight| ≤ max 0 (l.max_sector_weight - |ctx.sector_exposure| / ctx.equity)
  gross : |weight| ≤ max 0 (l.max_gross_leverage - |ctx.existing_gross| / ctx.equity)

section Limits

variable {l : ExposureLimits} {ctx : SizingContext}

theorem ExposureLimits.Admits.of_smaller {weight weight' : Rat} (hadmits : l.Admits ctx weight)
    (hsmaller : |weight'| ≤ |weight|) : l.Admits ctx weight' :=
  ⟨hsmaller.trans hadmits.position_weight, hsmaller.trans hadmits.position_notional,
    fun hsector => hsmaller.trans (hadmits.sector hsector), hsmaller.trans hadmits.gross⟩

theorem ExposureLimits.cap_admits (hpositive : l.Positive) (hequity : 0 < ctx.equity) (weight : Rat) :
    l.Admits ctx (l.cap ctx weight).weight := by
  unfold ExposureLimits.cap
  dsimp only
  rw [if_pos hpositive.position_notional, if_pos hpositive.gross]
  have hnotional : 0 ≤ l.max_position_notional / ctx.equity :=
    div_nonneg hpositive.position_notional.le hequity.le
  have hroom : ∀ room : Rat, 0 ≤ max 0 room := fun room => le_max_left _ _
  generalize hfirst : Capping.apply_cap l.max_position_weight "max position weight" { weight } = c₁
  have hweight₁ : |c₁.weight| ≤ l.max_position_weight := by
    rw [← hfirst]
    exact Capping.apply_cap_le hpositive.position_weight.le _ _
  have hnotional₂ := Capping.apply_cap_le hnotional "max position notional" c₁
  have hshrinks₂ := Capping.apply_cap_shrinks hnotional "max position notional" c₁
  generalize c₁.apply_cap (l.max_position_notional / ctx.equity) "max position notional" = c₂ at hnotional₂ hshrinks₂
  generalize hthird : (if ctx.sector ≥ 0 ∧ l.max_sector_weight > 0 then
    c₂.apply_cap (max 0 (l.max_sector_weight - |ctx.sector_exposure| / ctx.equity)) "max sector weight"
    else c₂) = c₃
  have hshrinks₃ : |c₃.weight| ≤ |c₂.weight| := by
    rw [← hthird]
    split
    · exact Capping.apply_cap_shrinks (hroom _) _ _
    · exact le_refl _
  have hsector₃ : 0 ≤ ctx.sector →
      |c₃.weight| ≤ max 0 (l.max_sector_weight - |ctx.sector_exposure| / ctx.equity) := by
    intro hsector
    rw [← hthird, if_pos ⟨hsector, hpositive.sector_weight⟩]
    exact Capping.apply_cap_le (hroom _) _ _
  have hshrinks₄ := Capping.apply_cap_shrinks
    (hroom (l.max_gross_leverage - |ctx.existing_gross| / ctx.equity)) "max gross leverage" c₃
  refine ⟨?_, ?_, fun hsector => hshrinks₄.trans (hsector₃ hsector), Capping.apply_cap_le (hroom _) _ _⟩
  · exact hshrinks₄.trans (hshrinks₃.trans (hshrinks₂.trans hweight₁))
  · exact hshrinks₄.trans (hshrinks₃.trans hnotional₂)

theorem ExposureLimits.cap_net_shrinks (direction : Direction) (c : Capping) :
    |(l.cap_net ctx direction c).weight| ≤ |c.weight| := by
  unfold ExposureLimits.cap_net
  split
  · dsimp only
    split
    · exact Capping.apply_cap_shrinks (le_max_left _ _) _ _
    · exact le_refl _
  · exact le_refl _

/-- A net that is within its limit stays there. -/
theorem ExposureLimits.cap_net_admits (hpositive : l.Positive) {direction : Direction}
    (hsign : |(direction.sign_of : Rat)| = 1) (hwithin : |ctx.existing_net / ctx.equity| ≤ l.max_net_leverage)
    (c : Capping) :
    |ctx.existing_net / ctx.equity + (l.cap_net ctx direction c).weight * (direction.sign_of : Rat)| ≤
      l.max_net_leverage := by
  unfold ExposureLimits.cap_net
  rw [if_pos hpositive.net]
  dsimp only
  split
  · have hroom : max 0 (l.max_net_leverage - |ctx.existing_net / ctx.equity|) =
        l.max_net_leverage - |ctx.existing_net / ctx.equity| := max_eq_right (sub_nonneg.mpr hwithin)
    have hcapped := Capping.apply_cap_le (le_max_left 0 (l.max_net_leverage - |ctx.existing_net / ctx.equity|))
      "max net leverage" c
    rw [hroom] at hcapped ⊢
    generalize c.apply_cap (l.max_net_leverage - |ctx.existing_net / ctx.equity|) "max net leverage" = c' at hcapped ⊢
    calc |ctx.existing_net / ctx.equity + c'.weight * (direction.sign_of : Rat)|
        ≤ |ctx.existing_net / ctx.equity| + |c'.weight * (direction.sign_of : Rat)| := abs_add_le _ _
      _ = |ctx.existing_net / ctx.equity| + |c'.weight| := by rw [abs_mul, hsign, mul_one]
      _ ≤ l.max_net_leverage := by linarith
  · exact not_lt.mp ‹_›

/-- A decision within the limits of its context, in money. -/
structure SizingDecision.Within (d : SizingDecision) (l : ExposureLimits) (ctx : SizingContext) : Prop where
  notional_eq : d.target_notional = d.target_position * ctx.reference_price
  position_weight : |d.target_notional| ≤ l.max_position_weight * ctx.equity
  position_notional : |d.target_notional| ≤ l.max_position_notional
  sector : 0 ≤ ctx.sector →
    |d.target_notional| ≤ max 0 (l.max_sector_weight * ctx.equity - |ctx.sector_exposure|)
  gross : |d.target_notional| ≤ max 0 (l.max_gross_leverage * ctx.equity - |ctx.existing_gross|)
  net : |ctx.existing_net| ≤ l.max_net_leverage * ctx.equity →
    |ctx.existing_net + d.target_notional| ≤ l.max_net_leverage * ctx.equity

/-- To want nothing is within all limits. -/
theorem SizingDecision.within_of_flat (hpositive : l.Positive) (hequity : 0 < ctx.equity) {d : SizingDecision}
    (hposition : d.target_position = 0) (hnotional : d.target_notional = 0) : d.Within l ctx := by
  refine ⟨?_, ?_, ?_, fun _ => ?_, ?_, fun hnet => ?_⟩
  · rw [hposition, hnotional, zero_mul]
  · rw [hnotional, abs_zero]
    exact (mul_pos hpositive.position_weight hequity).le
  · rw [hnotional, abs_zero]
    exact hpositive.position_notional.le
  · rw [hnotional, abs_zero]
    exact le_max_left _ _
  · rw [hnotional, abs_zero]
    exact le_max_left _ _
  · rw [hnotional, add_zero]
    exact hnet

/-- Headroom as a fraction of equity, in money. -/
theorem headroom_mul {limit used equity : Rat} (hequity : 0 < equity) :
    max 0 (limit - |used| / equity) * equity = max 0 (limit * equity - |used|) := by
  rw [max_mul_of_nonneg _ _ hequity.le, zero_mul, sub_mul, div_mul_cancel₀ _ hequity.ne']

/-- Between a value within a bound and another, every value is. -/
theorem abs_le_of_between {x y z bound : Rat} (hx : |x| ≤ bound) (hy : |x + y| ≤ bound) (hbelow : min 0 y ≤ z)
    (habove : z ≤ max 0 y) : |x + z| ≤ bound := by
  rw [abs_le] at hx hy ⊢
  rcases le_total 0 y with hsign | hsign
  · rw [min_eq_left hsign] at hbelow
    rw [max_eq_right hsign] at habove
    constructor <;> linarith
  · rw [min_eq_right hsign] at hbelow
    rw [max_eq_left hsign] at habove
    constructor <;> linarith

/-- A weight within the limits makes a position within them. -/
theorem PositionSizer.position_within {s : PositionSizer} {direction : Direction} {raw_weight : Rat}
    {c : Capping} {d : SizingDecision} (hequity : 0 < ctx.equity) (hprice : 0 < ctx.reference_price)
    (hsign : |(direction.sign_of : Rat)| = 1) (hadmits : s.cfg.limits.Admits ctx c.weight)
    (hnet : |ctx.existing_net / ctx.equity| ≤ s.cfg.limits.max_net_leverage →
      |ctx.existing_net / ctx.equity + c.weight * (direction.sign_of : Rat)| ≤ s.cfg.limits.max_net_leverage)
    (hposition : s.position ctx direction raw_weight c = .ok d) : d.Within s.cfg.limits ctx := by
  unfold PositionSizer.position at hposition
  dsimp only at hposition
  rw [if_neg (by simp)] at hposition
  cases hposition
  -- The notional before rounding, which rounding only moves toward zero.
  have hwanted : c.weight * ctx.equity / ctx.reference_price * (direction.sign_of : Rat) *
      ctx.reference_price = c.weight * (direction.sign_of : Rat) * ctx.equity := by
    field_simp
  have hbelow := le_toLots s.cfg.lot_size (c.weight * ctx.equity / ctx.reference_price * (direction.sign_of : Rat))
  have habove := toLots_le s.cfg.lot_size (c.weight * ctx.equity / ctx.reference_price * (direction.sign_of : Rat))
  have hrounded := abs_toLots_le s.cfg.lot_size
    (c.weight * ctx.equity / ctx.reference_price * (direction.sign_of : Rat))
  generalize toLots s.cfg.lot_size (c.weight * ctx.equity / ctx.reference_price * (direction.sign_of : Rat)) =
    shares at hbelow habove hrounded ⊢
  have hsmaller : |shares * ctx.reference_price| ≤ |c.weight| * ctx.equity := by
    calc |shares * ctx.reference_price|
        ≤ |c.weight * ctx.equity / ctx.reference_price * (direction.sign_of : Rat) * ctx.reference_price| := by
          rw [abs_mul, abs_mul _ ctx.reference_price]
          exact mul_le_mul_of_nonneg_right hrounded (abs_nonneg _)
      _ = |c.weight| * ctx.equity := by
          rw [hwanted, abs_mul, abs_mul, hsign, mul_one, abs_of_pos hequity]
  have hscaled : ∀ {bound : Rat}, |c.weight| ≤ bound → |c.weight| * ctx.equity ≤ bound * ctx.equity :=
    fun hbound => mul_le_mul_of_nonneg_right hbound hequity.le
  refine ⟨rfl, ?_, ?_, fun hsector => ?_, ?_, fun hwithin => ?_⟩
  · exact hsmaller.trans (hscaled hadmits.position_weight)
  · refine hsmaller.trans ((hscaled hadmits.position_notional).trans (le_of_eq ?_))
    exact div_mul_cancel₀ _ hequity.ne'
  · refine hsmaller.trans ((hscaled (hadmits.sector hsector)).trans (le_of_eq ?_))
    exact headroom_mul hequity
  · refine hsmaller.trans ((hscaled hadmits.gross).trans (le_of_eq ?_))
    exact headroom_mul hequity
  · have hfraction : |ctx.existing_net / ctx.equity| ≤ s.cfg.limits.max_net_leverage := by
      rw [abs_div, abs_of_pos hequity, div_le_iff₀ hequity]
      exact hwithin
    have hprojected : |ctx.existing_net + c.weight * (direction.sign_of : Rat) * ctx.equity| ≤
        s.cfg.limits.max_net_leverage * ctx.equity := by
      have hfactored : ctx.existing_net + c.weight * (direction.sign_of : Rat) * ctx.equity =
          (ctx.existing_net / ctx.equity + c.weight * (direction.sign_of : Rat)) * ctx.equity := by
        rw [add_mul, div_mul_cancel₀ _ hequity.ne']
      rw [hfactored, abs_mul, abs_of_pos hequity]
      exact mul_le_mul_of_nonneg_right (hnet hfraction) hequity.le
    refine abs_le_of_between hwithin hprojected ?_ ?_
    · have hscaled := mul_le_mul_of_nonneg_right hbelow hprice.le
      rwa [min_mul_of_nonneg _ _ hprice.le, zero_mul, hwanted] at hscaled
    · have hscaled := mul_le_mul_of_nonneg_right habove hprice.le
      rwa [max_mul_of_nonneg _ _ hprice.le, zero_mul, hwanted] at hscaled

/-- Every decision of the sizer is within its limits. -/
theorem PositionSizer.size_within {s : PositionSizer} {sig : Signal} {d : SizingDecision}
    (hpositive : s.cfg.limits.Positive) (hequity : 0 < ctx.equity) (hsize : s.size sig ctx = .ok d) :
    d.Within s.cfg.limits ctx := by
  unfold PositionSizer.size at hsize
  split at hsize
  · cases hsize
  · split at hsize
    · cases hsize
    · split at hsize
      · cases hsize
      · rename_i hpriced
        split at hsize
        · cases hsize
          exact SizingDecision.within_of_flat hpositive hequity rfl rfl
        · rename_i hacts
          split at hsize
          · cases hsize
            exact SizingDecision.within_of_flat hpositive hequity rfl rfl
          · have hprice : 0 < ctx.reference_price := not_le.mp fun hnot => hpriced (.inl hnot)
            have hactionable : sig.is_actionable = true := not_not.mp fun hnot => hacts (.inr hnot)
            have hsign := sig.abs_sign hactionable
            refine PositionSizer.position_within hequity hprice hsign ?_ (fun hwithin => ?_) hsize
            · exact (ExposureLimits.cap_admits hpositive hequity _).of_smaller
                (ExposureLimits.cap_net_shrinks _ _)
            · exact ExposureLimits.cap_net_admits hpositive hsign hwithin _

end Limits

end ptl.sizing
