import Mathlib.Tactic.FieldSimp
import TradingLab.Optimization.Constraints
import TradingLab.Weights

open Weights

namespace ptl.optimization

theorem gross_of_eq (w : List Rat) : gross_of w = gross w := rfl

theorem sector_gross_eq (sectors : List Int) (sector : Int) (w : List Rat) :
    sector_gross sectors sector w = gross (tagged sectors sector w) := by
  rw [sector_gross, gross, tagged, List.map_zipWith]
  congr 2
  funext s x
  split
  · rfl
  · rw [abs_zero]

/-- Scaling a sector scales its gross. -/
theorem sector_gross_scaled {f : Int → Rat → Rat} {sector : Int} {a : Rat} (ha : 0 ≤ a)
    (hf : ∀ x, f sector x = x * a) (sectors : List Int) (w : List Rat) :
    sector_gross sectors sector (List.zipWith f sectors w) = sector_gross sectors sector w * a := by
  induction sectors generalizing w with
  | nil => simp [sector_gross]
  | cons s sectors ih =>
    cases w with
    | nil => simp [sector_gross]
    | cons x w =>
      have hrest := ih w
      simp only [sector_gross, List.zipWith_cons_cons, List.sum_cons] at hrest ⊢
      rw [hrest]
      split
      · rename_i hsame
        rw [hsame, hf, abs_mul, abs_of_nonneg ha]
        ring
      · ring

/-- A smaller magnitude with the same sign. -/
theorem copysign_between {magnitude x : Rat} (hmagnitude : 0 ≤ magnitude) (hle : magnitude ≤ |x|) :
    min x 0 ≤ copysign magnitude x ∧ copysign magnitude x ≤ max x 0 := by
  unfold copysign
  rw [abs_of_nonneg hmagnitude]
  split
  · rename_i hnegative
    rw [abs_of_neg hnegative] at hle
    rw [min_eq_left hnegative.le, max_eq_right hnegative.le]
    constructor <;> linarith
  · rename_i hpositive
    rw [abs_of_nonneg (not_lt.mp hpositive)] at hle
    rw [min_eq_right (not_lt.mp hpositive), max_eq_left (not_lt.mp hpositive)]
    constructor <;> linarith

/-- What validation has checked. -/
structure ConstraintSet.Valid (c : ConstraintSet) : Prop where
  max_position_pos : 0 < c.max_position
  ordered : c.min_position ≤ c.max_position
  long_only : c.direction = .LongOnly → 0 ≤ c.min_position
  max_gross_pos : 0 < c.max_gross_leverage
  max_net_nonneg : 0 ≤ c.max_net_leverage
  reserve : 0 ≤ c.cash_reserve ∧ c.cash_reserve < 1
  concentration : 0 < c.max_concentration ∧ c.max_concentration ≤ 1
  max_sector_pos : 0 < c.max_sector_exposure

theorem ConstraintSet.valid_of_validate {c : ConstraintSet} (hvalid : c.validate = .ok ()) : c.Valid := by
  unfold ConstraintSet.validate at hvalid
  simp only [is_finite_eq_true, not_true_eq_false, false_or, or_false] at hvalid
  split at hvalid
  · cases hvalid
  split at hvalid
  · cases hvalid
  split at hvalid
  · cases hvalid
  split at hvalid
  · cases hvalid
  split at hvalid
  · cases hvalid
  split at hvalid
  · cases hvalid
  split at hvalid
  · cases hvalid
  split at hvalid
  · cases hvalid
  rename_i hposition hordered hlong hgross hnet hreserve hconcentration hsector
  exact {
    max_position_pos := not_le.mp hposition
    ordered := not_lt.mp hordered
    long_only := fun hdirection => not_lt.mp fun hnegative => hlong ⟨hdirection, hnegative⟩
    max_gross_pos := not_le.mp hgross
    max_net_nonneg := not_lt.mp hnet
    reserve := ⟨not_lt.mp fun h => hreserve (.inl h), not_le.mp fun h => hreserve (.inr h)⟩
    concentration := ⟨not_le.mp fun h => hconcentration (.inl h), not_lt.mp fun h => hconcentration (.inr h)⟩
    max_sector_pos := not_le.mp hsector }

theorem ConstraintSet.Valid.gross_budget_pos {c : ConstraintSet} (hvalid : c.Valid) : 0 < c.gross_budget :=
  mul_pos hvalid.max_gross_pos (sub_pos.mpr hvalid.reserve.2)

namespace ConstraintProjector

variable (p : ConstraintProjector) (input : OptimizationInput)

/-! ### Limits -/

/-- Every weight is within the position bounds. -/
def InBounds (tolerance : Rat) (w : List Rat) : Prop :=
  ∀ x ∈ w, p.constraints.min_position - tolerance ≤ x ∧ x ≤ p.constraints.max_position + tolerance

/-- No sector is over its cap. -/
def SectorsCapped (tolerance : Rat) (w : List Rat) : Prop :=
  input.sectors = [] ∨ input.sectors.length ≠ w.length ∨
    ∀ sector ∈ input.sectors, sector < 0 ∨
      sector_gross input.sectors sector w ≤ p.constraints.max_sector_exposure + tolerance

structure Meets (tolerance : Rat) (w : List Rat) : Prop where
  sized : w.length = input.size
  bounds : p.InBounds tolerance w
  gross_le : gross w ≤ p.constraints.gross_budget + tolerance
  net_le : |net_of w| ≤ p.constraints.max_net_leverage + tolerance
  sectors : p.SectorsCapped input tolerance w

variable {p input}

theorem meets_of_feasible {tolerance : Rat} {w : List Rat} (hfeasible : p.feasible input w tolerance = true) :
    p.Meets input tolerance w := by
  simp only [feasible, Bool.and_eq_true, decide_eq_true_eq, List.all_eq_true, is_finite_eq_true, true_and,
    Bool.or_eq_true] at hfeasible
  obtain ⟨⟨⟨⟨hsized, hbounds⟩, hgross⟩, hnet⟩, hsectors⟩ := hfeasible
  refine ⟨hsized, fun x hx => ⟨(hbounds x hx).1.2, (hbounds x hx).1.1⟩, hgross, hnet, ?_⟩
  exact or_assoc.mp hsectors

theorem Meets.feasible (hvalid : p.constraints.Valid) {tolerance : Rat} {w : List Rat}
    (hmeets : p.Meets input tolerance w) : p.feasible input w tolerance = true := by
  simp only [ConstraintProjector.feasible, Bool.and_eq_true, decide_eq_true_eq, List.all_eq_true,
    is_finite_eq_true, true_and, Bool.or_eq_true]
  refine ⟨⟨⟨⟨hmeets.sized, fun x hx => ⟨⟨(hmeets.bounds x hx).2, (hmeets.bounds x hx).1⟩, ?_⟩⟩, hmeets.gross_le⟩,
    hmeets.net_le⟩, or_assoc.mpr hmeets.sectors⟩
  rintro ⟨hlong, hnegative⟩
  have hfloor := hvalid.long_only hlong
  have hlow := (hmeets.bounds x hx).1
  linarith

theorem SectorsCapped.shrinks {tolerance : Rat} {w w' : List Rat} (hcapped : p.SectorsCapped input tolerance w)
    (hshrinks : Shrinks w w') : p.SectorsCapped input tolerance w' := by
  rcases hcapped with hnone | hlength | hcapped
  · exact .inl hnone
  · rw [← hshrinks.length_eq] at hlength
    exact .inr (.inl hlength)
  · refine .inr (.inr fun sector hsector => (hcapped sector hsector).imp_right fun hle => ?_)
    rw [sector_gross_eq] at hle ⊢
    exact (hshrinks.tagged input.sectors sector).gross_le.trans hle

theorem SectorsCapped.blend {tolerance α : Rat} (hα : 0 ≤ α ∧ α ≤ 1) {c w : List Rat} (hlength : c.length = w.length)
    (hc : p.SectorsCapped input tolerance c) (hw : p.SectorsCapped input tolerance w) :
    p.SectorsCapped input tolerance (blend α c w) := by
  have hblend : (Weights.blend α c w).length = w.length := length_blend hlength
  rcases hw with hnone | hother | hw
  · exact .inl hnone
  · rw [← hblend] at hother
    exact .inr (.inl hother)
  rcases hc with hnone | hother | hc
  · exact .inl hnone
  · rw [hlength, ← hblend] at hother
    exact .inr (.inl hother)
  refine .inr (.inr fun sector hsector => ?_)
  rcases hw sector hsector with hungrouped | hle
  · exact .inl hungrouped
  rcases hc sector hsector with hungrouped | hle'
  · exact .inl hungrouped
  right
  rw [sector_gross_eq] at hle hle' ⊢
  rw [tagged_blend]
  refine gross_blend_le_of_le hα ?_ hle' hle
  rw [tagged, tagged, List.length_zipWith, List.length_zipWith, hlength]

/-! ### What each step establishes -/

section Steps

/-- A step that applies on a condition keeps the length if it does where it
applies. -/
theorem length_of_step {applies : Prop} [Decidable applies] {w : List Rat} {out : List Rat × List String}
    (hout : applies → out.1.length = w.length) : (if applies then out else (w, [])).1.length = w.length := by
  split
  · exact hout ‹_›
  · rfl

/-- It shrinks the weights if it does where it applies. -/
theorem shrinks_of_step {applies : Prop} [Decidable applies] {w : List Rat} {out : List Rat × List String}
    (hout : applies → Shrinks w out.1) : Shrinks w (if applies then out else (w, [])).1 := by
  split
  · exact hout ‹_›
  · exact .refl w

variable (p input) (w : List Rat)

theorem length_direction_step : (p.direction_step w).1.length = w.length :=
  length_of_step fun _ => List.length_map _

theorem length_bounds_step : (p.bounds_step w).1.length = w.length := List.length_map _

theorem length_min_trade_step : (p.min_trade_step w).1.length = w.length :=
  length_of_step fun _ => List.length_map _

theorem length_sector_step : (p.sector_step input w).1.length = w.length :=
  length_of_step fun happlies => by rw [List.length_zipWith, happlies.2, Nat.min_self]

theorem length_dollar_step : (p.dollar_step w).1.length = w.length := length_of_step fun _ => List.length_map _

theorem length_beta_step : (p.beta_step input w).1.length = w.length :=
  length_of_step fun happlies => by rw [List.length_zipWith, happlies.2.1, Nat.min_self]

theorem length_gross_step : (p.gross_step w).1.length = w.length := length_of_step fun _ => List.length_map _

theorem length_net_step : (p.net_step w).1.length = w.length := length_of_step fun _ => List.length_map _

theorem length_concentration_step : (p.concentration_step w).1.length = w.length :=
  length_of_step fun _ => List.length_map _

theorem length_turnover_step : (p.turnover_step input w).1.length = w.length :=
  length_of_step fun happlies => by rw [List.length_zipWith, happlies.2.1, Nat.min_self]

variable {p input w}

theorem bounds_step_inBounds (hvalid : p.constraints.Valid) {tolerance : Rat} (htolerance : 0 ≤ tolerance) :
    p.InBounds tolerance (p.bounds_step w).1 := by
  intro y hy
  obtain ⟨x, -, rfl⟩ := List.mem_map.mp hy
  have hordered := hvalid.ordered
  have hcapped : p.capped x ≤ p.constraints.max_position := by
    unfold capped
    split
    · exact le_rfl
    · exact not_lt.mp ‹_›
  split
  · constructor <;> linarith
  · rename_i hfloor
    have hlow := not_lt.mp hfloor
    constructor <;> linarith

/-- The factor an overweight sector is scaled by. -/
theorem sector_scale_between (hvalid : p.constraints.Valid) {sector : Int}
    (hover : p.sector_over input w sector = true) :
    0 ≤ p.constraints.max_sector_exposure / sector_gross input.sectors sector w ∧
      p.constraints.max_sector_exposure / sector_gross input.sectors sector w ≤ 1 := by
  obtain ⟨-, hgross, hpos⟩ := of_decide_eq_true hover
  exact ⟨div_nonneg hvalid.max_sector_pos.le hpos.le, (div_le_one hpos).mpr hgross.le⟩

theorem sector_step_capped (hvalid : p.constraints.Valid) {tolerance : Rat} (htolerance : 0 ≤ tolerance) :
    p.SectorsCapped input tolerance (p.sector_step input w).1 := by
  unfold sector_step
  split
  · refine .inr (.inr fun sector _ => ?_)
    by_cases hover : p.sector_over input w sector = true
    · obtain ⟨-, -, hpos⟩ := of_decide_eq_true hover
      refine .inr ?_
      rw [sector_gross_scaled (sector_scale_between hvalid hover).1 (fun x => by rw [if_pos hover]),
        mul_div_cancel₀ _ hpos.ne']
      linarith
    · have hunder : ¬ (0 ≤ sector ∧ p.constraints.max_sector_exposure < sector_gross input.sectors sector w ∧
          0 < sector_gross input.sectors sector w) := fun h => hover (decide_eq_true h)
      rcases lt_or_ge sector 0 with hungrouped | hgrouped
      · exact .inl hungrouped
      · refine .inr ?_
        rw [sector_gross_scaled zero_le_one (fun x => by rw [if_neg hover, mul_one]), mul_one]
        by_contra hbeyond
        have hcap := hvalid.max_sector_pos
        refine hunder ⟨hgrouped, ?_, ?_⟩ <;> linarith
  · rename_i hidle
    by_cases hnone : input.sectors = []
    · exact .inl hnone
    · exact .inr (.inl fun hlength => hidle ⟨hnone, hlength⟩)

theorem gross_step_shrinks (hvalid : p.constraints.Valid) : Shrinks w (p.gross_step w).1 := by
  have hbudget := hvalid.gross_budget_pos
  refine shrinks_of_step fun hover => shrinks_map (scaled_between ⟨div_nonneg hbudget.le hover.2.le, ?_⟩) w
  exact (div_le_one hover.2).mpr hover.1.le

theorem gross_step_le (hvalid : p.constraints.Valid) : gross (p.gross_step w).1 ≤ p.constraints.gross_budget := by
  have hbudget := hvalid.gross_budget_pos
  unfold gross_step
  split
  · rename_i hover
    rw [gross_scaled (div_nonneg hbudget.le hover.2.le), ← gross_of_eq, mul_div_cancel₀ _ hover.2.ne']
  · rename_i hidle
    by_contra hbeyond
    rw [← gross_of_eq] at hbeyond
    refine hidle ⟨not_le.mp hbeyond, ?_⟩
    linarith

theorem net_of_shifted (a : Rat) (w : List Rat) : net_of (w.map fun x => x - a) = net_of w - w.length * a := by
  induction w with
  | nil => simp [net_of]
  | cons x w ih =>
    simp only [net_of] at ih ⊢
    rw [List.map_cons, List.sum_cons, List.sum_cons, ih, List.length_cons]
    push_cast
    ring

/-- The shift leaves just the net there may be. -/
theorem net_step_le (hvalid : p.constraints.Valid) (hsome : w ≠ []) :
    |net_of (p.net_step w).1| ≤ p.constraints.max_net_leverage := by
  unfold net_step
  dsimp only
  split
  · rename_i hover
    have hlength : (w.length : Rat) ≠ 0 := Nat.cast_ne_zero.mpr (List.length_pos_iff.mpr hsome).ne'
    have hexcess : 0 ≤ (|net_of w| - p.constraints.max_net_leverage) / w.length :=
      div_nonneg (sub_nonneg.mpr hover.le) (Nat.cast_nonneg _)
    rw [net_of_shifted, copysign, abs_of_nonneg hexcess]
    have hmax := hvalid.max_net_nonneg
    split
    · rename_i hnegative
      rw [abs_of_neg hnegative]
      have hshifted : net_of w - w.length * -((-net_of w - p.constraints.max_net_leverage) / w.length) =
          -p.constraints.max_net_leverage := by
        field_simp
        ring
      rw [hshifted, abs_neg, abs_of_nonneg hmax]
    · rename_i hpositive
      rw [abs_of_nonneg (not_lt.mp hpositive)]
      have hshifted : net_of w - w.length * ((net_of w - p.constraints.max_net_leverage) / w.length) =
          p.constraints.max_net_leverage := by
        field_simp
        ring
      rw [hshifted, abs_of_nonneg hmax]
  · exact not_lt.mp ‹_›

/-- A weight over its share is cut to it. -/
theorem concentration_step_shrinks (hvalid : p.constraints.Valid) : Shrinks w (p.concentration_step w).1 := by
  refine shrinks_of_step fun happlies => shrinks_map (fun x => ?_) w
  have hcap : 0 ≤ p.constraints.max_concentration * gross_of w :=
    mul_nonneg hvalid.concentration.1.le happlies.1.le
  split
  · exact copysign_between hcap (le_of_lt ‹_›)
  · exact ⟨min_le_left _ _, le_max_left _ _⟩

/-- On the way from weights that meet the limits to others that do, they are
met. -/
theorem turnover_step_meets {tolerance : Rat} (hmeets : p.Meets input tolerance w)
    (hcurrent : input.current_weights.length = w.length → p.Meets input tolerance input.current_weights) :
    p.Meets input tolerance (p.turnover_step input w).1 := by
  unfold turnover_step
  dsimp only
  split
  · rename_i happlies
    obtain ⟨hlimit, hlength, hover, hpos⟩ := happlies
    have hα : 0 ≤ p.constraints.max_turnover / (List.zipWith (fun x c => |x - c|) w input.current_weights).sum ∧
        p.constraints.max_turnover / (List.zipWith (fun x c => |x - c|) w input.current_weights).sum ≤ 1 :=
      ⟨div_nonneg hlimit.le hpos.le, (div_le_one hpos).mpr hover.le⟩
    have hheld := hcurrent hlength
    refine ⟨?_, blend_within hα hheld.bounds hmeets.bounds, ?_, ?_, ?_⟩
    · exact (length_blend hlength).trans hmeets.sized
    · exact gross_blend_le_of_le hα hlength hheld.gross_le hmeets.gross_le
    · exact abs_sum_blend_le_of_le hα hlength hheld.net_le hmeets.net_le
    · exact hheld.sectors.blend hα hlength hmeets.sectors
  · exact hmeets

end Steps

/-! ### A pass -/

section Pass

variable (p input) (u : List Rat)

/-- After the position bounds. -/
def bounded : List Rat := (p.bounds_step (p.direction_step u).1).1

/-- After the smallest trades are dropped and the sectors scaled. -/
def cut : List Rat := (p.sector_step input (p.min_trade_step (p.bounded u)).1).1

/-- After the shifts to neutrality. -/
def neutralised : List Rat := (p.beta_step input (p.dollar_step (p.cut input u)).1).1

/-- After the gross leverage. -/
def levered : List Rat := (p.gross_step (p.neutralised input u)).1

/-- After the net leverage. -/
def netted : List Rat := (p.net_step (p.levered input u)).1

def concentrated : List Rat := (p.concentration_step (p.netted input u)).1

/-- After the whole pass. -/
def moved : List Rat := (p.turnover_step input (p.concentrated input u)).1

/-- No step of a pass that changes the weights breaks a limit that a step before
it established. -/
structure Keeps (tolerance : Rat) : Prop where
  after_sectors : p.cut input u ≠ p.bounded u → p.InBounds tolerance (p.cut input u)
  after_neutrality : p.neutralised input u ≠ p.cut input u →
    p.InBounds tolerance (p.neutralised input u) ∧ p.SectorsCapped input tolerance (p.neutralised input u)
  after_gross : p.levered input u ≠ p.neutralised input u → p.InBounds tolerance (p.levered input u)
  after_net : p.netted input u ≠ p.levered input u →
    p.InBounds tolerance (p.netted input u) ∧ p.SectorsCapped input tolerance (p.netted input u) ∧
      gross_of (p.netted input u) ≤ p.constraints.gross_budget + tolerance
  after_concentration : p.concentrated input u ≠ p.netted input u →
    p.InBounds tolerance (p.concentrated input u) ∧
      |net_of (p.concentrated input u)| ≤ p.constraints.max_net_leverage + tolerance

theorem pass_fst (binding : List String) : (p.pass input (u, binding)).1 = p.moved input u := rfl

theorem length_levered : (p.levered input u).length = u.length := by
  rw [levered, length_gross_step, neutralised, length_beta_step, length_dollar_step, cut, length_sector_step,
    length_min_trade_step, bounded, length_bounds_step, length_direction_step]

theorem length_moved : (p.moved input u).length = u.length := by
  rw [moved, length_turnover_step, concentrated, length_concentration_step, netted, length_net_step, length_levered]

variable {p input u}

theorem Keeps.meets (hvalid : p.constraints.Valid) {tolerance : Rat} (htolerance : 0 ≤ tolerance)
    (hsome : u ≠ []) (hsized : u.length = input.size) (hkeeps : p.Keeps input u tolerance)
    (hcurrent : input.current_weights.length = u.length → p.Meets input tolerance input.current_weights) :
    p.Meets input tolerance (p.moved input u) := by
  have hcut : p.InBounds tolerance (p.cut input u) := by
    by_cases hsame : p.cut input u = p.bounded u
    · rw [hsame]
      exact bounds_step_inBounds hvalid htolerance
    · exact hkeeps.after_sectors hsame
  have hneutralised : p.InBounds tolerance (p.neutralised input u) ∧
      p.SectorsCapped input tolerance (p.neutralised input u) := by
    by_cases hsame : p.neutralised input u = p.cut input u
    · rw [hsame]
      exact ⟨hcut, sector_step_capped hvalid htolerance⟩
    · exact hkeeps.after_neutrality hsame
  have hlevered : p.InBounds tolerance (p.levered input u) := by
    by_cases hsame : p.levered input u = p.neutralised input u
    · rw [hsame]
      exact hneutralised.1
    · exact hkeeps.after_gross hsame
  have hgross : gross (p.levered input u) ≤ p.constraints.gross_budget + tolerance :=
    (gross_step_le hvalid).trans (le_add_of_nonneg_right htolerance)
  have hnetted : p.InBounds tolerance (p.netted input u) ∧ p.SectorsCapped input tolerance (p.netted input u) ∧
      gross (p.netted input u) ≤ p.constraints.gross_budget + tolerance := by
    by_cases hsame : p.netted input u = p.levered input u
    · rw [hsame]
      exact ⟨hlevered, hneutralised.2.shrinks (gross_step_shrinks hvalid), hgross⟩
    · exact hkeeps.after_net hsame
  have hlength : (p.netted input u).length = u.length := by rw [netted, length_net_step, length_levered]
  have hshrinks : Shrinks (p.netted input u) (p.concentrated input u) := concentration_step_shrinks hvalid
  have hconcentrated : p.InBounds tolerance (p.concentrated input u) ∧
      |net_of (p.concentrated input u)| ≤ p.constraints.max_net_leverage + tolerance := by
    by_cases hsame : p.concentrated input u = p.netted input u
    · rw [hsame]
      refine ⟨hnetted.1, (net_step_le hvalid fun hnone => hsome ?_).trans (le_add_of_nonneg_right htolerance)⟩
      rw [← List.length_eq_zero_iff, ← p.length_levered input u, hnone, List.length_nil]
    · exact hkeeps.after_concentration hsame
  have hmeets : p.Meets input tolerance (p.concentrated input u) := {
    sized := by rw [hshrinks.length_eq, hlength, hsized]
    bounds := hconcentrated.1
    gross_le := hshrinks.gross_le.trans hnetted.2.2
    net_le := hconcentrated.2
    sectors := hnetted.2.1.shrinks hshrinks }
  refine turnover_step_meets hmeets fun hsame => hcurrent ?_
  rw [hsame, hshrinks.length_eq, hlength]

end Pass

/-! ### The projection -/

section Project

variable (p input)

/-- The weights the last pass of the loop starts from. -/
def lastStart : Nat → List Rat → List Rat
  | 0, w => w
  | remaining + 1, w =>
    if converged w (p.moved input w) ∨ remaining = 0 then w else lastStart remaining (p.moved input w)

variable {p input}

/-- The loop ends with a pass from there. -/
theorem passes_fst (remaining : Nat) (w : List Rat) (binding : List String) :
    (p.passes input (remaining + 1) (w, binding)).1 = p.moved input (p.lastStart input (remaining + 1) w) := by
  induction remaining generalizing w binding with
  | zero =>
    rw [lastStart, if_pos (.inr rfl), passes]
    dsimp only
    split <;> rfl
  | succ remaining ih =>
    rw [lastStart, passes]
    dsimp only
    rw [pass_fst]
    by_cases hdone : converged w (p.moved input w) = true
    · rw [if_pos hdone, if_pos (.inl hdone), pass_fst]
    · rw [if_neg hdone, if_neg (not_or.mpr ⟨hdone, Nat.succ_ne_zero remaining⟩)]
      exact ih (p.moved input w) (p.pass input (w, binding)).2

theorem length_lastStart (remaining : Nat) (w : List Rat) : (p.lastStart input remaining w).length = w.length := by
  induction remaining generalizing w with
  | zero => rfl
  | succ remaining ih =>
    unfold lastStart
    split
    · rfl
    · rw [ih, length_moved]

/-- A projection of weights ends with a pass over them. -/
theorem project_ok {weights : List Rat} {binding : List String} {projected : List Rat × List String}
    (hproject : p.project input weights binding = .ok projected) :
    p.constraints.Valid ∧ (weights = [] ∧ projected.1 = [] ∨
      weights ≠ [] ∧ weights.length = input.size ∧
        projected.1 = p.moved input (p.lastStart input kMaxPasses weights)) := by
  unfold project at hproject
  split at hproject
  · cases hproject
  · rename_i hvalid
    refine ⟨ConstraintSet.valid_of_validate hvalid, ?_⟩
    split at hproject
    · rename_i hnone
      cases hproject
      exact .inl ⟨hnone, hnone⟩
    · rename_i hsome
      split at hproject
      · cases hproject
      · rename_i hlength
        cases hproject
        refine .inr ⟨hsome, not_not.mp hlength, ?_⟩
        simp only [is_finite_eq_true, if_true, List.map_id']
        exact passes_fst _ weights binding

/-- Where the last pass keeps what it establishes, the projection is feasible. -/
theorem project_feasible_of_keeps {weights : List Rat} {binding : List String} {projected : List Rat × List String}
    {tolerance : Rat} (htolerance : 0 ≤ tolerance) (hproject : p.project input weights binding = .ok projected)
    (hcurrent : input.current_weights = [] ∨ p.feasible input input.current_weights tolerance = true)
    (hsized : weights = [] → input.size = 0)
    (hkeeps : weights ≠ [] → p.Keeps input (p.lastStart input kMaxPasses weights) tolerance) :
    p.feasible input projected.1 tolerance = true := by
  obtain ⟨hvalid, ⟨hnone, hempty⟩ | ⟨hsome, hlength, hmoved⟩⟩ := project_ok hproject
  · have hmeets : p.Meets input tolerance [] := {
      sized := (hsized hnone).symm
      bounds := nofun
      gross_le := add_nonneg hvalid.gross_budget_pos.le htolerance
      net_le := by
        rw [net_of, List.sum_nil, abs_zero]
        exact add_nonneg hvalid.max_net_nonneg htolerance
      sectors := by
        refine .inr (.inr fun sector _ => .inr ?_)
        rw [sector_gross_eq, tagged, List.zipWith_nil_right]
        exact add_nonneg hvalid.max_sector_pos.le htolerance }
    rw [hempty]
    exact hmeets.feasible hvalid
  · have hstart : (p.lastStart input kMaxPasses weights).length = weights.length := length_lastStart _ _
    have hnonempty : p.lastStart input kMaxPasses weights ≠ [] := by
      rwa [← List.length_pos_iff, hstart, List.length_pos_iff]
    rw [hmoved]
    refine ((hkeeps hsome).meets hvalid htolerance hnonempty (hstart.trans hlength) fun hsame => ?_).feasible hvalid
    rcases hcurrent with hfresh | hfeasible
    · rw [hfresh, List.length_nil, eq_comm, List.length_eq_zero_iff] at hsame
      exact absurd hsame hnonempty
    · exact meets_of_feasible hfeasible

theorem complete_ok {cfg : OptimizerConfig} {weights : List Rat} {status : OptimizationStatus}
    {result : OptimizationResult} (hcomplete : complete cfg weights input status = .ok result) :
    ∃ projected, (mk cfg.constraints).project input weights = .ok projected ∧ result.weights = projected.1 := by
  unfold complete at hcomplete
  split at hcomplete
  · cases hcomplete
  · rename_i projected hproject
    split at hcomplete
    · cases hcomplete
    · cases hcomplete
      exact ⟨projected, hproject, rfl⟩

end Project

/-! ### A pair made neutral, and a book that is not long only -/

section Examples

variable (p input)

instance (tolerance : Rat) (w : List Rat) : Decidable (p.InBounds tolerance w) :=
  inferInstanceAs (Decidable (∀ x ∈ w, p.constraints.min_position - tolerance ≤ x ∧
    x ≤ p.constraints.max_position + tolerance))

instance (tolerance : Rat) (w : List Rat) : Decidable (p.SectorsCapped input tolerance w) :=
  inferInstanceAs (Decidable (input.sectors = [] ∨ input.sectors.length ≠ w.length ∨
    ∀ sector ∈ input.sectors, sector < 0 ∨
      sector_gross input.sectors sector w ≤ p.constraints.max_sector_exposure + tolerance))

instance (u : List Rat) (tolerance : Rat) : Decidable (p.Keeps input u tolerance) :=
  decidable_of_iff
    ((p.cut input u ≠ p.bounded u → p.InBounds tolerance (p.cut input u)) ∧
      (p.neutralised input u ≠ p.cut input u →
        p.InBounds tolerance (p.neutralised input u) ∧ p.SectorsCapped input tolerance (p.neutralised input u)) ∧
      (p.levered input u ≠ p.neutralised input u → p.InBounds tolerance (p.levered input u)) ∧
      (p.netted input u ≠ p.levered input u →
        p.InBounds tolerance (p.netted input u) ∧ p.SectorsCapped input tolerance (p.netted input u) ∧
          gross_of (p.netted input u) ≤ p.constraints.gross_budget + tolerance) ∧
      (p.concentrated input u ≠ p.netted input u →
        p.InBounds tolerance (p.concentrated input u) ∧
          |net_of (p.concentrated input u)| ≤ p.constraints.max_net_leverage + tolerance))
    ⟨fun h => ⟨h.1, h.2.1, h.2.2.1, h.2.2.2.1, h.2.2.2.2⟩, fun h => ⟨h.after_sectors, h.after_neutrality,
      h.after_gross, h.after_net, h.after_concentration⟩⟩

/-- Two names of one sector, and nothing held. -/
def pair : OptimizationInput where
  instruments := [0, 1]
  current_weights := [0, 0]
  sectors := [0, 0]

def neutralBook : ConstraintProjector where
  constraints := {
    direction := .DollarNeutral
    max_position := 1 / 2
    min_position := -1 / 2 }

/-- A long-only book whose net leverage is tighter than its gross budget. -/
def tightBook : ConstraintProjector where
  constraints := {
    direction := .LongOnly
    max_position := 1 / 2
    min_position := 0
    max_net_leverage := 3 / 10
    max_sector_exposure := 1 }

end Examples

end ConstraintProjector

end ptl.optimization
