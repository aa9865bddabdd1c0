import Mathlib.Tactic.SplitIfs
import TradingLab.Algo.Turns

open ptl.oms ptl.execution

namespace ptl.algo

/-- The child is all that remains, sent because it is below the floor for a
clip: the execution could not complete otherwise. -/
def FinalResidue (request : ExecutionRequest) (progress : ExecutionProgress) (child : ChildOrder) : Prop :=
  child.quantity = progress.remaining ∧ progress.remaining ≤ request.policy.min_clip_size

def WithinDisplay (request : ExecutionRequest) (child : ChildOrder) : Prop :=
  0 < request.policy.max_display_quantity → child.quantity ≤ request.policy.max_display_quantity

def WithinParticipation (request : ExecutionRequest) (ctx : ExecutionContext) (child : ChildOrder) : Prop :=
  0 < ctx.interval_volume → child.quantity ≤ request.policy.max_participation_rate * ctx.interval_volume

/-- Whole lots, or all that remains. -/
def LotsOrRest (request : ExecutionRequest) (progress : ExecutionProgress) (child : ChildOrder) : Prop :=
  0 < request.policy.lot_size →
    (∃ lots : Int, child.quantity = lots * request.policy.lot_size) ∨ child.quantity = progress.remaining

/-- The algorithms that leave the size of a child to the shared caps. -/
inductive SharesCaps : IExecutionAlgorithm → Prop where
  | immediate : SharesCaps ImmediateAlgorithm
  | twap : SharesCaps TwapAlgorithm
  | vwap : SharesCaps VwapAlgorithm
  | adaptive_limit (cfg : AdaptiveLimitAlgorithm.Config) : SharesCaps (AdaptiveLimitAlgorithm cfg)

variable {request : ExecutionRequest} {schedule : ExecutionSchedule} {progress : ExecutionProgress}
  {ctx : ExecutionContext} {child : ChildOrder}

theorem toLots_multiple {lot_size : Rat} (hlot : 0 < lot_size) (want : Rat) :
    ∃ lots : Int, toLots lot_size want = lots * lot_size :=
  ⟨truncate (want / lot_size), if_pos hlot⟩

theorem le_of_toLots_pos {lot_size want : Rat} (hpos : 0 < toLots lot_size want) : toLots lot_size want ≤ want := by
  rcases le_max_iff.mp (toLots_le lot_size want) with hzero | hle
  · exact absurd hpos (not_lt.mpr hzero)
  · exact hle

/-- What a lot fits into is not rounded to nothing. -/
theorem toLots_pos {lot_size want : Rat} (hwant : 0 < want) (hfits : lot_size ≤ want) : 0 < toLots lot_size want := by
  rcases le_or_gt lot_size 0 with hnone | hlot
  · rwa [toLots_of_nonpos hnone]
  · have hsome : toLots lot_size want ≠ 0 := by
      rw [Ne, toLots_eq_zero_iff hlot, abs_of_pos hwant]
      exact not_lt.mpr hfits
    have hnonneg : 0 ≤ toLots lot_size want := by
      simpa [min_eq_left hwant.le] using le_toLots lot_size want
    exact lt_of_le_of_ne hnonneg hsome.symm

/-! ### The shared caps -/

/-- What the caps leave of a desired quantity, before rounding. -/
def cappedWant (request : ExecutionRequest) (ctx : ExecutionContext) (desired remaining : Qty) : Qty :=
  let cap := ctx.interval_volume * request.policy.max_participation_rate
  let want :=
    if ctx.interval_volume > 0 ∧ cap < min desired remaining then cap else min desired remaining
  if request.policy.max_display_quantity > 0 then min want request.policy.max_display_quantity else want

theorem cappedWant_le_display (desired remaining : Qty) (hdisplay : 0 < request.policy.max_display_quantity) :
    cappedWant request ctx desired remaining ≤ request.policy.max_display_quantity := by
  unfold cappedWant
  dsimp only
  rw [if_pos hdisplay]
  exact min_le_right _ _

theorem cappedWant_le_participation (desired remaining : Qty) (htraded : 0 < ctx.interval_volume) :
    cappedWant request ctx desired remaining ≤ request.policy.max_participation_rate * ctx.interval_volume := by
  have hcap : (if ctx.interval_volume > 0 ∧ ctx.interval_volume * request.policy.max_participation_rate <
      min desired remaining then ctx.interval_volume * request.policy.max_participation_rate
      else min desired remaining) ≤ request.policy.max_participation_rate * ctx.interval_volume := by
    rw [mul_comm request.policy.max_participation_rate]
    split
    · exact le_refl _
    · rename_i hslack
      exact not_lt.mp fun hless => hslack ⟨htraded, hless⟩
  unfold cappedWant
  dsimp only
  split
  · exact (min_le_left _ _).trans hcap
  · exact hcap

theorem apply_policy_caps_eq (desired remaining : Qty) :
    apply_policy_caps request ctx desired remaining =
      if min desired remaining ≤ 0 then 0
      else if toLots request.policy.lot_size (cappedWant request ctx desired remaining) <
          request.policy.min_clip_size then
        if ¬ remaining ≤ request.policy.min_clip_size then 0 else max 0 remaining
      else max 0 (toLots request.policy.lot_size (cappedWant request ctx desired remaining)) := by
  unfold apply_policy_caps cappedWant
  dsimp only
  by_cases hnothing : min desired remaining ≤ 0
  · rw [if_pos (.inr hnothing), if_pos hnothing]
  · rw [if_neg (by simpa using hnothing), if_neg hnothing]

theorem eq_of_max_zero_pos {x : Rat} (hpos : 0 < max 0 x) : max 0 x = x :=
  max_eq_right (lt_max_iff.mp hpos |>.resolve_left (lt_irrefl 0)).le

/-- A clip is the rest, sent because it is below the floor, or what the caps
leave in whole lots. -/
theorem apply_policy_caps_pos {desired remaining : Qty}
    (hpos : 0 < apply_policy_caps request ctx desired remaining) :
    (apply_policy_caps request ctx desired remaining = remaining ∧ remaining ≤ request.policy.min_clip_size) ∨
      apply_policy_caps request ctx desired remaining =
        toLots request.policy.lot_size (cappedWant request ctx desired remaining) := by
  rw [apply_policy_caps_eq] at hpos ⊢
  split_ifs at hpos ⊢ with hnothing hbelow hfloor
  · exact absurd hpos (lt_irrefl 0)
  · exact .inl ⟨eq_of_max_zero_pos hpos, hfloor⟩
  · exact absurd hpos (lt_irrefl 0)
  · exact .inr (eq_of_max_zero_pos hpos)

/-- A child sized by the shared caps is within all of them, or the final
residue. -/
theorem child_of_caps {desired : Qty} (hquantity : child.quantity = apply_policy_caps request ctx desired
    progress.remaining) (hpos : 0 < child.quantity) :
    LotsOrRest request progress child ∧ (FinalResidue request progress child ∨
      WithinDisplay request child ∧ WithinParticipation request ctx child) := by
  rw [hquantity] at hpos
  rcases apply_policy_caps_pos hpos with ⟨hrest, hfloor⟩ | hlots
  · exact ⟨fun _ => .inr (hquantity.trans hrest), .inl ⟨hquantity.trans hrest, hfloor⟩⟩
  · rw [hlots] at hquantity hpos
    have hle := le_of_toLots_pos hpos
    refine ⟨fun hlot => .inl ?_, .inr ⟨fun hdisplay => ?_, fun htraded => ?_⟩⟩
    · rw [hquantity]
      exact toLots_multiple hlot _
    · rw [hquantity]
      exact hle.trans (cappedWant_le_display _ _ hdisplay)
    · rw [hquantity]
      exact hle.trans (cappedWant_le_participation _ _ htraded)

/-! ### The six algorithms -/

theorem scheduledChild_quantity (hchild : scheduledChild request schedule progress ctx = some child) :
    (∃ desired, child.quantity = apply_policy_caps request ctx desired progress.remaining) ∧ 0 < child.quantity := by
  unfold scheduledChild at hchild
  dsimp only at hchild
  split_ifs at hchild with hreleasable hclip
  cases hchild
  exact ⟨⟨_, rfl⟩, not_le.mp hclip⟩

/-- A child of one of the four is what the shared caps leave of some quantity. -/
theorem SharesCaps.child_quantity {algorithm : IExecutionAlgorithm} (hshares : SharesCaps algorithm)
    (hchild : algorithm.next_child request schedule progress ctx = some child) :
    (∃ desired, child.quantity = apply_policy_caps request ctx desired progress.remaining) ∧ 0 < child.quantity := by
  cases hshares with
  | immediate =>
    simp only [ImmediateAlgorithm] at hchild
    split_ifs at hchild with hreleasable hclip
    cases hchild
    exact ⟨⟨_, rfl⟩, not_le.mp hclip⟩
  | twap =>
    exact scheduledChild_quantity hchild
  | vwap =>
    exact scheduledChild_quantity hchild
  | adaptive_limit cfg =>
    simp only [AdaptiveLimitAlgorithm] at hchild
    generalize (if request.parent.quantity > 0 then
      (schedule.target_by ctx.now - progress.filled) / request.parent.quantity else 0) = shortfall at hchild
    split_ifs at hchild with hreleasable hclip hurgent
    · cases hchild
      exact ⟨⟨_, rfl⟩, not_le.mp hclip⟩
    · split at hchild
      · cases hchild
      · cases hchild
        exact ⟨⟨_, rfl⟩, not_le.mp hclip⟩

/-- A child that follows observed volume is within the participation cap, or the
final residue. -/
theorem ParticipationAlgorithm.child_caps {target_rate : Rat}
    (hchild : (ParticipationAlgorithm target_rate).next_child request schedule progress ctx = some child) :
    LotsOrRest request progress child ∧
      (FinalResidue request progress child ∨ WithinParticipation request ctx child) := by
  simp only [ParticipationAlgorithm] at hchild
  generalize hpaced : ctx.interval_volume * min target_rate request.policy.max_participation_rate = paced at hchild
  split_ifs at hchild with hreleasable htraded hsmall hbelow hnothing hnothing
  · cases hchild
    have hfloor : progress.remaining ≤ request.policy.min_clip_size := not_not.mp fun hmore => hsmall ⟨hbelow, hmore⟩
    exact ⟨fun _ => .inr rfl, .inl ⟨rfl, hfloor⟩⟩
  · cases hchild
    refine ⟨fun hlot => .inl (toLots_multiple hlot _), .inr fun htraded => ?_⟩
    calc toLots request.policy.lot_size (min paced progress.remaining)
        ≤ min paced progress.remaining := le_of_toLots_pos (not_le.mp hnothing)
      _ ≤ paced := min_le_left _ _
      _ = ctx.interval_volume * min target_rate request.policy.max_participation_rate := hpaced.symm
      _ ≤ ctx.interval_volume * request.policy.max_participation_rate :=
        mul_le_mul_of_nonneg_left (min_le_right _ _) htraded.le
      _ = request.policy.max_participation_rate * ctx.interval_volume := mul_comm _ _

/-- An iceberg shows no more than its display size when a lot fits into it. -/
theorem IcebergAlgorithm.child_caps {display_size : Qty} (hremaining : 0 < progress.remaining)
    (hchild : (IcebergAlgorithm display_size).next_child request schedule progress ctx = some child) :
    LotsOrRest request progress child ∧
      (0 < display_size → request.policy.lot_size ≤ min display_size progress.remaining →
        child.quantity ≤ display_size) := by
  simp only [IcebergAlgorithm] at hchild
  split_ifs at hchild with hreleasable hlots hnothing
  · -- nothing is left of what would be shown in whole lots, so the rest is sent
    split at hchild
    · cases hchild
    · cases hchild
      refine ⟨fun _ => .inr rfl, fun hdisplay hfits => absurd hlots (not_le.mpr ?_)⟩
      exact toLots_pos (lt_min hdisplay hremaining) hfits
  · split at hchild
    · cases hchild
    · cases hchild
      refine ⟨fun hlot => .inl (toLots_multiple hlot _), fun _ _ => ?_⟩
      exact (le_of_toLots_pos (not_le.mp hlots)).trans (min_le_left _ _)

theorem BuiltIn.lots_or_rest {algorithm : IExecutionAlgorithm} (hbuiltIn : BuiltIn algorithm)
    (hremaining : 0 < progress.remaining)
    (hchild : algorithm.next_child request schedule progress ctx = some child) : LotsOrRest request progress child := by
  have hshared (hshares : SharesCaps algorithm) : LotsOrRest request progress child := by
    obtain ⟨⟨desired, hquantity⟩, hpos⟩ := hshares.child_quantity hchild
    exact (child_of_caps hquantity hpos).1
  cases hbuiltIn with
  | immediate => exact hshared .immediate
  | twap => exact hshared .twap
  | vwap => exact hshared .vwap
  | pov target_rate => exact (ParticipationAlgorithm.child_caps hchild).1
  | iceberg display_size => exact (IcebergAlgorithm.child_caps hremaining hchild).1
  | adaptive_limit cfg => exact hshared (.adaptive_limit cfg)

/-- A market with a thousand shares traded since the last look. -/
def busyMarket : ExecutionContext := { openMarket 1 with interval_volume := 1000 }

/-- A market in which hardly anything was traded. -/
def thinMarket : ExecutionContext := { openMarket 1 with interval_volume := 5 }

/-- Ten shares to buy, of which five may be shown. -/
def shownRequest : ExecutionRequest := { dayBuyRequest with policy := { max_display_quantity := 5 } }

end ptl.algo
