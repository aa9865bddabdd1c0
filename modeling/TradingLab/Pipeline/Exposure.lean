import TradingLab.Pipeline.TradingPipeline

/-! The exposure of a whole pass of targets: what the running totals know of
the targets claimed so far, and what that bounds. -/

open ptl.oms ptl.portfolio ptl.engine ptl.signal ptl.sizing ptl.construction

namespace ptl.pipeline

/-- What a target is worth, signed. -/
def targetNotional (t : TargetPosition) : Notional := t.target_quantity * t.reference_price

/-- The gross of the targets of one sector. -/
def TradingPipeline.sector_gross (p : TradingPipeline) (targets : TargetPortfolio) (sector : Int) : Notional :=
  Table.sum (fun key t => if p.sector_of key = sector then |targetNotional t| else 0) targets.targets

theorem gross_notional_eq_sum (targets : TargetPortfolio) :
    targets.gross_notional = Table.sum (fun _ t => |targetNotional t|) targets.targets :=
  Table.foldl_eq_sum _ _

theorem net_notional_eq_sum (targets : TargetPortfolio) :
    targets.net_notional = Table.sum (fun _ t => targetNotional t) targets.targets :=
  Table.foldl_eq_sum _ _

/-- Targets within limits, each and together. -/
structure TradingPipeline.WithinLimits (p : TradingPipeline) (equity : Notional) (targets : TargetPortfolio) :
    Prop where
  each : ∀ (key : InstrumentId) t, targets.targets[key]? = some t →
    |t.target_quantity * t.reference_price| ≤
      min (p.sizer.cfg.limits.max_position_weight * equity) p.sizer.cfg.limits.max_position_notional
  gross : targets.gross_notional ≤ p.sizer.cfg.limits.max_gross_leverage * equity
  sector : ∀ sector ≥ 0, p.sector_gross targets sector ≤ p.sizer.cfg.limits.max_sector_weight * equity
  net : |targets.net_notional| ≤ p.sizer.cfg.limits.max_net_leverage * equity

/-- The running totals are those of the targets claimed so far. -/
structure TradingPipeline.Totals (p : TradingPipeline) (b : Building) : Prop where
  gross_eq : b.running_gross = b.targets.gross_notional
  net_eq : b.running_net = b.targets.net_notional
  sector_eq : ∀ sector ≥ 0, (b.sector_exposure[sector]?).getD 0 = p.sector_gross b.targets sector

/-- A target that is set is a new one. -/
theorem set_ok {targets targets' : TargetPortfolio} {t : TargetPosition} {done : Bool}
    (hset : targets.set t = (.ok done, targets')) :
    targets.targets[t.instrument]? = none ∧
      targets' = { targets with targets := targets.targets.insert t.instrument t } := by
  unfold TargetPortfolio.set at hset
  split at hset
  · cases hset
  · split at hset
    · cases hset
    · split at hset
      · cases hset
      · split at hset
        · cases hset
        · rename_i hnew
          cases hset
          exact ⟨Std.TreeMap.getElem?_eq_none fun hmem => hnew (Std.TreeMap.mem_iff_contains.mp hmem), rfl⟩

/-- A new target of a valid instrument with a price is set. -/
theorem set_of_new {targets : TargetPortfolio} {t : TargetPosition} (hvalid : t.instrument ≠ kInvalidInstrument)
    (hprice : 0 < t.reference_price) (hnew : targets.targets[t.instrument]? = none) :
    targets.set t = (.ok true, { targets with targets := targets.targets.insert t.instrument t }) := by
  have hfree : ¬ targets.targets.contains t.instrument = true := by
    rw [Std.TreeMap.contains_eq_isSome_getElem?, hnew]
    exact Bool.false_ne_true
  have hfinite : ¬ (t.reference_price ≤ 0 ∨ ¬ is_finite t.reference_price = true) := by
    simpa using hprice
  rw [TargetPortfolio.set, if_neg hvalid, if_neg (by simp), if_neg hfinite, if_neg hfree]

section Claim

variable {p : TradingPipeline} {pf : Portfolio} {b : Building} {key : InstrumentId} {st : InstrumentState}
  {sig : Signal} {d : SizingDecision} {now : Timestamp}

/-- A target that is claimed is set, and adds its exposure to the totals. -/
theorem TradingPipeline.claim_cases (p : TradingPipeline) (key : InstrumentId) (st : InstrumentState)
    (sig : Signal) (d : SizingDecision) (b : Building) :
    p.claim key st sig d b = b ∨
      ∃ t : TargetPosition, t.target_quantity = d.target_position ∧ t.reference_price = st.last_close ∧
        b.targets.targets[key]? = none ∧
        p.claim key st sig d b = {
          targets := { b.targets with targets := b.targets.targets.insert key t }
          running_gross := b.running_gross + |d.target_notional|
          running_net := b.running_net + d.target_notional
          sector_exposure :=
            if p.sector_of key ≥ 0 then
              b.sector_exposure.insert (p.sector_of key)
                ((b.sector_exposure[p.sector_of key]?).getD 0 + |d.target_notional|)
            else b.sector_exposure } := by
  unfold TradingPipeline.claim
  generalize hset : b.targets.set (targetOf key st sig d) = answer
  obtain ⟨result, targets⟩ := answer
  cases result with
  | error err => exact .inl rfl
  | ok done =>
    obtain ⟨hnew, rfl⟩ := set_ok hset
    exact .inr ⟨_, rfl, rfl, hnew, rfl⟩

theorem TradingPipeline.claim_totals (htotals : p.Totals b)
    (hnotional : d.target_notional = d.target_position * st.last_close) :
    p.Totals (p.claim key st sig d b) := by
  obtain heq | ⟨t, hquantity, hprice, hnew, heq⟩ := p.claim_cases key st sig d b
  · rw [heq]
    exact htotals
  · have hworth : targetNotional t = d.target_notional := by
      rw [targetNotional, hquantity, hprice, hnotional]
    rw [heq]
    refine ⟨?_, ?_, fun sector hsector => ?_⟩
    · rw [gross_notional_eq_sum]
      dsimp only
      rw [Table.sum_insert_new _ _ hnew, ← gross_notional_eq_sum, hworth, htotals.gross_eq]
    · rw [net_notional_eq_sum]
      dsimp only
      rw [Table.sum_insert_new _ _ hnew, ← net_notional_eq_sum, hworth, htotals.net_eq]
    · rw [TradingPipeline.sector_gross]
      dsimp only
      rw [Table.sum_insert_new _ _ hnew, ← TradingPipeline.sector_gross, hworth, ← htotals.sector_eq sector hsector]
      by_cases hsame : p.sector_of key = sector
      · subst hsame
        rw [if_pos hsector, if_pos rfl, Table.getElem?_insert_self, Option.getD_some]
      · rw [if_neg hsame, add_zero]
        split
        · rw [Table.getElem?_insert_of_ne _ _ hsame]
        · rfl

/-- A decision within the limits of its context keeps the targets within
theirs. -/
theorem TradingPipeline.claim_within (htotals : p.Totals b) (hwithin : p.WithinLimits pf.equity b.targets)
    (hdecision : d.Within p.sizer.cfg.limits (p.sizing_context pf now key st b)) :
    p.WithinLimits pf.equity (p.claim key st sig d b).targets := by
  have hclaimed : p.Totals (p.claim key st sig d b) :=
    TradingPipeline.claim_totals htotals hdecision.notional_eq
  obtain heq | ⟨t, hquantity, hprice, hnew, heq⟩ := p.claim_cases key st sig d b
  · rw [heq]
    exact hwithin
  · have hworth : t.target_quantity * t.reference_price = d.target_notional := by
      rw [hquantity, hprice]
      exact hdecision.notional_eq.symm
    have hnonneg : ∀ {f : InstrumentId → TargetPosition → Notional}, (∀ k t, 0 ≤ f k t) →
        0 ≤ Table.sum f b.targets.targets := fun hf => Table.sum_nonneg fun k t _ => hf k t
    have hgross_nonneg : 0 ≤ b.targets.gross_notional := by
      rw [gross_notional_eq_sum]
      exact hnonneg fun _ _ => abs_nonneg _
    rw [heq] at hclaimed
    rw [heq]
    refine ⟨fun k other hother => ?_, ?_, fun sector hsector => ?_, ?_⟩
    · obtain ⟨rfl, rfl⟩ | ⟨-, hother⟩ := Table.getElem?_insert_eq_some.mp hother
      · rw [hworth]
        exact le_min hdecision.position_weight hdecision.position_notional
      · exact hwithin.each k other hother
    · have hroom := hdecision.gross
      dsimp only [TradingPipeline.sizing_context] at hroom
      rw [htotals.gross_eq, abs_of_nonneg hgross_nonneg,
        max_eq_right (sub_nonneg.mpr hwithin.gross)] at hroom
      rw [← hclaimed.gross_eq]
      dsimp only
      rw [htotals.gross_eq]
      linarith
    · rw [← hclaimed.sector_eq sector hsector]
      dsimp only
      by_cases hsame : p.sector_of key = sector
      · subst hsame
        have hsector_nonneg : 0 ≤ p.sector_gross b.targets (p.sector_of key) := by
          refine hnonneg fun k t => ?_
          split
          · exact abs_nonneg _
          · exact le_refl _
        have hroom := hdecision.sector hsector
        dsimp only [TradingPipeline.sizing_context] at hroom
        rw [if_pos hsector, htotals.sector_eq _ hsector, abs_of_nonneg hsector_nonneg,
          max_eq_right (sub_nonneg.mpr (hwithin.sector _ hsector))] at hroom
        rw [if_pos hsector, Table.getElem?_insert_self, Option.getD_some, htotals.sector_eq _ hsector]
        linarith
      · have hbefore : ((if p.sector_of key ≥ 0 then
            b.sector_exposure.insert (p.sector_of key)
              ((b.sector_exposure[p.sector_of key]?).getD 0 + |d.target_notional|)
            else b.sector_exposure)[sector]?).getD 0 = (b.sector_exposure[sector]?).getD 0 := by
          split
          · rw [Table.getElem?_insert_of_ne _ _ hsame]
          · rfl
        rw [hbefore, htotals.sector_eq sector hsector]
        exact hwithin.sector sector hsector
    · have hprojected := hdecision.net
      dsimp only [TradingPipeline.sizing_context] at hprojected
      rw [← hclaimed.net_eq]
      dsimp only
      exact hprojected (htotals.net_eq ▸ hwithin.net)

/-- One turn of the loop keeps the targets within the limits. -/
theorem TradingPipeline.build_target_within (hpositive : p.sizer.cfg.limits.Positive)
    (hequity : 0 < pf.equity) (flatten : Bool) (htotals : p.Totals b)
    (hwithin : p.WithinLimits pf.equity b.targets) :
    p.Totals (p.build_target pf now flatten b key sig) ∧
      p.WithinLimits pf.equity (p.build_target pf now flatten b key sig).targets := by
  unfold TradingPipeline.build_target
  split
  · exact ⟨htotals, hwithin⟩
  · rename_i st _
    split
    · exact ⟨htotals, hwithin⟩
    · split
      · exact ⟨htotals, hwithin⟩
      · dsimp only
        have hflat : (({} : SizingDecision)).Within p.sizer.cfg.limits (p.sizing_context pf now key st b) :=
          SizingDecision.within_of_flat hpositive hequity rfl rfl
        have hsized : (if flatten = true then ({} : SizingDecision)
            else ((p.sizer.size sig (p.sizing_context pf now key st b)).toOption).getD {}).Within
              p.sizer.cfg.limits (p.sizing_context pf now key st b) := by
          split
          · exact hflat
          · cases hsize : p.sizer.size sig (p.sizing_context pf now key st b) with
            | error err => exact hflat
            | ok d => exact PositionSizer.size_within hpositive hequity hsize
        exact ⟨TradingPipeline.claim_totals htotals hsized.notional_eq,
          TradingPipeline.claim_within htotals hwithin hsized⟩

end Claim

/-- No targets at all are within any limits. -/
theorem TradingPipeline.within_of_empty (p : TradingPipeline) {equity : Notional}
    (hpositive : p.sizer.cfg.limits.Positive) (hequity : 0 < equity) (now : Timestamp) :
    p.Totals { targets := { as_of := now } } ∧ p.WithinLimits equity { as_of := now } := by
  refine ⟨⟨rfl, rfl, fun sector _ => ?_⟩, ⟨fun key t ht => ?_, ?_, fun sector _ => ?_, ?_⟩⟩
  · rw [Std.TreeMap.getElem?_emptyc]
    rfl
  · simp at ht
  · exact (mul_pos hpositive.gross hequity).le
  · exact (mul_pos hpositive.sector_weight hequity).le
  · rw [net_notional_eq_sum, Table.sum_empty, abs_zero]
    exact (mul_pos hpositive.net hequity).le

/-- The targets one pass builds from any signals are within the limits of the
sizer, each and together. -/
theorem TradingPipeline.build_targets_within (p : TradingPipeline) (pf : Portfolio) (now : Timestamp)
    (hpositive : p.sizer.cfg.limits.Positive) (hequity : 0 < pf.equity) :
    p.WithinLimits pf.equity (p.build_targets pf now false).targets := by
  obtain ⟨htotals, hwithin⟩ := p.within_of_empty hpositive hequity now
  have hrun : ∀ (entries : List (InstrumentId × Signal)) (b : Building), p.Totals b →
      p.WithinLimits pf.equity b.targets →
      p.WithinLimits pf.equity
        (entries.foldl (fun b entry => p.build_target pf now false b entry.1 entry.2) b).targets := by
    intro entries
    induction entries with
    | nil => exact fun b _ hwithin => hwithin
    | cons entry entries ih =>
      intro b htotals hwithin
      obtain ⟨htotals', hwithin'⟩ := TradingPipeline.build_target_within hpositive hequity false htotals hwithin
      exact ih _ htotals' hwithin'
  rw [TradingPipeline.build_targets, Std.TreeMap.foldl_eq_foldl_toList]
  exact hrun _ _ htotals hwithin

/-- Ten thousand shares are wanted and a quarter of the equity is allowed. -/
theorem TradingPipeline.build_targets_within_capped :
    ((((sharesPipeline 10000).build_targets (Portfolio.new {}) 1 false).targets.targets[(0 : InstrumentId)]?).map
      TargetPosition.target_quantity = some 2500) ∧
    (sharesPipeline 10000).WithinLimits (Portfolio.new {}).equity
      ((sharesPipeline 10000).build_targets (Portfolio.new {}) 1 false).targets := by
  refine ⟨by decide +kernel, TradingPipeline.build_targets_within _ _ 1 ⟨?_, ?_, ?_, ?_, ?_⟩ ?_⟩
  all_goals decide +kernel

end ptl.pipeline
