import Mathlib.Algebra.Order.BigOperators.Group.List
import TradingLab.Execution.Broker.Matching

open ptl.oms

namespace ptl.execution

variable {R : Type} {costs : ICostModel R} {cfg : FillConfig} {instrument : InstrumentId}
  {state : MarketState} {now : Timestamp}

/-- The total quantity of some fills. -/
def filledQuantity (fs : List Fill) : Qty := (fs.map Fill.quantity).sum

theorem filledQuantity_nonneg (fs : List Fill) : 0 ≤ filledQuantity fs := by
  refine List.sum_nonneg ?_
  intro q hq
  obtain ⟨f, -, rfl⟩ := List.mem_map.mp hq
  exact le_of_lt f.quantity_pos

/-- While every execution still finds some budget, the fills stay within it. -/
theorem Matched.filled_le {budget : Rat} {rng : R} {ps rest : List PendingOrder} {fs : List Fill}
    (hmatched : Matched costs cfg instrument state now budget rng ps fs rest) (hnonneg : 0 ≤ budget)
    (hbudget : ∀ v ∈ visits costs cfg instrument state now budget rng ps, v.executes → 0 < v.budget) :
    filledQuantity fs ≤ budget := by
  induction hmatched with
  | nil => exact hnonneg
  | keep hdecision _ ih =>
    rw [visits_keep hdecision] at hbudget
    exact ih hnonneg fun v hv => hbudget v (List.mem_cons_of_mem _ hv)
  | erase hdecision _ ih =>
    rw [visits_erase hdecision] at hbudget
    exact ih hnonneg fun v hv => hbudget v (List.mem_cons_of_mem _ hv)
  | @execute budget rng p p' allowed ps rest f fs hdecision hfill _ ih =>
    rw [visits_execute hdecision] at hbudget
    have hpos : 0 < budget := hbudget _ List.mem_cons_self rfl
    have hcapped := (PendingOrder.executes_of_decision hdecision).within_budget hpos
    have hquantity : f.quantity = allowed := (make_fill_ok hfill).2.2.2.2.1
    have htail := ih (le_max_left _ _) fun v hv => hbudget v (List.mem_cons_of_mem _ hv)
    rw [max_eq_right (sub_nonneg.mpr hcapped)] at htail
    simp only [filledQuantity, List.map_cons, List.sum_cons] at htail ⊢
    linarith

/-- One execution that finds the budget used up takes the fills beyond it. -/
theorem Matched.lt_filled {budget : Rat} {rng : R} {ps rest : List PendingOrder} {fs : List Fill}
    (hmatched : Matched costs cfg instrument state now budget rng ps fs rest) (hnonneg : 0 ≤ budget)
    (hspent : ∃ v ∈ visits costs cfg instrument state now budget rng ps, v.executes ∧ v.budget ≤ 0) :
    budget < filledQuantity fs := by
  induction hmatched with
  | nil =>
    obtain ⟨v, hv, -⟩ := hspent
    cases hv
  | keep hdecision _ ih =>
    rw [visits_keep hdecision] at hspent
    obtain ⟨v, hv, hexecutes, hzero⟩ := hspent
    rcases List.mem_cons.mp hv with rfl | hv
    · cases hexecutes
    · exact ih hnonneg ⟨v, hv, hexecutes, hzero⟩
  | erase hdecision _ ih =>
    rw [visits_erase hdecision] at hspent
    obtain ⟨v, hv, hexecutes, hzero⟩ := hspent
    rcases List.mem_cons.mp hv with rfl | hv
    · cases hexecutes
    · exact ih hnonneg ⟨v, hv, hexecutes, hzero⟩
  | @execute budget rng p p' allowed ps rest f fs hdecision hfill _ ih =>
    have hexecution := PendingOrder.executes_of_decision hdecision
    have hquantity : f.quantity = allowed := (make_fill_ok hfill).2.2.2.2.1
    have hpos := hexecution.allowed_pos
    have htail := filledQuantity_nonneg fs
    have hsum : filledQuantity (f :: fs) = allowed + filledQuantity fs := by
      simp only [filledQuantity, List.map_cons, List.sum_cons, hquantity]
    rw [hsum]
    rcases lt_or_eq_of_le hnonneg with hleft | hempty
    · -- This execution is capped, so the one without budget comes after it.
      have hcapped := hexecution.within_budget hleft
      rw [visits_execute hdecision] at hspent
      obtain ⟨v, hv, hexecutes, hzero⟩ := hspent
      rcases List.mem_cons.mp hv with rfl | hv
      · exact absurd hzero (not_le.mpr hleft)
      · have hrest := ih (le_max_left _ _) ⟨v, hv, hexecutes, hzero⟩
        rw [max_eq_right (sub_nonneg.mpr hcapped)] at hrest
        linarith
    · linarith

/-- The fills of one call stay within the participation cap exactly when the
cap is not negative and every order that is executed still finds some of it
left. An order that finds none is filled without any cap. -/
theorem BrokerSimulator.participation_iff {b : BrokerSimulator R} {fs : List Fill}
    (hfills : (b.on_market instrument state now).1 = .ok fs) :
    filledQuantity fs ≤ state.interval_volume * b.fill_cfg.max_participation_rate ↔
      0 ≤ state.interval_volume * b.fill_cfg.max_participation_rate ∧
        ∀ v ∈ b.visits instrument state now, v.executes → 0 < v.budget := by
  have hmatched := BrokerSimulator.on_market_matched hfills
  constructor
  · intro hcap
    have hnonneg := (filledQuantity_nonneg fs).trans hcap
    refine ⟨hnonneg, fun v hv hexecutes => ?_⟩
    by_contra hspent
    have hover := hmatched.lt_filled hnonneg ⟨v, hv, hexecutes, not_lt.mp hspent⟩
    exact absurd hcap (not_le.mpr hover)
  · rintro ⟨hnonneg, hbudget⟩
    exact hmatched.filled_le hnonneg hbudget

/-- A market buy of four shares. -/
def buyFour (id : OrderId) (h : (Order.market id 0 .Buy 4 { decision_time := 0 }).toOption.isSome) : Order :=
  Result.value (Order.market id 0 .Buy 4 { decision_time := 0 }) h

/-- A venue that lets half of the volume be taken, with two buys of four
shares waiting. -/
def twoBuys : BrokerSimulator Unit :=
  let b : BrokerSimulator Unit := {
    costs := flatCosts, latency := flatLatency, latency_rng := (), slippage_rng := ()
    fill_cfg := { max_participation_rate := 0.5 } }
  let b := (b.submit 0 (buyFour 1 (by decide +kernel))).2
  (b.submit 0 (buyFour 2 (by decide +kernel))).2

/-- A bar of eight shares at a price of 100. -/
def eightTraded : MarketState := { bid := 100, ask := 100, interval_volume := 8 }

theorem twoBuys_filled :
    ((twoBuys.on_market 0 eightTraded 2000000).1.toOption.map filledQuantity) = some 8 := by
  decide +kernel

theorem BrokerSimulator.participation_iff_twoBuys :
    ∃ fs, (twoBuys.on_market 0 eightTraded 2000000).1 = .ok fs ∧
      (filledQuantity fs ≤ 8 * 0.5 ↔
        (0 : Rat) ≤ 8 * 0.5 ∧ ∀ v ∈ twoBuys.visits 0 eightTraded 2000000, v.executes → 0 < v.budget) := by
  obtain ⟨fs, hfs, -⟩ := Option.map_eq_some_iff.mp twoBuys_filled
  have hok := Result.toOption_eq_some.mp hfs
  exact ⟨fs, hok, BrokerSimulator.participation_iff hok⟩

/-- The cap is no bound on the fills of a call: with half of eight shares to
take, the first buy takes all four and the second is filled without a cap. -/
theorem BrokerSimulator.participation_exceeded :
    ¬ ∀ (b : BrokerSimulator Unit) (instrument : InstrumentId) (state : MarketState) (now : Timestamp)
      (fs : List Fill), state.volume_known = true → 0 < state.interval_volume →
      (b.on_market instrument state now).1 = .ok fs →
      filledQuantity fs ≤ state.interval_volume * b.fill_cfg.max_participation_rate := by
  intro hcap
  obtain ⟨fs, hfs, height⟩ := Option.map_eq_some_iff.mp twoBuys_filled
  have hle := hcap twoBuys 0 eightTraded 2000000 fs rfl (by decide +kernel)
    (Result.toOption_eq_some.mp hfs)
  rw [height] at hle
  exact absurd hle (by decide +kernel)

end ptl.execution

namespace ptl.execution

variable {R : Type} {costs : ICostModel R} {cfg : FillConfig} {instrument : InstrumentId}
  {state : MarketState} {now : Timestamp} {budget : Rat}

/-- The quantity filled on one side. -/
def sideQuantity (side : Side) (fs : List Fill) : Qty := filledQuantity (fs.filter fun f => f.side = side)

theorem sideQuantity_cons_self {side : Side} {f : Fill} {fs : List Fill} (hside : f.side = side) :
    sideQuantity side (f :: fs) = f.quantity + sideQuantity side fs := by
  rw [sideQuantity, List.filter_cons_of_pos (by simpa using hside), filledQuantity, List.map_cons, List.sum_cons]
  rfl

theorem sideQuantity_cons_other {side : Side} {f : Fill} {fs : List Fill} (hside : f.side ≠ side) :
    sideQuantity side (f :: fs) = sideQuantity side fs := by
  rw [sideQuantity, List.filter_cons_of_neg (by simpa using hside)]
  rfl

/-- What the order of a visit still wants. -/
def Visit.want (v : Visit R) : Qty := v.found.order.quantity - v.found.filled

/-- Each execution on the side finds its size in what the executions before it
left of the displayed one: nothing was taken yet, or the order wants no more
than is left, or the participation budget allows no more. -/
def FitsShown (side : Side) (shown : Qty) : Qty → List (Visit R) → Prop
  | _, [] => True
  | left, v :: vs =>
    match v.size with
    | none => FitsShown side shown left vs
    | some size =>
      if v.found.order.side = side then
        (shown ≤ left ∨ v.want ≤ left ∨ (0 < v.budget ∧ v.budget ≤ left)) ∧
          FitsShown side shown (left - size) vs
      else FitsShown side shown left vs

/-! ### The size of an execution -/

theorem PendingOrder.decideLive_offered {p q : PendingOrder} {allowed : Qty} {stats : ExecutionStats}
    (hdecision : (p.decideLive cfg state budget stats).1 = .execute q allowed) :
    (available cfg state p.order.side budget (p.order.quantity - p.filled) stats).1 = some allowed := by
  unfold PendingOrder.decideLive at hdecision
  dsimp only at hdecision
  split at hdecision
  · cases hdecision
  · split at hdecision
    · cases hdecision
    · split at hdecision
      · cases hdecision
      · rename_i size counted hoffered
        split at hdecision
        · cases hdecision
        · split at hdecision
          · cases hdecision
          · cases hdecision
            rw [hoffered]

theorem PendingOrder.decision_offered {p q : PendingOrder} {allowed : Qty}
    (hdecision : p.decision cfg instrument state now budget = .execute q allowed) :
    ∃ stats, (available cfg state p.order.side budget (p.order.quantity - p.filled) stats).1 = some allowed := by
  unfold PendingOrder.decision PendingOrder.decide at hdecision
  split at hdecision
  · cases hdecision
  · split at hdecision
    · cases hdecision
    · split at hdecision
      · cases hdecision
      · split at hdecision
        · exact ⟨_, PendingOrder.decideLive_offered (p := { p with stop_triggered := true }) hdecision⟩
        · exact ⟨_, PendingOrder.decideLive_offered hdecision⟩

/-- On a quote an execution takes no more than `left` of the displayed size
exactly when that much is displayed, wanted or allowed by the budget at most. -/
theorem PendingOrder.allowed_le_iff {p q : PendingOrder} {allowed left : Qty}
    (hquote : state.has_quote = true) (hrespect : cfg.respect_displayed_size = true)
    (hdecision : p.decision cfg instrument state now budget = .execute q allowed) :
    allowed ≤ left ↔ state.displayed p.order.side ≤ left ∨ p.order.quantity - p.filled ≤ left ∨
      (0 < budget ∧ budget ≤ left) := by
  have hwithin := (PendingOrder.executes_of_decision hdecision).within_budget
  obtain ⟨stats, hoffered⟩ := PendingOrder.decision_offered hdecision
  rw [available_fst, MarketState.shown_eq_min hquote hrespect] at hoffered
  split at hoffered
  · cases hoffered
  · split at hoffered
    · rename_i hbinds
      cases hoffered
      have hdisplayed := hbinds.2.trans_le (min_le_right _ _)
      have hwanted := hbinds.2.trans_le (min_le_left _ _)
      constructor
      · exact fun hle => .inr (.inr ⟨hbinds.1, hle⟩)
      · rintro (hle | hle | hle)
        · exact (le_of_lt hdisplayed).trans hle
        · exact (le_of_lt hwanted).trans hle
        · exact hle.2
    · split at hoffered
      · cases hoffered
      · cases hoffered
        rw [min_le_iff, or_comm]
        constructor
        · rintro (hle | hle)
          · exact .inl hle
          · exact .inr (.inl hle)
        · rintro (hle | hle | hle)
          · exact .inl hle
          · exact .inr hle
          · exact (min_le_iff.mp ((hwithin hle.1).trans hle.2)).symm

/-! ### One call -/

/-- From what is left of the displayed size on, the fills of a side stay within
it exactly when each execution fits. -/
theorem Matched.side_le_iff {side : Side} {left : Qty} {rng : R} {ps rest : List PendingOrder} {fs : List Fill}
    (hquote : state.has_quote = true) (hrespect : cfg.respect_displayed_size = true)
    (hmatched : Matched costs cfg instrument state now budget rng ps fs rest) (hnonneg : 0 ≤ left) :
    sideQuantity side fs ≤ left ↔
      FitsShown side (state.displayed side) left (visits costs cfg instrument state now budget rng ps) := by
  induction hmatched generalizing left with
  | nil => exact ⟨fun _ => trivial, fun _ => hnonneg⟩
  | keep hdecision _ ih =>
    rw [visits_keep hdecision]
    exact ih hnonneg
  | erase hdecision _ ih =>
    rw [visits_erase hdecision]
    exact ih hnonneg
  | @execute budget rng p p' allowed ps rest f fs hdecision hfill _ ih =>
    rw [visits_execute hdecision]
    have hcarries := (PendingOrder.executes_of_decision hdecision).carries
    obtain ⟨-, -, hside, -, hquantity, -⟩ := make_fill_ok hfill
    rw [hcarries.order_eq] at hside
    simp only [FitsShown, Visit.size, Visit.want]
    split
    · rename_i hsame
      subst hsame
      have hrest := filledQuantity_nonneg (fs.filter fun f => f.side = p.order.side)
      rw [← PendingOrder.allowed_le_iff hquote hrespect hdecision, sideQuantity_cons_self hside, hquantity]
      constructor
      · intro hle
        have hfits : allowed ≤ left := le_of_add_le_of_nonneg_left hle hrest
        exact ⟨hfits, (ih (sub_nonneg.mpr hfits)).mp (le_sub_iff_add_le'.mpr hle)⟩
      · rintro ⟨hfits, htail⟩
        exact le_sub_iff_add_le'.mp ((ih (sub_nonneg.mpr hfits)).mpr htail)
    · rename_i hother
      rw [sideQuantity_cons_other (by rw [hside]; exact hother)]
      exact ih hnonneg

/-- On a quote the fills of both sides stay within the displayed sizes exactly
when these are not negative and each execution fits in what the ones before it
left. Every order is shown the whole displayed size again. -/
theorem BrokerSimulator.displayed_iff {b : BrokerSimulator R} {fs : List Fill}
    (hquote : state.has_quote = true) (hrespect : b.fill_cfg.respect_displayed_size = true)
    (hfills : (b.on_market instrument state now).1 = .ok fs) :
    (∀ side, sideQuantity side fs ≤ state.displayed side) ↔
      ∀ side, 0 ≤ state.displayed side ∧
        FitsShown side (state.displayed side) (state.displayed side) (b.visits instrument state now) := by
  have hmatched := BrokerSimulator.on_market_matched hfills
  refine forall_congr' fun side => ⟨fun hle => ?_, fun ⟨hnonneg, hfits⟩ => ?_⟩
  · have hnonneg := (filledQuantity_nonneg (fs.filter fun f => f.side = side)).trans hle
    exact ⟨hnonneg, (hmatched.side_le_iff hquote hrespect hnonneg).mp hle⟩
  · exact (hmatched.side_le_iff hquote hrespect hnonneg).mpr hfits

/-- A quote of four shares on each side, with a volume that is not known. -/
def fourShown : MarketState :=
  { bid := 99, ask := 101, bid_size := 4, ask_size := 4, has_quote := true, volume_known := false }

theorem twoBuys_fourShown :
    (twoBuys.on_market 0 fourShown 2000000).1.toOption.map (sideQuantity .Buy) = some 8 := by
  decide +kernel

theorem BrokerSimulator.displayed_iff_fourShown :
    ∃ fs, (twoBuys.on_market 0 fourShown 2000000).1 = .ok fs ∧
      ((∀ side, sideQuantity side fs ≤ fourShown.displayed side) ↔
        ∀ side, 0 ≤ fourShown.displayed side ∧
          FitsShown side (fourShown.displayed side) (fourShown.displayed side)
            (twoBuys.visits 0 fourShown 2000000)) := by
  obtain ⟨fs, hfs, -⟩ := Option.map_eq_some_iff.mp twoBuys_fourShown
  have hok := Result.toOption_eq_some.mp hfs
  exact ⟨fs, hok, BrokerSimulator.displayed_iff (by decide) (by decide +kernel) hok⟩

/-- Two buys of four are both filled from the same four displayed shares. -/
theorem BrokerSimulator.displayed_exceeded :
    ¬ ∀ (b : BrokerSimulator Unit) (instrument : InstrumentId) (state : MarketState) (now : Timestamp)
      (fs : List Fill), b.fill_cfg.respect_displayed_size = true → state.has_quote = true →
      (b.on_market instrument state now).1 = .ok fs →
      sideQuantity .Buy fs ≤ state.ask_size ∧ sideQuantity .Sell fs ≤ state.bid_size := by
  intro hshared
  obtain ⟨fs, hfs, height⟩ := Option.map_eq_some_iff.mp twoBuys_fourShown
  have hle := (hshared twoBuys 0 fourShown 2000000 fs (by decide +kernel) rfl
    (Result.toOption_eq_some.mp hfs)).1
  rw [height] at hle
  exact absurd hle (by decide +kernel)

end ptl.execution
