import Mathlib.Tactic.Ring
import TradingLab.Construction.Deltas

/-! What a plan trades, and what would be traded by planning again once it is
carried out. -/

open ptl.oms ptl.portfolio ptl.execution
open Std (TreeMap)

namespace ptl.construction

open RebalanceEngine

/-! ### The law of a plan -/

/-- The instrument is held, and not flat. -/
def Open (pf : Portfolio) (i : InstrumentId) : Prop := ∃ pos, pf.position i = some pos ∧ pos.is_flat = false

theorem open_iff {pf : Portfolio} {i : InstrumentId} : Open pf i ↔ pf.settledQuantity i ≠ 0 := by
  rw [Open, Portfolio.settledQuantity]
  cases pf.position i with
  | none => simp
  | some pos => simp [Position.is_flat]

/-- A trade goes toward its target, not beyond it, and stops less than a lot
short. -/
structure RebalanceTrade.Toward (t : RebalanceTrade) (cfg : RebalanceConfig) : Prop where
  same_way : 0 < t.delta_quantity * (t.target_quantity - t.current_quantity)
  within : |t.delta_quantity| ≤ |t.target_quantity - t.current_quantity|
  remainder : 0 < cfg.lot_size → |t.target_quantity - t.current_quantity - t.delta_quantity| < cfg.lot_size

/-- What the trades that are made turn over. -/
def RebalancePlan.traded (p : RebalancePlan) : Notional :=
  ((p.trades.filter fun t => ¬ t.skipped).map fun t => |t.delta_quantity| * t.reference_price).sum

structure RebalancePlan.Lawful (p : RebalancePlan) (cfg : RebalanceConfig) (targets : TargetPortfolio)
    (pf : Portfolio) : Prop where
  one_each : (p.trades.map RebalanceTrade.instrument).Nodup
  held_or_targeted : ∀ i, i ∈ p.trades.map RebalanceTrade.instrument ↔ i ∈ targets.targets ∨ Open pf i
  quantities : ∀ t ∈ p.trades,
    t.current_quantity = pf.settledQuantity t.instrument ∧ t.target_quantity = targets.wanted t.instrument
  toward : ∀ t ∈ p.trades, t.skipped = false → t.Toward cfg
  turnover : p.gross_turnover = p.traded

theorem mem_universe_iff {targets : TargetPortfolio} {pf : Portfolio} {i : InstrumentId} :
    i ∈ (instrument_universe targets pf).keys ↔ i ∈ targets.targets ∨ Open pf i := by
  rw [TreeMap.mem_keys, instrument_universe, Table.mem_foldl_insert, Table.mem_foldl_insert, TreeMap.mem_keys,
    or_comm]
  refine or_congr (or_iff_left TreeMap.not_mem_emptyc) ?_
  constructor
  · intro hheld
    obtain ⟨⟨key, pos⟩, hmem, rfl⟩ := List.mem_map.mp hheld
    obtain ⟨hentry, hopen⟩ := List.mem_filter.mp hmem
    exact ⟨pos, TreeMap.mem_toList_iff_getElem?_eq_some.mp hentry, by simpa using hopen⟩
  · rintro ⟨pos, hpos, hopen⟩
    refine List.mem_map.mpr ⟨(i, pos), List.mem_filter.mpr ⟨?_, by simpa using hopen⟩, rfl⟩
    exact TreeMap.mem_toList_iff_getElem?_eq_some.mpr hpos

theorem RebalanceConfig.settle_quantities (cfg : RebalanceConfig) (trade : RebalanceTrade) :
    (cfg.settle trade).current_quantity = trade.current_quantity ∧
      (cfg.settle trade).target_quantity = trade.target_quantity := by
  unfold RebalanceConfig.settle RebalanceTrade.skip
  dsimp only
  repeat' split
  all_goals exact ⟨rfl, rfl⟩

theorem RebalanceConfig.planTrade_quantities (cfg : RebalanceConfig) (targets : TargetPortfolio) (pf : Portfolio)
    (i : InstrumentId) :
    (cfg.planTrade targets pf i).current_quantity = pf.settledQuantity i ∧
      (cfg.planTrade targets pf i).target_quantity = targets.wanted i := by
  unfold RebalanceConfig.planTrade
  split
  · exact ⟨rfl, rfl⟩
  · exact cfg.settle_quantities _

/-- Rounding turns nothing round. -/
theorem mul_pos_of_toLots_ne_zero {lot_size want : Rat} (hrounded : toLots lot_size want ≠ 0) :
    0 < toLots lot_size want * want := by
  have hbelow := le_toLots lot_size want
  have habove := toLots_le lot_size want
  rcases lt_or_gt_of_ne hrounded with hneg | hpos
  · refine mul_pos_of_neg_of_neg hneg (not_le.mp fun hwant => ?_)
    rw [min_eq_left hwant] at hbelow
    exact absurd hneg (not_lt.mpr hbelow)
  · refine mul_pos hpos (not_le.mp fun hwant => ?_)
    rw [max_eq_left hwant] at habove
    exact absurd hpos (not_lt.mpr habove)

theorem RebalanceTrade.Makes.toward {t : RebalanceTrade} {cfg : RebalanceConfig} {targets : TargetPortfolio}
    {pf : Portfolio} {price : Price} (hmakes : t.Makes cfg targets pf price)
    (htraded : cfg.Trades targets pf t.instrument)
    (hgap : t.target_quantity - t.current_quantity = missing targets pf t.instrument) : t.Toward cfg := by
  have hrounded := hmakes.delta_ne_zero htraded
  rw [hmakes.delta_eq] at hrounded
  refine ⟨?_, ?_, fun hlot => ?_⟩
  · rw [hgap, hmakes.delta_eq]
    exact mul_pos_of_toLots_ne_zero hrounded
  · rw [hgap, hmakes.delta_eq]
    exact abs_toLots_le _ _
  · rw [hgap, hmakes.delta_eq]
    exact abs_sub_toLots_lt hlot _

theorem RebalanceEngine.plan_gross {r : RebalanceEngine} {targets : TargetPortfolio} {pf : Portfolio}
    {plan : RebalancePlan} (hplan : r.plan targets pf = .ok plan) :
    plan.gross_turnover = ((plan.trades.filter fun t => ¬ t.skipped).map RebalanceTrade.notional).sum := by
  unfold RebalanceEngine.plan at hplan
  dsimp only at hplan
  split at hplan
  · cases hplan
  · split at hplan
    · cases hplan
    · cases hplan
      rfl

theorem RebalanceEngine.plan_lawful {r : RebalanceEngine} {targets : TargetPortfolio} {pf : Portfolio}
    {plan : RebalancePlan} (hplan : r.plan targets pf = .ok plan) : plan.Lawful r.cfg targets pf := by
  have htrades := (plan_ok hplan).1
  have hinstruments : plan.trades.map RebalanceTrade.instrument = (instrument_universe targets pf).keys := by
    rw [htrades, trades, List.map_map]
    exact (List.map_congr_left fun i _ => r.cfg.planTrade_instrument targets pf i).trans (List.map_id _)
  have hquantities : ∀ t ∈ plan.trades,
      t.current_quantity = pf.settledQuantity t.instrument ∧ t.target_quantity = targets.wanted t.instrument := by
    intro t ht
    rw [htrades] at ht
    obtain ⟨i, -, rfl⟩ := List.mem_map.mp ht
    rw [RebalanceConfig.planTrade_instrument]
    exact r.cfg.planTrade_quantities targets pf i
  refine ⟨?_, fun i => ?_, hquantities, fun t ht hmade => ?_, ?_⟩
  · rw [hinstruments]
    exact Table.nodup_keys _
  · rw [hinstruments]
    exact mem_universe_iff
  · obtain ⟨price, -, hmakes, htraded⟩ := makes_of_mem (htrades ▸ ht) hmade
    obtain ⟨hcurrent, htarget⟩ := hquantities t ht
    exact hmakes.toward htraded (by rw [hcurrent, htarget, missing])
  · rw [plan_gross hplan, RebalancePlan.traded]
    congr 1
    refine List.map_congr_left fun t ht => ?_
    obtain ⟨ht, hopen⟩ := List.mem_filter.mp ht
    obtain ⟨price, -, hmakes, -⟩ := makes_of_mem (htrades ▸ ht) (by simpa using hopen)
    rw [hmakes.notional_eq, hmakes.price_eq]

/-! ### Carrying a plan out -/

/-- The fills of a plan, each accepted. -/
def applyFills (pf : Portfolio) : List Fill → Option Portfolio
  | [] => some pf
  | f :: fs =>
    match pf.apply f with
    | (.error _, _) => none
    | (.ok _, pf) => applyFills pf fs

/-- A trade filled in full at its reference price, at no cost. -/
structure RebalanceTrade.FilledBy (t : RebalanceTrade) (f : Fill) : Prop where
  instrument_eq : f.instrument = t.instrument
  side_eq : f.side = t.side
  quantity_eq : f.quantity = |t.delta_quantity|
  price_eq : f.price = t.reference_price
  free : f.total_cost = 0

/-- The trades that are made are filled in some order, and what is traded is
marked at its reference price. Whatever else is planned may be marked so too. -/
structure RebalancePlan.Executed (p : RebalancePlan) (targets : TargetPortfolio) (pf : Portfolio)
    (fills : List Fill) (pf' : Portfolio) : Prop where
  filled : ∃ made, made.Perm (p.trades.filter fun t => ¬ t.skipped) ∧
    List.Forall₂ RebalanceTrade.FilledBy made fills
  booked : ∃ pf₁, applyFills pf fills = some pf₁ ∧ pf' = { pf₁ with marks := pf'.marks }
  marked : ∀ t ∈ p.trades, t.skipped = false →
    pf'.marks[t.instrument]? = some { bid := t.reference_price, ask := t.reference_price }
  others : ∀ i, pf'.marks[i]? = pf.marks[i]? ∨
    ∃ price ∈ tradePrice targets pf i, pf'.marks[i]? = some { bid := price, ask := price }

section Fills

variable {pf pf' : Portfolio} {fs : List Fill}

theorem applyFills_cons {f : Fill} (happlied : applyFills pf (f :: fs) = some pf') :
    ∃ done pf₁, pf.apply f = (.ok done, pf₁) ∧ applyFills pf₁ fs = some pf' := by
  unfold applyFills at happlied
  split at happlied
  · cases happlied
  · rename_i done pf₁ hfirst
    exact ⟨done, pf₁, hfirst, happlied⟩

/-- Whatever every accepted fill preserves, all of them preserve. -/
theorem applyFills_invariant {I : Portfolio → Prop}
    (hstep : ∀ pf f done pf₁, f ∈ fs → I pf → pf.apply f = (.ok done, pf₁) → I pf₁) (hinit : I pf)
    (happlied : applyFills pf fs = some pf') : I pf' := by
  induction fs generalizing pf with
  | nil =>
    cases happlied
    exact hinit
  | cons f fs ih =>
    obtain ⟨done, pf₁, hfirst, hrest⟩ := applyFills_cons happlied
    exact ih (fun pf f done pf₁ hf => hstep pf f done pf₁ (List.mem_cons_of_mem _ hf))
      (hstep _ _ _ _ List.mem_cons_self hinit hfirst) hrest

theorem applyFills_keeps (happlied : applyFills pf fs = some pf') :
    pf'.cfg = pf.cfg ∧ pf'.marks = pf.marks := by
  refine applyFills_invariant (I := fun pf₁ => pf₁.cfg = pf.cfg ∧ pf₁.marks = pf.marks) ?_ ⟨rfl, rfl⟩ happlied
  intro pf₁ f done pf₂ _ hsame hfirst
  rw [Portfolio.apply_ok hfirst]
  exact hsame

/-- A position is changed by the fills of its own instrument only. -/
theorem applyFills_position {i : InstrumentId} (hnone : ∀ f ∈ fs, f.instrument ≠ i)
    (happlied : applyFills pf fs = some pf') : pf'.positions[i]? = pf.positions[i]? := by
  refine applyFills_invariant (I := fun pf₁ => pf₁.positions[i]? = pf.positions[i]?) ?_ rfl happlied
  intro pf₁ f done pf₂ hf hsame hfirst
  rw [Portfolio.apply_ok hfirst]
  exact (Table.getElem?_insert_of_ne _ _ (hnone f hf)).trans hsame

theorem settledQuantity_congr {i : InstrumentId} (hsame : pf'.positions[i]? = pf.positions[i]?) :
    pf'.settledQuantity i = pf.settledQuantity i := by
  rw [Portfolio.settledQuantity, Portfolio.settledQuantity, Portfolio.position, Portfolio.position, hsame]

/-- Of an instrument with one fill, that fill is what changes. -/
theorem applyFills_quantity {f : Fill} (hdistinct : (fs.map Fill.instrument).Nodup) (hf : f ∈ fs)
    (happlied : applyFills pf fs = some pf') :
    pf'.settledQuantity f.instrument = pf.settledQuantity f.instrument + f.signed_quantity := by
  induction fs generalizing pf with
  | nil => cases hf
  | cons g fs ih =>
    obtain ⟨done, pf₁, hfirst, hrest⟩ := applyFills_cons happlied
    obtain ⟨hnew, hdistinct⟩ := List.nodup_cons.mp hdistinct
    have hmoved := Portfolio.settledQuantity_apply hfirst f.instrument
    rcases List.mem_cons.mp hf with rfl | hf
    · rw [if_pos rfl] at hmoved
      have hother : ∀ g ∈ fs, g.instrument ≠ f.instrument := by
        intro g hg heq
        exact hnew (List.mem_map.mpr ⟨g, hg, heq⟩)
      rw [settledQuantity_congr (applyFills_position hother hrest), hmoved]
    · rw [if_neg fun heq => hnew (List.mem_map.mpr ⟨f, hf, heq.symm⟩), add_zero] at hmoved
      rw [ih hdistinct hf hrest, hmoved]

end Fills

/-! ### Planning again -/

/-- An instrument that only the drift threshold holds back, and no longer at
another equity. -/
structure RebalanceConfig.HeldBack (cfg : RebalanceConfig) (targets : TargetPortfolio) (pf : Portfolio)
    (equity : Notional) (i : InstrumentId) (price : Price) : Prop where
  priced : tradePrice targets pf i = some price
  partially : cfg.mode = .Partial
  drifted : |missing targets pf i| * price / pf.equity < cfg.drift_threshold
  worth : cfg.Worth equity (missing targets pf i) price

/-- The instrument is traded by the plan. -/
def RebalancePlan.Acts (p : RebalancePlan) (i : InstrumentId) : Prop :=
  ∃ t ∈ p.trades, t.instrument = i ∧ t.skipped = false

section Again

variable {r : RebalanceEngine} {cfg : RebalanceConfig} {targets : TargetPortfolio} {pf pf' : Portfolio}
  {plan : RebalancePlan} {fills : List Fill} {i : InstrumentId}

theorem RebalancePlan.acts_iff (hplan : r.plan targets pf = .ok plan) :
    plan.Acts i ↔ i ∈ (instrument_universe targets pf).keys ∧ r.cfg.Trades targets pf i := by
  rw [RebalancePlan.Acts, (plan_ok hplan).1]
  constructor
  · rintro ⟨t, ht, rfl, hmade⟩
    exact ⟨(trade_cases ht).1, (skipped_iff ht).mp hmade⟩
  · rintro ⟨hi, htraded⟩
    have hinstrument := r.cfg.planTrade_instrument targets pf i
    have ht : r.cfg.planTrade targets pf i ∈ r.trades targets pf := List.mem_map_of_mem hi
    exact ⟨_, ht, hinstrument, (skipped_iff ht).mpr (by rwa [hinstrument])⟩

/-- What is neither targeted nor held is not missing. -/
theorem mem_universe_of_missing (hmissing : missing targets pf i ≠ 0) :
    i ∈ (instrument_universe targets pf).keys := by
  rw [mem_universe_iff]
  by_contra hnone
  obtain ⟨hfree, hflat⟩ := not_or.mp hnone
  refine hmissing ?_
  have hwanted : targets.wanted i = 0 := by
    rw [TargetPortfolio.wanted, TreeMap.getElem?_eq_none hfree]
    rfl
  have hsettled : pf.settledQuantity i = 0 := not_not.mp fun hheld => hflat (open_iff.mpr hheld)
  rw [missing, hwanted, hsettled, sub_zero]

theorem RebalanceConfig.Trades.mem_universe (htraded : cfg.Trades targets pf i) :
    i ∈ (instrument_universe targets pf).keys := by
  obtain ⟨_, -, hworth⟩ := htraded
  exact mem_universe_of_missing hworth.nonzero

/-- A trade filled in full moves the position by its delta. -/
theorem RebalanceTrade.Makes.filledBy {t : RebalanceTrade} {price : Price} {f : Fill}
    (hmakes : t.Makes cfg targets pf price) (hfilled : t.FilledBy f) :
    f.signed_quantity = toLots cfg.lot_size (missing targets pf t.instrument) := by
  rw [Fill.signed_quantity, hfilled.side_eq, hfilled.quantity_eq, hmakes.signed_delta, hmakes.delta_eq]

/-- A fill of what is to be traded of its instrument. -/
structure RebalanceConfig.Carries (cfg : RebalanceConfig) (targets : TargetPortfolio) (pf : Portfolio) (f : Fill) :
    Prop where
  traded : cfg.Trades targets pf f.instrument
  signed_eq : f.signed_quantity = toLots cfg.lot_size (missing targets pf f.instrument)
  price_eq : tradePrice targets pf f.instrument = some f.price
  free : f.total_cost = 0

/-- The fills of an executed plan are of different instruments, one for each that
is traded. -/
theorem RebalancePlan.Executed.fills_of (hplan : r.plan targets pf = .ok plan)
    (hexecuted : plan.Executed targets pf fills pf') :
    (fills.map Fill.instrument).Nodup ∧ (∀ f ∈ fills, r.cfg.Carries targets pf f) ∧
      ∀ i, r.cfg.Trades targets pf i → ∃ f ∈ fills, f.instrument = i := by
  obtain ⟨made, hperm, hforall⟩ := hexecuted.filled
  have htrades := (plan_ok hplan).1
  have hinstruments : fills.map Fill.instrument = made.map RebalanceTrade.instrument := by
    clear hperm hexecuted
    induction hforall with
    | nil => rfl
    | cons hhead _ ih => rw [List.map_cons, List.map_cons, hhead.instrument_eq, ih]
  have hsource : ∀ f ∈ fills, ∃ t ∈ made, t.FilledBy f := by
    clear hperm hexecuted hinstruments
    induction hforall with
    | nil => exact fun f hf => absurd hf List.not_mem_nil
    | cons hhead _ ih =>
      intro f hf
      rcases List.mem_cons.mp hf with rfl | hf
      · exact ⟨_, List.mem_cons_self, hhead⟩
      · obtain ⟨t, ht, hfilled⟩ := ih f hf
        exact ⟨t, List.mem_cons_of_mem _ ht, hfilled⟩
  refine ⟨?_, fun f hf => ?_, fun i htraded => ?_⟩
  · rw [hinstruments, (hperm.map _).nodup_iff]
    exact (plan_lawful hplan).one_each.sublist ((List.filter_sublist).map _)
  · obtain ⟨t, ht, hfilled⟩ := hsource f hf
    obtain ⟨ht, hopen⟩ := List.mem_filter.mp (hperm.mem_iff.mp ht)
    rw [htrades] at ht
    obtain ⟨price, hprice, hmakes, htraded⟩ := makes_of_mem ht (by simpa using hopen)
    have hsome : tradePrice targets pf t.instrument = some price := hprice
    rw [← hmakes.price_eq, ← hfilled.price_eq, ← hfilled.instrument_eq] at hsome
    have hsigned := hmakes.filledBy hfilled
    rw [← hfilled.instrument_eq] at htraded hsigned
    exact ⟨htraded, hsigned, hsome, hfilled.free⟩
  · obtain ⟨t, ht, rfl, hmade⟩ := (RebalancePlan.acts_iff hplan).mpr ⟨htraded.mem_universe, htraded⟩
    have hmem : t ∈ made := hperm.mem_iff.mpr (List.mem_filter.mpr ⟨ht, by simpa using hmade⟩)
    have hkey : t.instrument ∈ fills.map Fill.instrument := by
      rw [hinstruments]
      exact List.mem_map_of_mem hmem
    simpa using hkey

/-- Of an instrument that is traded, less than a lot is missing afterwards, or
nothing where there are no lots. -/
theorem RebalancePlan.Executed.settles (hplan : r.plan targets pf = .ok plan)
    (hexecuted : plan.Executed targets pf fills pf') (htraded : r.cfg.Trades targets pf i) :
    ¬ r.cfg.Trades targets pf' i := by
  obtain ⟨hdistinct, hcarries, hfound⟩ := hexecuted.fills_of hplan
  obtain ⟨f, hf, rfl⟩ := hfound i htraded
  obtain ⟨pf₁, happlied, heq⟩ := hexecuted.booked
  have hsettled : pf'.settledQuantity f.instrument = pf.settledQuantity f.instrument +
      toLots r.cfg.lot_size (missing targets pf f.instrument) := by
    have hmoved := applyFills_quantity hdistinct hf happlied
    rw [(hcarries f hf).signed_eq] at hmoved
    rw [heq]
    exact hmoved
  have hleft : missing targets pf' f.instrument = missing targets pf f.instrument -
      toLots r.cfg.lot_size (missing targets pf f.instrument) := by
    rw [missing, hsettled]
    exact sub_add_eq_sub_sub _ _ _
  rintro ⟨price, -, hworth⟩
  rw [hleft] at hworth
  rcases lt_or_ge 0 r.cfg.lot_size with hlot | hlot
  · exact absurd hworth.lot (not_le.mpr (abs_sub_toLots_lt hlot _))
  · exact hworth.nonzero (by rw [toLots_of_nonpos hlot, sub_self])

/-- An instrument that is not traded keeps its position, and its price. -/
theorem RebalancePlan.Executed.keeps (hplan : r.plan targets pf = .ok plan)
    (hexecuted : plan.Executed targets pf fills pf') (hidle : ¬ r.cfg.Trades targets pf i) :
    pf'.positions[i]? = pf.positions[i]? ∧ tradePrice targets pf' i = tradePrice targets pf i := by
  obtain ⟨-, hcarries, -⟩ := hexecuted.fills_of hplan
  obtain ⟨pf₁, happlied, heq⟩ := hexecuted.booked
  have hposition : pf'.positions[i]? = pf.positions[i]? := by
    have hsame := applyFills_position (i := i) (fun f hf hi => hidle (hi ▸ (hcarries f hf).traded)) happlied
    rw [heq]
    exact hsame
  have hcfg : pf'.cfg = pf.cfg := by
    rw [heq]
    exact (applyFills_keeps happlied).1
  refine ⟨hposition, ?_⟩
  have hprice : tradePrice targets pf i =
      (targets.targets[i]?).elim (pf.mark_price i) fun t => some t.reference_price := by
    unfold tradePrice
    cases targets.targets[i]? <;> rfl
  unfold tradePrice
  cases htarget : targets.targets[i]? with
  | some target => rfl
  | none =>
    dsimp only
    rw [htarget, Option.elim_none] at hprice
    rcases hexecuted.others i with hmarks | ⟨price, hsome, hmarks⟩
    · unfold Portfolio.mark_price Portfolio.mark_for
      rw [hmarks, hposition, hcfg]
    · have hmarked : pf.mark_price i = some price := hprice.symm.trans hsome
      rw [hmarked, Portfolio.mark_price, hmarks]
      dsimp only
      cases pf'.positions[i]? with
      | none => rfl
      | some pos => exact congrArg some (Portfolio.mark_for_of_marks hmarks pos)

theorem RebalancePlan.Executed.trades_iff (hplan : r.plan targets pf = .ok plan)
    (hexecuted : plan.Executed targets pf fills pf') :
    r.cfg.Trades targets pf' i ↔ ∃ price, r.cfg.HeldBack targets pf pf'.equity i price := by
  by_cases htraded : r.cfg.Trades targets pf i
  · refine iff_of_false (hexecuted.settles hplan htraded) ?_
    rintro ⟨price, hback⟩
    obtain ⟨other, hother, hworth⟩ := htraded
    cases Option.some.inj (hback.priced.symm.trans hother)
    exact absurd hback.drifted (not_lt.mpr (hworth.drifted hback.partially))
  · obtain ⟨hposition, hprice⟩ := hexecuted.keeps hplan htraded
    have hmissing : missing targets pf' i = missing targets pf i := by
      rw [missing, missing, settledQuantity_congr hposition]
    unfold RebalanceConfig.Trades
    rw [hprice, hmissing]
    constructor
    · rintro ⟨price, hsome, hworth⟩
      have hnot : ¬ r.cfg.Worth pf.equity (missing targets pf i) price := fun h => htraded ⟨price, hsome, h⟩
      have hbelow : ¬ (r.cfg.mode = .Partial → r.cfg.drift_threshold ≤ |missing targets pf i| * price / pf.equity) :=
        fun hdrifted => hnot ⟨hworth.nonzero, hdrifted, hworth.large, hworth.lot⟩
      obtain ⟨hmode, hdrifted⟩ := Classical.not_imp.mp hbelow
      exact ⟨price, hsome, hmode, not_le.mp hdrifted, hworth⟩
    · rintro ⟨price, hback⟩
      exact ⟨price, hback.priced, hback.worth⟩

/-! ### What an executed plan is worth -/

/-- What a portfolio is worth at given prices. -/
def valuedAt (pf : Portfolio) (price : InstrumentId → Price) : Notional :=
  pf.cash + Table.sum (fun _ pos => pos.quantity * price pos.instrument) pf.positions

theorem equity_eq_valuedAt {price : InstrumentId → Price} (hkeyed : pf.Keyed)
    (hmarked : ∀ i pos, pf.positions[i]? = some pos → pos.is_flat = false → pf.mark_for i pos = price i) :
    pf.equity = valuedAt pf price := by
  rw [Portfolio.equity, valuedAt, Portfolio.position_value_eq_sum]
  congr 1
  refine Table.sum_congr fun i pos hpos => ?_
  rw [hkeyed i pos hpos]
  split
  · rename_i hflat
    have hquantity : pos.quantity = 0 := by simpa [Position.is_flat] using hflat
    rw [hquantity, zero_mul]
  · rename_i hopen
    rw [Position.market_value, hmarked i pos hpos (by simpa using hopen)]

/-- Trading at the prices that value the portfolio, at no cost, leaves its value
as it was. -/
theorem valuedAt_apply (price : InstrumentId → Price) {pf₁ : Portfolio} {f : Fill} {done : Bool}
    (hkeyed : pf.Keyed) (hprice : f.price = price f.instrument) (hfree : f.total_cost = 0)
    (happly : pf.apply f = (.ok done, pf₁)) : valuedAt pf₁ price = valuedAt pf price ∧ pf₁.Keyed := by
  have hinstrument : ((pf.held f.instrument).apply f).2.instrument = f.instrument := hkeyed.held f.instrument
  refine ⟨?_, hkeyed.insert hinstrument (by rw [Portfolio.apply_ok happly])⟩
  have hsum := pf.sum_insert (fun pos => pos.quantity * price pos.instrument) f.instrument
    ((pf.held f.instrument).apply f).2 (zero_mul _)
  have hquantity : ((pf.held f.instrument).apply f).2.quantity =
      (pf.held f.instrument).quantity + f.signed_quantity := rfl
  rw [hinstrument, hkeyed.held, hquantity] at hsum
  rw [Portfolio.apply_ok happly]
  simp only [valuedAt]
  rw [hsum, Fill.cash_delta_eq, hfree, hprice]
  ring

/-- What is held and has a price is marked at it. -/
def MarkedAtReference (targets : TargetPortfolio) (pf : Portfolio) : Prop :=
  ∀ i pos, pf.position i = some pos → pos.is_flat = false →
    ∀ price ∈ tradePrice targets pf i, pf.mark_for i pos = price

/-- The price an instrument is traded at, or else the one it is valued at. -/
def planPrice (targets : TargetPortfolio) (pf : Portfolio) (i : InstrumentId) : Price :=
  (tradePrice targets pf i).getD (pf.mark_for i (pf.held i))

theorem MarkedAtReference.mark_for_eq (hmarked : MarkedAtReference targets pf) {pos : Position}
    (hpos : pf.positions[i]? = some pos) (hopen : pos.is_flat = false) :
    pf.mark_for i pos = planPrice targets pf i := by
  rw [planPrice]
  cases hprice : tradePrice targets pf i with
  | none => rw [Option.getD_none, Portfolio.held_of_some hpos]
  | some price => exact hmarked i pos hpos hopen price hprice

/-- Afterwards, too, what is held is marked at the price of the plan. -/
theorem RebalancePlan.Executed.mark_for_eq (hplan : r.plan targets pf = .ok plan)
    (hexecuted : plan.Executed targets pf fills pf') (hmarked : MarkedAtReference targets pf) {pos : Position}
    (hpos : pf'.positions[i]? = some pos) (hopen : pos.is_flat = false) :
    pf'.mark_for i pos = planPrice targets pf i := by
  have hpriced : ∀ price ∈ tradePrice targets pf i, pf'.marks[i]? = some { bid := price, ask := price } →
      pf'.mark_for i pos = planPrice targets pf i := by
    intro price hprice hmarks
    have hsome : tradePrice targets pf i = some price := hprice
    rw [Portfolio.mark_for_of_marks hmarks, planPrice, hsome, Option.getD_some]
  by_cases htraded : r.cfg.Trades targets pf i
  · obtain ⟨t, ht, rfl, hmade⟩ := (RebalancePlan.acts_iff hplan).mpr ⟨htraded.mem_universe, htraded⟩
    have hmarks := hexecuted.marked t ht hmade
    rw [(plan_ok hplan).1] at ht
    obtain ⟨price, hprice, hmakes, -⟩ := makes_of_mem ht hmade
    rw [hmakes.price_eq] at hmarks
    exact hpriced price hprice hmarks
  · rcases hexecuted.others i with hmarks | ⟨price, hprice, hmarks⟩
    · obtain ⟨pf₁, happlied, heq⟩ := hexecuted.booked
      have hcfg : pf'.cfg = pf.cfg := by
        rw [heq]
        exact (applyFills_keeps happlied).1
      rw [(hexecuted.keeps hplan htraded).1] at hpos
      rw [← hmarked.mark_for_eq hpos hopen, Portfolio.mark_for, Portfolio.mark_for, hmarks, hcfg]
    · exact hpriced price hprice hmarks

/-- Trading at the marks leaves the equity as it was. -/
theorem RebalancePlan.Executed.equity_eq (hplan : r.plan targets pf = .ok plan)
    (hexecuted : plan.Executed targets pf fills pf') (hkeyed : pf.Keyed) (hmarked : MarkedAtReference targets pf) :
    pf'.equity = pf.equity := by
  obtain ⟨-, hcarries, -⟩ := hexecuted.fills_of hplan
  obtain ⟨pf₁, happlied, heq⟩ := hexecuted.booked
  have hbooked : valuedAt pf₁ (planPrice targets pf) = valuedAt pf (planPrice targets pf) ∧ pf₁.Keyed := by
    refine applyFills_invariant
      (I := fun pf₂ => valuedAt pf₂ (planPrice targets pf) = valuedAt pf (planPrice targets pf) ∧ pf₂.Keyed) ?_
      ⟨rfl, hkeyed⟩ happlied
    intro pf₂ f done pf₃ hf hsame hfirst
    have hprice : f.price = planPrice targets pf f.instrument := by
      rw [planPrice, (hcarries f hf).price_eq, Option.getD_some]
    obtain ⟨hvalue, hkeyed₃⟩ := valuedAt_apply (planPrice targets pf) hsame.2 hprice (hcarries f hf).free hfirst
    exact ⟨hvalue.trans hsame.1, hkeyed₃⟩
  have hkeyed' : pf'.Keyed := by
    rw [heq]
    exact hbooked.2
  have hvalue : valuedAt pf' (planPrice targets pf) = valuedAt pf₁ (planPrice targets pf) := by
    rw [heq]
    rfl
  rw [equity_eq_valuedAt hkeyed' fun i pos => hexecuted.mark_for_eq hplan hmarked,
    equity_eq_valuedAt hkeyed fun i pos => hmarked.mark_for_eq, hvalue, hbooked.1]

/-- With the equity as it was, planning again trades nothing. -/
theorem RebalancePlan.Executed.again (hplan : r.plan targets pf = .ok plan)
    (hexecuted : plan.Executed targets pf fills pf') (hequity : pf'.equity = pf.equity) :
    ∃ plan', r.plan targets pf' = .ok plan' ∧ plan'.actionable = 0 := by
  have hnone : ∀ i, ¬ r.cfg.Trades targets pf' i := by
    intro i htraded
    obtain ⟨price, hback⟩ := (hexecuted.trades_iff hplan).mp htraded
    have hworth := hback.worth
    rw [hequity] at hworth
    exact absurd hback.drifted (not_lt.mpr (hworth.drifted hback.partially))
  obtain ⟨-, hpositive, -⟩ := plan_ok hplan
  rw [← hequity] at hpositive
  have hturnover : r.cfg.turnover targets pf' = 0 := by
    rw [RebalanceConfig.turnover, List.filter_eq_nil_iff.mpr fun i _ => by simpa using hnone i]
    rfl
  obtain ⟨plan', hplan'⟩ := plan_of_turnover (r := r) hpositive fun hlimited => by
    rw [hturnover]
    exact mul_nonneg hlimited.le hpositive.le
  refine ⟨plan', hplan', ?_⟩
  by_contra hactionable
  obtain ⟨i, -, htraded⟩ := (actionable_ne_zero hplan').mp hactionable
  exact hnone i htraded

/-- A plan that succeeds has a trade for what is held or targeted, each toward its
target. Carried out and planned again, it trades exactly what the drift threshold
alone held back and, at the new equity, holds back no longer: nothing where the
equity is as it was, as when the book was marked at the prices of the plan. -/
theorem RebalanceEngine.plan_law (hplan : r.plan targets pf = .ok plan) :
    plan.Lawful r.cfg targets pf ∧
      ∀ fills pf', plan.Executed targets pf fills pf' →
        (∀ plan', r.plan targets pf' = .ok plan' →
          ∀ i, plan'.Acts i ↔ ∃ price, r.cfg.HeldBack targets pf pf'.equity i price) ∧
        (pf'.equity = pf.equity → ∃ plan', r.plan targets pf' = .ok plan' ∧ plan'.actionable = 0) ∧
        (pf.Keyed → MarkedAtReference targets pf → pf'.equity = pf.equity) := by
  refine ⟨plan_lawful hplan, fun fills pf' hexecuted => ⟨fun plan' hplan' i => ?_, ?_, ?_⟩⟩
  · rw [RebalancePlan.acts_iff hplan', ← hexecuted.trades_iff hplan]
    exact and_iff_right_of_imp RebalanceConfig.Trades.mem_universe
  · exact hexecuted.again hplan
  · exact hexecuted.equity_eq hplan

/-! ### Concrete plans -/

/-- A plan of one trade, carried out and marked. -/
theorem RebalancePlan.executed_one {t : RebalanceTrade} {f : Fill} {done : Bool} {pf₁ : Portfolio}
    (hmade : (plan.trades.filter fun t => ¬ t.skipped) = [t]) (hfilled : t.FilledBy f)
    (happly : pf.apply f = (.ok done, pf₁)) (hprice : tradePrice targets pf t.instrument = some t.reference_price) :
    plan.Executed targets pf [f] (pf₁.mark_last t.instrument t.reference_price) where
  filled := ⟨[t], by rw [hmade], .cons hfilled .nil⟩
  booked := ⟨pf₁, by rw [applyFills, happly]; rfl, rfl⟩
  marked u hu hopen := by
    have hmem : u ∈ plan.trades.filter fun t => ¬ t.skipped := List.mem_filter.mpr ⟨hu, by simpa using hopen⟩
    rw [hmade, List.mem_singleton] at hmem
    rw [hmem]
    exact Table.getElem?_insert_self _ _ _
  others i := by
    have hmarks : pf₁.marks = pf.marks := by rw [Portfolio.apply_ok happly]
    by_cases hi : t.instrument = i
    · subst hi
      exact .inr ⟨t.reference_price, hprice, Table.getElem?_insert_self _ _ _⟩
    · refine .inl ?_
      rw [← hmarks]
      exact Table.getElem?_insert_of_ne _ _ hi

end Again

/-- A book of ten thousand shares worth a million. -/
def sampleBook : Portfolio :=
  { Portfolio.new {} with
    cash := 0
    positions := TreeMap.insert ∅ 0 { instrument := 0, quantity := 10000, average_cost := 100 }
    marks := TreeMap.insert ∅ 0 { bid := 100, ask := 100 } }

/-- Fewer of the shares, and a few of another instrument. -/
def sampleTargets (quantity : Qty) (price : Price) : TargetPortfolio where
  as_of := 0
  targets := (TreeMap.insert ∅ 0
    { instrument := 0, target_quantity := quantity, reference_price := price : TargetPosition }).insert 1
      { instrument := 1, target_quantity := 450, reference_price := 10 }

/-- A sale of shares of the book. -/
def sampleSale (quantity : Qty) (price : Price) (hprice : 0 < price) (hquantity : 0 < quantity) : Fill where
  order_id := 1
  parent_id := 0
  instrument := 0
  side := .Sell
  price
  quantity
  commission := 0
  exchange_fee := 0
  liquidity := .Taker
  times := {}
  arrival_price := price
  price_pos := hprice
  quantity_pos := hquantity
  chain_valid := by decide

/-- The trade of the shares. The few of the other instrument drift too little. -/
def sampleTrade (target : Qty) (price : Price) : RebalanceTrade where
  instrument := 0
  current_quantity := 10000
  target_quantity := target
  delta_quantity := target - 10000
  side := .Sell
  reference_price := price
  notional := |target - 10000| * price
  drift := |target - 10000| * price / 1000000

/-- At the marks, one trade is made and planning again trades nothing. -/
theorem RebalanceEngine.plan_law_at_marks :
    ∃ (plan : RebalancePlan) (fills : List Fill) (pf' : Portfolio), plan.actionable = 1 ∧ plan.skipped = 1 ∧
      plan.Executed (sampleTargets 6000 100) sampleBook fills pf' ∧
      ∃ plan', RebalanceEngine.plan {} (sampleTargets 6000 100) pf' = .ok plan' ∧ plan'.actionable = 0 := by
  obtain ⟨plan, hplan, hends⟩ := Option.map_eq_some_iff.mp (show
    ((RebalanceEngine.plan {} (sampleTargets 6000 100) sampleBook).toOption.map fun p =>
      (p.trades.filter fun t => ¬ t.skipped, p.actionable, p.skipped)) =
        some ([sampleTrade 6000 100], 1, 1) by decide +kernel)
  simp only [Prod.mk.injEq] at hends
  have hexecuted : plan.Executed (sampleTargets 6000 100) sampleBook [sampleSale 4000 100 (by decide) (by decide)]
      ((sampleBook.apply (sampleSale 4000 100 (by decide) (by decide))).2.mark_last 0 100) :=
    RebalancePlan.executed_one (t := sampleTrade 6000 100) hends.1
      ⟨rfl, rfl, by decide +kernel, rfl, by decide +kernel⟩
      (Prod.ext (Result.toOption_eq_some.mp (show _ = some true by decide +kernel)) rfl) (by decide +kernel)
  refine ⟨plan, _, _, hends.2.1, hends.2.2, hexecuted, ?_⟩
  exact ((plan_law (Result.toOption_eq_some.mp hplan)).2 _ _ hexecuted).2.1 (by decide +kernel)

/-- The shares have fallen by half since they were marked. What was too small a
part of the book is not too small a part of what is left of it. -/
theorem RebalanceEngine.plan_again_trades :
    ∃ (plan plan' : RebalancePlan) (fills : List Fill) (pf' : Portfolio), 0 < sampleBook.equity ∧
      RebalanceEngine.plan {} (sampleTargets 5000 50) sampleBook = .ok plan ∧
      plan.Executed (sampleTargets 5000 50) sampleBook fills pf' ∧
      RebalanceEngine.plan {} (sampleTargets 5000 50) pf' = .ok plan' ∧ plan'.actionable = 1 := by
  obtain ⟨plan, hplan, hmade⟩ := Option.map_eq_some_iff.mp (show
    ((RebalanceEngine.plan {} (sampleTargets 5000 50) sampleBook).toOption.map fun p =>
      p.trades.filter fun t => ¬ t.skipped) = some [sampleTrade 5000 50] by decide +kernel)
  have hexecuted : plan.Executed (sampleTargets 5000 50) sampleBook [sampleSale 5000 50 (by decide) (by decide)]
      ((sampleBook.apply (sampleSale 5000 50 (by decide) (by decide))).2.mark_last 0 50) :=
    RebalancePlan.executed_one (t := sampleTrade 5000 50) hmade
      ⟨rfl, rfl, by decide +kernel, rfl, by decide +kernel⟩
      (Prod.ext (Result.toOption_eq_some.mp (show _ = some true by decide +kernel)) rfl) (by decide +kernel)
  obtain ⟨plan', hplan', hactionable⟩ := Option.map_eq_some_iff.mp (show
    ((RebalanceEngine.plan {} (sampleTargets 5000 50)
      ((sampleBook.apply (sampleSale 5000 50 (by decide) (by decide))).2.mark_last 0 50)).toOption.map
        RebalancePlan.actionable) = some 1 by decide +kernel)
  exact ⟨plan, plan', _, _, by decide +kernel, Result.toOption_eq_some.mp hplan, hexecuted,
    Result.toOption_eq_some.mp hplan', hactionable⟩

end ptl.construction
