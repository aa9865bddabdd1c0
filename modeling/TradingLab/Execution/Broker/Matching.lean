import Mathlib.Algebra.Order.BigOperators.Group.List
import TradingLab.Execution.Broker

open ptl.oms

namespace ptl.execution

variable {R : Type}

/-! ### One pending order -/

/-- The data of a pending order that a decision never changes. -/
structure PendingOrder.Carries (p p' : PendingOrder) : Prop where
  order_eq : p'.order = p.order
  arrival_eq : p'.arrival_time = p.arrival_time
  filled_eq : p'.filled = p.filled

/-- What is decided about a pending order, apart from the statistics. -/
def PendingOrder.decision (p : PendingOrder) (cfg : FillConfig) (instrument : InstrumentId)
    (state : MarketState) (now : Timestamp) (budget : Rat) : Decision :=
  (p.decide cfg instrument state now budget {}).1

/-- What holds of every execution, read off the guards of the loop. -/
structure PendingOrder.Executes (p : PendingOrder) (instrument : InstrumentId) (state : MarketState)
    (now : Timestamp) (budget : Rat) (p' : PendingOrder) (allowed : Qty) : Prop where
  carries : p.Carries p'
  instrument_matches : p.order.instrument = instrument
  arrived : p.arrival_time ≤ now
  marketable : p.order.is_marketable_against (touchOf state p.order.side) = true
  allowed_pos : 0 < allowed
  within_want : allowed ≤ p.order.quantity - p.filled
  within_budget : 0 < budget → allowed ≤ budget

section Decide

variable {cfg : FillConfig} {instrument : InstrumentId} {state : MarketState} {now : Timestamp}
  {budget : Rat} {side : Side} {want : Qty}

/-- The displayed size an order of this side sees. -/
def MarketState.displayed (state : MarketState) : Side → Qty
  | .Buy => state.ask_size
  | .Sell => state.bid_size

/-- What is left of a size after the displayed size caps it. -/
def MarketState.shown (state : MarketState) (cfg : FillConfig) (side : Side) (want : Qty) : Qty :=
  if state.has_quote ∧ cfg.respect_displayed_size ∧ state.displayed side < want
  then state.displayed side else want

theorem MarketState.shown_le (state : MarketState) (cfg : FillConfig) (side : Side) (want : Qty) :
    state.shown cfg side want ≤ want := by
  unfold MarketState.shown
  split
  · rename_i hshown
    exact le_of_lt hshown.2.2
  · exact le_refl _

theorem MarketState.shown_eq_min (hquote : state.has_quote = true) (hrespect : cfg.respect_displayed_size = true) :
    state.shown cfg side want = min want (state.displayed side) := by
  unfold MarketState.shown
  split
  · rename_i hless
    exact (min_eq_right (le_of_lt hless.2.2)).symm
  · rename_i hmore
    exact (min_eq_left (not_lt.mp fun hless => hmore ⟨hquote, hrespect, hless⟩)).symm

/-- The size offered to an order, whatever was counted before it. -/
theorem available_fst (stats : ExecutionStats) :
    (available cfg state side budget want stats).1 =
      if state.has_quote ∧ cfg.respect_displayed_size ∧ ¬ state.displayed side > 0 then none
      else if budget > 0 ∧ budget < state.shown cfg side want then some budget
      else if state.volume_known ∧ state.interval_volume ≤ 0 then none
      else some (state.shown cfg side want) := by
  simp only [available, apply_ite Prod.fst]
  rfl

theorem available_some {stats : ExecutionStats} {allowed : Qty}
    (havailable : (available cfg state side budget want stats).1 = some allowed) :
    allowed ≤ want ∧ (0 < budget → allowed ≤ budget) := by
  have hshown := state.shown_le cfg side want
  rw [available_fst] at havailable
  split at havailable
  · cases havailable
  · split at havailable
    · rename_i hbinds
      cases havailable
      exact ⟨(le_of_lt hbinds.2).trans hshown, fun _ => le_refl _⟩
    · rename_i hfree
      split at havailable
      · cases havailable
      · cases havailable
        exact ⟨hshown, fun hpos => not_lt.mp fun hlt => hfree ⟨hpos, hlt⟩⟩

theorem PendingOrder.decideLive_fst (p : PendingOrder) (stats stats' : ExecutionStats) :
    (p.decideLive cfg state budget stats).1 = (p.decideLive cfg state budget stats').1 := by
  have hsame : (available cfg state p.order.side budget (p.order.quantity - p.filled) stats).1 =
      (available cfg state p.order.side budget (p.order.quantity - p.filled) stats').1 :=
    (available_fst stats).trans (available_fst stats').symm
  simp only [PendingOrder.decideLive]
  split
  · rfl
  · split
    · rfl
    · revert hsame
      rcases available cfg state p.order.side budget (p.order.quantity - p.filled) stats with ⟨size, _⟩
      rcases available cfg state p.order.side budget (p.order.quantity - p.filled) stats' with ⟨size', _⟩
      rintro rfl
      cases size with
      | none => rfl
      | some allowed =>
        simp only
        split
        · rfl
        · split <;> rfl

variable (cfg instrument state now budget)

/-- The decision on a pending order does not depend on what was counted. -/
theorem PendingOrder.decide_fst (p : PendingOrder) (stats : ExecutionStats) :
    (p.decide cfg instrument state now budget stats).1 = p.decision cfg instrument state now budget := by
  simp only [PendingOrder.decision, PendingOrder.decide]
  split
  · rfl
  · split
    · rfl
    · split
      · rfl
      · split
        · exact PendingOrder.decideLive_fst _ _ _
        · exact PendingOrder.decideLive_fst _ _ _

/-- Past the stop gate a decision keeps the order, drops it complete or
killed, or executes some of what it still wants. -/
theorem PendingOrder.decideLive_cases (p : PendingOrder) (stats : ExecutionStats) :
    (p.decideLive cfg state budget stats).1 = .keep p ∨
    ((p.decideLive cfg state budget stats).1 = .erase ∧
      (p.order.quantity ≤ p.filled ∨ p.order.time_in_force = .FillOrKill)) ∨
    ∃ allowed, (p.decideLive cfg state budget stats).1 = .execute p allowed ∧
      p.order.is_marketable_against (touchOf state p.order.side) = true ∧ 0 < allowed ∧
      allowed ≤ p.order.quantity - p.filled ∧ (0 < budget → allowed ≤ budget) := by
  have hoffered : ∀ allowed,
      (available cfg state p.order.side budget (p.order.quantity - p.filled) stats).1 = some allowed →
        allowed ≤ p.order.quantity - p.filled ∧ (0 < budget → allowed ≤ budget) :=
    fun allowed => available_some
  simp only [PendingOrder.decideLive]
  split
  · exact .inl rfl
  · rename_i hmarketable
    split
    · rename_i hcomplete
      exact .inr (.inl ⟨rfl, .inl (sub_nonpos.mp hcomplete)⟩)
    · revert hoffered
      rcases available cfg state p.order.side budget (p.order.quantity - p.filled) stats with ⟨size, counted⟩
      intro hoffered
      cases size with
      | none => exact .inl rfl
      | some allowed =>
        obtain ⟨hwithin, hbudget⟩ := hoffered allowed rfl
        simp only
        split
        · exact .inl rfl
        · rename_i hpos
          split
          · rename_i hkilled
            exact .inr (.inl ⟨rfl, .inr hkilled.1⟩)
          · exact .inr (.inr ⟨allowed, rfl, by simpa using hmarketable, not_le.mp hpos, hwithin, hbudget⟩)

/-- The three decisions, with what each of them promises. -/
theorem PendingOrder.decision_cases (p : PendingOrder) :
    (∃ p', p.decision cfg instrument state now budget = .keep p' ∧ p.Carries p') ∨
    (p.decision cfg instrument state now budget = .erase ∧
      (p.order.quantity ≤ p.filled ∨ p.order.time_in_force = .FillOrKill)) ∨
    ∃ p' allowed, p.decision cfg instrument state now budget = .execute p' allowed ∧
      p.Executes instrument state now budget p' allowed := by
  have hself : p.Carries p := ⟨rfl, rfl, rfl⟩
  simp only [PendingOrder.decision, PendingOrder.decide]
  split
  · exact .inl ⟨p, rfl, hself⟩
  · rename_i hinstrument
    split
    · exact .inl ⟨p, rfl, hself⟩
    · rename_i harrived
      split
      · exact .inl ⟨p, rfl, hself⟩
      · -- The order that goes on differs from `p` at most in its stop flag.
        have hlive : ∀ (p' : PendingOrder) (stats : ExecutionStats), p.Carries p' →
            (∃ q, (p'.decideLive cfg state budget stats).1 = .keep q ∧ p.Carries q) ∨
            ((p'.decideLive cfg state budget stats).1 = .erase ∧
              (p.order.quantity ≤ p.filled ∨ p.order.time_in_force = .FillOrKill)) ∨
            ∃ q allowed, (p'.decideLive cfg state budget stats).1 = .execute q allowed ∧
              p.Executes instrument state now budget q allowed := by
          intro p' stats hcarries
          obtain hkeep | ⟨herase, hwhy⟩ | ⟨allowed, hexecute, hmarketable, hpos, hwithin, hbudget⟩ :=
            p'.decideLive_cases cfg state budget stats
          · exact .inl ⟨p', hkeep, hcarries⟩
          · rw [hcarries.order_eq, hcarries.filled_eq] at hwhy
            exact .inr (.inl ⟨herase, hwhy⟩)
          · rw [hcarries.order_eq] at hmarketable hwithin
            rw [hcarries.filled_eq] at hwithin
            exact .inr (.inr ⟨p', allowed, hexecute, hcarries, not_not.mp hinstrument,
              not_lt.mp harrived, hmarketable, hpos, hwithin, hbudget⟩)
        split
        · exact hlive _ _ ⟨rfl, rfl, rfl⟩
        · exact hlive _ _ hself

variable {cfg instrument state now budget}

theorem PendingOrder.executes_of_decision {p p' : PendingOrder} {allowed : Qty}
    (hdecision : p.decision cfg instrument state now budget = .execute p' allowed) :
    p.Executes instrument state now budget p' allowed := by
  obtain ⟨_, hkeep, -⟩ | ⟨herase, -⟩ | ⟨q, size, hexecute, hexecutes⟩ :=
    p.decision_cases cfg instrument state now budget
  · rw [hkeep] at hdecision
    cases hdecision
  · rw [herase] at hdecision
    cases hdecision
  · rw [hexecute] at hdecision
    cases hdecision
    exact hexecutes

theorem PendingOrder.carries_of_decision {p p' : PendingOrder}
    (hdecision : p.decision cfg instrument state now budget = .keep p') : p.Carries p' := by
  obtain ⟨q, hkeep, hcarries⟩ | ⟨herase, -⟩ | ⟨_, _, hexecute, -⟩ :=
    p.decision_cases cfg instrument state now budget
  · rw [hkeep] at hdecision
    cases hdecision
    exact hcarries
  · rw [herase] at hdecision
    cases hdecision
  · rw [hexecute] at hdecision
    cases hdecision

end Decide

/-! ### The loop -/

/-- What an execution pays on top of the touch, in basis points. -/
def chargedBps (costs : ICostModel R) (state : MarketState) (allowed : Qty) (slip : Bps) : Bps :=
  (if state.has_quote then 0 else costs.half_spread state) + costs.market_impact allowed state + slip

/-- The price of an execution. -/
def fillPrice (costs : ICostModel R) (state : MarketState) (side : Side) (allowed : Qty) (slip : Bps) :
    Price :=
  apply_bps (touchOf state side) (chargedBps costs state allowed slip) (sign_of side)

theorem make_fill_ok {costs : ICostModel R} {order : Order} {price : Price} {qty : Qty}
    {now : Timestamp} {liquidity : Liquidity} {f : Fill}
    (hmade : make_fill costs order price qty now liquidity = .ok f) :
    f.order_id = order.id ∧ f.instrument = order.instrument ∧ f.side = order.side ∧
      f.price = price ∧ f.quantity = qty ∧ f.times = { order.times with fill_time := now } := by
  unfold make_fill at hmade
  split at hmade
  · cases hmade
  · split at hmade
    · cases hmade
    · split at hmade
      · cases hmade
      · cases hmade
        exact ⟨rfl, rfl, rfl, rfl, rfl, rfl⟩

/-- An order that is kept after a fill has the fill counted, and more than the
tolerance left. -/
theorem PendingOrder.after_fill_some {p kept : PendingOrder} {allowed : Qty}
    (hkept : p.after_fill allowed = some kept) :
    kept = { p with filled := p.filled + allowed } ∧ p.filled + allowed + 1e-9 < p.order.quantity := by
  unfold PendingOrder.after_fill at hkept
  dsimp only at hkept
  split at hkept
  · cases hkept
  · rename_i hrests
    split at hkept
    · cases hkept
    · cases hkept
      exact ⟨rfl, not_le.mp hrests⟩

section Loop

variable (costs : ICostModel R) (cfg : FillConfig) (instrument : InstrumentId) (state : MarketState)
  (now : Timestamp)

/-- A loop that ends without an error, from a budget and a generator: the
orders it walks over, the fills it returns and the orders it leaves. -/
inductive Matched : Rat → R → List PendingOrder → List Fill → List PendingOrder → Prop where
  | nil {budget : Rat} {rng : R} : Matched budget rng [] [] []
  | keep {budget : Rat} {rng : R} {p p' : PendingOrder} {ps rest : List PendingOrder} {fs : List Fill}
      (hdecision : p.decision cfg instrument state now budget = .keep p')
      (htail : Matched budget rng ps fs rest) : Matched budget rng (p :: ps) fs (p' :: rest)
  | erase {budget : Rat} {rng : R} {p : PendingOrder} {ps rest : List PendingOrder} {fs : List Fill}
      (hdecision : p.decision cfg instrument state now budget = .erase)
      (htail : Matched budget rng ps fs rest) : Matched budget rng (p :: ps) fs rest
  | execute {budget : Rat} {rng : R} {p p' : PendingOrder} {allowed : Qty}
      {ps rest : List PendingOrder} {f : Fill} {fs : List Fill}
      (hdecision : p.decision cfg instrument state now budget = .execute p' allowed)
      (hfill : make_fill costs p'.order
        (fillPrice costs state p'.order.side allowed (costs.stochastic_slippage rng).1) allowed now
        .Taker = .ok f)
      (htail : Matched (max 0 (budget - allowed)) (costs.stochastic_slippage rng).2 ps fs rest) :
      Matched budget rng (p :: ps) (f :: fs) ((p'.after_fill allowed).toList ++ rest)

/-- What the loop finds when it comes to one pending order, and what it
decides about it. -/
structure Visit (R : Type) where
  found : PendingOrder
  budget : Rat
  rng : R
  decision : Decision

/-- The size executed, if an execution was decided. -/
def Visit.size (v : Visit R) : Option Qty :=
  match v.decision with
  | .execute _ allowed => some allowed
  | _ => none

def Visit.executes (v : Visit R) : Bool := v.size.isSome

/-- The decisions of the loop, from the first pending order to the last. No
price is computed for them. -/
def visits : Rat → R → List PendingOrder → List (Visit R)
  | _, _, [] => []
  | budget, rng, p :: ps =>
    let decision := p.decision cfg instrument state now budget
    { found := p, budget, rng, decision } ::
      match decision with
      | .execute _ allowed => visits (max 0 (budget - allowed)) (costs.stochastic_slippage rng).2 ps
      | _ => visits budget rng ps

variable {costs cfg instrument state now}

section Visits

variable {budget : Rat} {rng : R} {p p' : PendingOrder} {ps : List PendingOrder} {allowed : Qty}

theorem visits_keep (hdecision : p.decision cfg instrument state now budget = .keep p') :
    visits costs cfg instrument state now budget rng (p :: ps) =
      { found := p, budget, rng, decision := .keep p' } ::
        visits costs cfg instrument state now budget rng ps := by
  simp only [visits, hdecision]

theorem visits_erase (hdecision : p.decision cfg instrument state now budget = .erase) :
    visits costs cfg instrument state now budget rng (p :: ps) =
      { found := p, budget, rng, decision := .erase } ::
        visits costs cfg instrument state now budget rng ps := by
  simp only [visits, hdecision]

theorem visits_execute (hdecision : p.decision cfg instrument state now budget = .execute p' allowed) :
    visits costs cfg instrument state now budget rng (p :: ps) =
      { found := p, budget, rng, decision := .execute p' allowed } ::
        visits costs cfg instrument state now (max 0 (budget - allowed))
          (costs.stochastic_slippage rng).2 ps := by
  simp only [visits, hdecision]

end Visits

theorem execute_ok {m m' : MatchState R} {p : PendingOrder} {allowed : Qty} {f : Fill}
    (hexecute : execute costs state now m p allowed = (.ok f, m')) :
    make_fill costs p.order
        (fillPrice costs state p.order.side allowed (costs.stochastic_slippage m.slippage_rng).1)
        allowed now .Taker = .ok f ∧
      m'.remaining_participation = max 0 (m.remaining_participation - allowed) ∧
      m'.slippage_rng = (costs.stochastic_slippage m.slippage_rng).2 := by
  unfold execute at hexecute
  dsimp only at hexecute
  split at hexecute
  · cases hexecute
  · rename_i hmade
    cases hexecute
    exact ⟨hmade, rfl, rfl⟩

/-- A loop that returns fills took one of the three turns at every order. -/
theorem matchLoop_matched {m : MatchState R} {ps : List PendingOrder} {fs : List Fill}
    (hfills : (matchLoop costs cfg instrument state now m ps).1 = .ok fs) :
    Matched costs cfg instrument state now m.remaining_participation m.slippage_rng ps fs
      (matchLoop costs cfg instrument state now m ps).2.1 := by
  induction ps generalizing m fs with
  | nil =>
    cases hfills
    exact .nil
  | cons p ps ih =>
    simp only [matchLoop] at hfills ⊢
    have hdecision := p.decide_fst cfg instrument state now m.remaining_participation m.stats
    revert hdecision hfills
    rcases p.decide cfg instrument state now m.remaining_participation m.stats with ⟨decision, stats⟩
    intro hfills hdecision
    cases decision with
    | keep p' => exact .keep hdecision.symm (ih (m := { m with stats }) hfills)
    | erase => exact .erase hdecision.symm (ih (m := { m with stats }) hfills)
    | execute p' allowed =>
      simp only at hfills ⊢
      cases hexecute : execute costs state now { m with stats } p' allowed with
      | mk result after =>
        cases result with
        | error e =>
          rw [hexecute] at hfills
          cases hfills
        | ok f =>
          rw [hexecute] at hfills
          obtain ⟨hfill, hbudget, hrng⟩ := execute_ok hexecute
          cases htail : (matchLoop costs cfg instrument state now after ps).1 with
          | error e =>
            simp only [htail] at hfills
            cases hfills
          | ok fs' =>
            simp only [htail] at hfills
            cases hfills
            have hmatched := ih (m := after) htail
            rw [hbudget, hrng] at hmatched
            exact .execute hdecision.symm hfill hmatched

/-- The fills of a loop are of the orders it executes, one each. -/
theorem Matched.order_ids {budget : Rat} {rng : R} {ps rest : List PendingOrder} {fs : List Fill}
    (hmatched : Matched costs cfg instrument state now budget rng ps fs rest) :
    fs.map Fill.order_id =
      ((visits costs cfg instrument state now budget rng ps).filter Visit.executes).map
        fun v => v.found.order.id := by
  induction hmatched with
  | nil => rfl
  | keep hdecision _ ih =>
    rw [visits_keep hdecision]
    exact ih
  | erase hdecision _ ih =>
    rw [visits_erase hdecision]
    exact ih
  | execute hdecision hfill _ ih =>
    have hid := (make_fill_ok hfill).1
    rw [(PendingOrder.executes_of_decision hdecision).carries.order_eq] at hid
    rw [visits_execute hdecision, List.map_cons, ih, hid]
    rfl

end Loop

/-- The decisions of one call. -/
def BrokerSimulator.visits (b : BrokerSimulator R) (instrument : InstrumentId) (state : MarketState)
    (now : Timestamp) : List (Visit R) :=
  execution.visits b.costs b.fill_cfg instrument state now
    (state.interval_volume * b.fill_cfg.max_participation_rate) b.slippage_rng b.pending

theorem BrokerSimulator.on_market_matched {b : BrokerSimulator R} {instrument : InstrumentId}
    {state : MarketState} {now : Timestamp} {fs : List Fill}
    (hfills : (b.on_market instrument state now).1 = .ok fs) :
    Matched b.costs b.fill_cfg instrument state now
      (state.interval_volume * b.fill_cfg.max_participation_rate) b.slippage_rng b.pending fs
      (b.on_market instrument state now).2.pending := by
  exact matchLoop_matched hfills

end ptl.execution

namespace ptl.execution

variable {R : Type}

/-- What a pending order may still sell of an instrument. -/
def PendingOrder.toSell (p : PendingOrder) (instrument : InstrumentId) : Qty :=
  if p.order.instrument = instrument ∧ p.order.side = .Sell then p.order.quantity - p.filled else 0

/-- What the working sells of an instrument may still sell together. -/
def workingSells (ps : List PendingOrder) (instrument : InstrumentId) : Qty :=
  (ps.map fun p => p.toSell instrument).sum

/-- What one fill sells of an instrument. -/
def soldBy (f : Fill) (instrument : InstrumentId) : Qty :=
  if f.instrument = instrument ∧ f.side = .Sell then f.quantity else 0

def sold (fs : List Fill) (instrument : InstrumentId) : Qty :=
  (fs.map fun f => soldBy f instrument).sum

@[simp] theorem workingSells_cons (p : PendingOrder) (ps : List PendingOrder) (i : InstrumentId) :
    workingSells (p :: ps) i = p.toSell i + workingSells ps i := by
  simp [workingSells]

@[simp] theorem workingSells_append (ps qs : List PendingOrder) (i : InstrumentId) :
    workingSells (ps ++ qs) i = workingSells ps i + workingSells qs i := by
  simp [workingSells]

@[simp] theorem sold_cons (f : Fill) (fs : List Fill) (i : InstrumentId) :
    sold (f :: fs) i = soldBy f i + sold fs i := by
  simp [sold]

theorem PendingOrder.toSell_nonneg {p : PendingOrder} (hunfinished : p.filled ≤ p.order.quantity)
    (i : InstrumentId) : 0 ≤ p.toSell i := by
  unfold PendingOrder.toSell
  split
  · exact sub_nonneg.mpr hunfinished
  · exact le_refl _

theorem workingSells_nonneg {ps : List PendingOrder} (hunfinished : ∀ p ∈ ps, p.filled ≤ p.order.quantity)
    (i : InstrumentId) : 0 ≤ workingSells ps i := by
  refine List.sum_nonneg fun q hq => ?_
  obtain ⟨p, hp, rfl⟩ := List.mem_map.mp hq
  exact PendingOrder.toSell_nonneg (hunfinished p hp) i

/-- Fewer working orders have less to sell. -/
theorem workingSells_sublist {ps qs : List PendingOrder} (hsublist : qs.Sublist ps)
    (hunfinished : ∀ p ∈ ps, p.filled ≤ p.order.quantity) (i : InstrumentId) :
    workingSells qs i ≤ workingSells ps i := by
  refine (hsublist.map fun p : PendingOrder => p.toSell i).sum_le_sum fun q hq => ?_
  obtain ⟨p, hp, rfl⟩ := List.mem_map.mp hq
  exact PendingOrder.toSell_nonneg (hunfinished p hp) i

theorem PendingOrder.toSell_carries {p p' : PendingOrder} (hcarries : p.Carries p') (i : InstrumentId) :
    p'.toSell i = p.toSell i := by
  simp only [PendingOrder.toSell, hcarries.order_eq, hcarries.filled_eq]

section Execution

variable {costs : ICostModel R} {cfg : FillConfig} {instrument : InstrumentId} {state : MarketState}
  {now : Timestamp} {budget : Rat} {rng : R}

/-- What an order may still sell after a fill of it. -/
theorem PendingOrder.toSell_kept {p : PendingOrder} {allowed : Qty} {i : InstrumentId}
    (hwithin : allowed ≤ p.order.quantity - p.filled) :
    workingSells (p.after_fill allowed).toList i ≤
      if p.order.instrument = i ∧ p.order.side = .Sell then p.order.quantity - p.filled - allowed else 0 := by
  cases hkept : p.after_fill allowed with
  | none =>
    simp only [Option.toList_none, workingSells, List.map_nil, List.sum_nil]
    split
    · linarith
    · exact le_refl _
  | some kept =>
    obtain ⟨rfl, -⟩ := PendingOrder.after_fill_some hkept
    simp only [Option.toList_some, workingSells, List.map_cons, List.map_nil, List.sum_cons, List.sum_nil,
      PendingOrder.toSell, add_zero]
    split
    · linarith
    · exact le_refl _

/-- An execution sells at most what the order takes off its remainder. -/
theorem PendingOrder.toSell_after_fill {p p' : PendingOrder} {allowed : Qty} {f : Fill} {price : Price}
    (hexecutes : p.Executes instrument state now budget p' allowed)
    (hfill : make_fill costs p'.order price allowed now .Taker = .ok f) (i : InstrumentId) :
    soldBy f i + workingSells (p'.after_fill allowed).toList i ≤ p.toSell i := by
  obtain ⟨-, hinstrument, hside, -, hquantity, -⟩ := make_fill_ok hfill
  have hwithin : allowed ≤ p'.order.quantity - p'.filled := by
    rw [hexecutes.carries.order_eq, hexecutes.carries.filled_eq]
    exact hexecutes.within_want
  have hkept := PendingOrder.toSell_kept (i := i) hwithin
  rw [← PendingOrder.toSell_carries hexecutes.carries i, soldBy, hinstrument, hside, hquantity,
    PendingOrder.toSell]
  by_cases hsells : p'.order.instrument = i ∧ p'.order.side = .Sell
  · rw [if_pos hsells] at hkept ⊢
    rw [if_pos hsells]
    linarith
  · rw [if_neg hsells] at hkept ⊢
    rw [if_neg hsells]
    linarith

/-- What the fills of a loop sell, and what the orders it leaves may still
sell, was all to be sold before. -/
theorem Matched.sold_le {ps rest : List PendingOrder} {fs : List Fill}
    (hmatched : Matched costs cfg instrument state now budget rng ps fs rest)
    (hunfinished : ∀ p ∈ ps, p.filled ≤ p.order.quantity) (i : InstrumentId) :
    sold fs i + workingSells rest i ≤ workingSells ps i := by
  induction hmatched with
  | nil => simp [sold, workingSells]
  | keep hdecision _ ih =>
    have htail := ih fun p hp => hunfinished p (List.mem_cons_of_mem _ hp)
    have hsame := PendingOrder.toSell_carries (PendingOrder.carries_of_decision hdecision) i
    rw [workingSells_cons, workingSells_cons, hsame]
    linarith
  | @erase budget rng p ps rest fs _ _ ih =>
    have htail := ih fun p hp => hunfinished p (List.mem_cons_of_mem _ hp)
    have hhead := PendingOrder.toSell_nonneg (hunfinished p List.mem_cons_self) i
    rw [workingSells_cons]
    linarith
  | execute hdecision hfill _ ih =>
    have htail := ih fun p hp => hunfinished p (List.mem_cons_of_mem _ hp)
    have hhead := PendingOrder.toSell_after_fill (PendingOrder.executes_of_decision hdecision) hfill i
    rw [sold_cons, workingSells_append, workingSells_cons]
    linarith

end Execution

end ptl.execution
