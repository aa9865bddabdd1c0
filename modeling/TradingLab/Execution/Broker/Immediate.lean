import TradingLab.Execution.Broker.Failure
import TradingLab.Execution.Broker.Limit

/-! Orders that may not rest. What a call does about them is settled at its last gates,
after the ones that keep an order for the next call. -/

open ptl.oms

namespace ptl.execution

variable {R : Type} {costs : ICostModel R} {cfg : FillConfig} {instrument : InstrumentId}
  {state : MarketState} {now : Timestamp} {budget : Rat}

/-- An order that is to be settled by this call: it may not rest, and it has
arrived. -/
structure PendingOrder.Due (p : PendingOrder) (instrument : InstrumentId) (now : Timestamp) : Prop where
  immediate : p.order.time_in_force = .ImmediateOrCancel ∨ p.order.time_in_force = .FillOrKill
  instrument_matches : p.order.instrument = instrument
  arrived : p.arrival_time ≤ now

open PendingOrder

instance (p : PendingOrder) (instrument : InstrumentId) (now : Timestamp) : Decidable (p.Due instrument now) :=
  decidable_of_iff ((p.order.time_in_force = .ImmediateOrCancel ∨ p.order.time_in_force = .FillOrKill) ∧
      p.order.instrument = instrument ∧ p.arrival_time ≤ now)
    ⟨fun ⟨h₁, h₂, h₃⟩ => ⟨h₁, h₂, h₃⟩, fun ⟨h₁, h₂, h₃⟩ => ⟨h₁, h₂, h₃⟩⟩

/-- Some liquidity is offered to an order of this side: a quote shows a size
there, and no volume is known to be zero unless the participation budget binds
first. -/
def Offered (cfg : FillConfig) (state : MarketState) (side : Side) (budget : Rat) (want : Qty) : Prop :=
  (state.has_quote = true → cfg.respect_displayed_size = true → 0 < state.displayed side) ∧
    (state.volume_known = true → state.interval_volume ≤ 0 →
      0 < budget ∧ budget < state.shown cfg side want)

/-- The market gets to the order: through its stop, to its limit, and with
something to take unless nothing is wanted any more. -/
structure PendingOrder.Served (p : PendingOrder) (cfg : FillConfig) (state : MarketState) (budget : Rat) :
    Prop where
  live : p.triggered (touchOf state p.order.side) = true
  marketable : p.order.is_marketable_against (touchOf state p.order.side) = true
  offered : 0 < p.order.quantity - p.filled →
    Offered cfg state p.order.side budget (p.order.quantity - p.filled)

instance (cfg : FillConfig) (state : MarketState) (side : Side) (budget : Rat) (want : Qty) :
    Decidable (Offered cfg state side budget want) :=
  inferInstanceAs (Decidable ((state.has_quote = true → cfg.respect_displayed_size = true →
      0 < state.displayed side) ∧ (state.volume_known = true → state.interval_volume ≤ 0 →
        0 < budget ∧ budget < state.shown cfg side want)))

instance (p : PendingOrder) (cfg : FillConfig) (state : MarketState) (budget : Rat) :
    Decidable (p.Served cfg state budget) :=
  decidable_of_iff (p.triggered (touchOf state p.order.side) = true ∧
      p.order.is_marketable_against (touchOf state p.order.side) = true ∧
      (0 < p.order.quantity - p.filled →
        Offered cfg state p.order.side budget (p.order.quantity - p.filled)))
    ⟨fun ⟨h₁, h₂, h₃⟩ => ⟨h₁, h₂, h₃⟩, fun ⟨h₁, h₂, h₃⟩ => ⟨h₁, h₂, h₃⟩⟩

/-! ### One order -/

theorem MarketState.shown_pos {side : Side} {want : Qty} (hwant : 0 < want)
    (hdisplayed : state.has_quote = true → cfg.respect_displayed_size = true → 0 < state.displayed side) :
    0 < state.shown cfg side want := by
  unfold MarketState.shown
  split
  · rename_i hcapped
    exact hdisplayed hcapped.1 hcapped.2.1
  · exact hwant

/-- Something positive is offered exactly where liquidity is. -/
theorem available_iff_offered {side : Side} {want : Qty} {stats : ExecutionStats} (hwant : 0 < want) :
    (∃ allowed, (available cfg state side budget want stats).1 = some allowed ∧ 0 < allowed) ↔
      Offered cfg state side budget want := by
  rw [available_fst]
  unfold Offered
  split
  · rename_i hempty
    refine ⟨fun ⟨allowed, hnone, _⟩ => (by cases hnone), fun hoffered => ?_⟩
    exact absurd (hoffered.1 hempty.1 hempty.2.1) hempty.2.2
  · rename_i hshows
    have hdisplayed : state.has_quote = true → cfg.respect_displayed_size = true →
        0 < state.displayed side :=
      fun hquote hrespect => not_not.mp fun hnot => hshows ⟨hquote, hrespect, hnot⟩
    split
    · rename_i hbinds
      exact ⟨fun _ => ⟨hdisplayed, fun _ _ => hbinds⟩, fun _ => ⟨budget, rfl, hbinds.1⟩⟩
    · rename_i hfree
      split
      · rename_i hnothing
        refine ⟨fun ⟨allowed, hnone, _⟩ => (by cases hnone), fun hoffered => ?_⟩
        exact absurd (hoffered.2 hnothing.1 hnothing.2) hfree
      · rename_i htraded
        exact ⟨fun _ => ⟨hdisplayed, fun hknown hzero => absurd ⟨hknown, hzero⟩ htraded⟩,
          fun _ => ⟨_, rfl, MarketState.shown_pos hwant hdisplayed⟩⟩

variable (cfg state budget) in
/-- Past the stop gate an order is kept as it is exactly when it is not
marketable, or wants something and is offered nothing. -/
theorem PendingOrder.decideLive_keep_iff (p : PendingOrder) (stats : ExecutionStats) :
    (p.decideLive cfg state budget stats).1 = .keep p ↔
      ¬ (p.order.is_marketable_against (touchOf state p.order.side) = true ∧
        (0 < p.order.quantity - p.filled →
          Offered cfg state p.order.side budget (p.order.quantity - p.filled))) := by
  have hoffers (hwant : 0 < p.order.quantity - p.filled) :
      (∃ allowed, (available cfg state p.order.side budget (p.order.quantity - p.filled) stats).1 = some allowed ∧
        0 < allowed) ↔ Offered cfg state p.order.side budget (p.order.quantity - p.filled) :=
    available_iff_offered hwant
  unfold decideLive
  dsimp only
  split
  · rename_i hnot
    exact ⟨fun _ hserved => hnot hserved.1, fun _ => rfl⟩
  · rename_i hmarketable
    split
    · rename_i hcomplete
      refine ⟨fun herase => (by cases herase), fun hnot => ?_⟩
      exact absurd ⟨not_not.mp hmarketable, fun hwant => absurd hwant (not_lt.mpr hcomplete)⟩ hnot
    · rename_i hwants
      have hoffered := hoffers (not_le.mp hwants)
      revert hoffered
      rcases available cfg state p.order.side budget (p.order.quantity - p.filled) stats with ⟨size, counted⟩
      intro hoffered
      cases size with
      | none =>
        refine ⟨fun _ hserved => ?_, fun _ => rfl⟩
        obtain ⟨allowed, hnone, -⟩ := hoffered.mpr (hserved.2 (not_le.mp hwants))
        cases hnone
      | some allowed =>
        dsimp only
        split
        · rename_i hnothing
          refine ⟨fun _ hserved => ?_, fun _ => rfl⟩
          obtain ⟨size, hsize, hpos⟩ := hoffered.mpr (hserved.2 (not_le.mp hwants))
          cases hsize
          exact absurd hpos (not_lt.mpr hnothing)
        · rename_i hsome
          have hserves := hoffered.mp ⟨allowed, rfl, not_le.mp hsome⟩
          split
          · exact ⟨fun herase => (by cases herase),
              fun hnot => absurd ⟨not_not.mp hmarketable, fun _ => hserves⟩ hnot⟩
          · exact ⟨fun hexecute => (by cases hexecute),
              fun hnot => absurd ⟨not_not.mp hmarketable, fun _ => hserves⟩ hnot⟩

/-- A fill-or-kill order is executed for all it wants, within the tolerance. -/
theorem PendingOrder.decideLive_whole {p q : PendingOrder} {allowed : Qty} {stats : ExecutionStats}
    (hdecision : (p.decideLive cfg state budget stats).1 = .execute q allowed)
    (hkill : p.order.time_in_force = .FillOrKill) : p.order.quantity - p.filled ≤ allowed + 1e-9 := by
  unfold decideLive at hdecision
  dsimp only at hdecision
  split at hdecision
  · cases hdecision
  · split at hdecision
    · cases hdecision
    · split at hdecision
      · cases hdecision
      · split at hdecision
        · cases hdecision
        · split at hdecision
          · cases hdecision
          · rename_i hwhole
            cases hdecision
            exact not_lt.mp fun hless => hwhole ⟨hkill, hless⟩

theorem PendingOrder.decision_whole {p q : PendingOrder} {allowed : Qty}
    (hdecision : p.decision cfg instrument state now budget = .execute q allowed)
    (hkill : p.order.time_in_force = .FillOrKill) : p.order.quantity - p.filled ≤ allowed + 1e-9 := by
  unfold decision decide at hdecision
  split at hdecision
  · cases hdecision
  · split at hdecision
    · cases hdecision
    · split at hdecision
      · cases hdecision
      · split at hdecision
        · exact decideLive_whole (p := { p with stop_triggered := true }) hdecision hkill
        · exact decideLive_whole hdecision hkill

/-- An order that is due and reached by the market is dropped, killed or
executed for the last time; one that is not reached is kept. -/
theorem PendingOrder.decision_keep_iff {p : PendingOrder} (hdue : p.Due instrument now) :
    (∃ q, p.decision cfg instrument state now budget = .keep q) ↔ ¬ p.Served cfg state budget := by
  unfold decision decide
  rw [if_neg (not_not.mpr hdue.instrument_matches), if_neg (not_lt.mpr hdue.arrived)]
  split
  · rename_i hdormant
    exact ⟨fun _ hserved => hdormant hserved.live, fun _ => ⟨p, rfl⟩⟩
  · rename_i hlive
    -- The order that goes on differs from `p` at most in its stop flag.
    have hgoes : ∀ (q : PendingOrder) (stats : ExecutionStats), q.order = p.order → q.filled = p.filled →
        ((∃ q', (q.decideLive cfg state budget stats).1 = .keep q') ↔ ¬ p.Served cfg state budget) := by
      intro q stats horder hfilled
      have hkeep := q.decideLive_keep_iff cfg state budget stats
      rw [horder, hfilled] at hkeep
      constructor
      · rintro ⟨q', hkept⟩ hserved
        have hsame : q' = q := by
          obtain heq | ⟨heq, -⟩ | ⟨allowed, heq, -⟩ := q.decideLive_cases cfg state budget stats
          · rw [heq] at hkept
            cases hkept
            rfl
          · rw [heq] at hkept
            cases hkept
          · rw [heq] at hkept
            cases hkept
        rw [hsame] at hkept
        exact hkeep.mp hkept ⟨hserved.marketable, hserved.offered⟩
      · intro hunserved
        exact ⟨q, hkeep.mpr fun hreached => hunserved ⟨not_not.mp hlive, hreached.1, hreached.2⟩⟩
    split
    · exact hgoes _ _ rfl rfl
    · exact hgoes _ _ rfl rfl

/-- What an execution of an order that may not rest leaves: nothing. -/
theorem PendingOrder.after_fill_due {p q : PendingOrder} {allowed : Qty} (hdue : p.Due instrument now)
    (hdecision : p.decision cfg instrument state now budget = .execute q allowed) :
    q.after_fill allowed = none := by
  obtain ⟨horder, -, hfilled⟩ := (executes_of_decision hdecision).carries
  cases hkept : q.after_fill allowed with
  | none => rfl
  | some kept =>
    obtain ⟨-, hrests⟩ := after_fill_some hkept
    rcases hdue.immediate with hioc | hkill
    · unfold after_fill at hkept
      dsimp only at hkept
      rw [if_neg (not_le.mpr hrests), if_pos (horder ▸ hioc)] at hkept
      cases hkept
    · have hwhole := decision_whole hdecision hkill
      rw [horder, hfilled] at hrests
      linarith

/-! ### One call -/

section Visits

variable {v : Visit R}

/-- A visit about a due order leaves nothing exactly when the market reaches
it. -/
theorem Visit.leaves_nil_iff (hdecided : v.found.decision cfg instrument state now v.budget = v.decision)
    (hdue : v.found.Due instrument now) : v.leaves = [] ↔ v.found.Served cfg state v.budget := by
  have hkeep : (∃ q, v.found.decision cfg instrument state now v.budget = .keep q) ↔
      ¬ v.found.Served cfg state v.budget := decision_keep_iff hdue
  rw [hdecided] at hkeep
  rw [← not_iff_not, ← hkeep]
  unfold Visit.leaves
  cases hdecision : v.decision with
  | keep p => simp
  | erase => simp
  | execute p allowed =>
    simp [after_fill_due hdue (hdecided.trans hdecision)]

/-- Being due is about the order and when it arrived alone. -/
theorem PendingOrder.due_congr {p q : PendingOrder} (horder : q.order = p.order)
    (harrival : q.arrival_time = p.arrival_time) : q.Due instrument now ↔ p.Due instrument now := by
  constructor
  · exact fun hdue => ⟨horder ▸ hdue.immediate, horder ▸ hdue.instrument_matches, harrival ▸ hdue.arrived⟩
  · exact fun hdue => ⟨horder ▸ hdue.immediate, horder ▸ hdue.instrument_matches, harrival ▸ hdue.arrived⟩

/-- Every order a visit leaves has the data of the order found, its filled
quantity apart. -/
theorem Visit.leaves_due_iff (hdecided : v.found.decision cfg instrument state now v.budget = v.decision)
    {p : PendingOrder} (hp : p ∈ v.leaves) : p.Due instrument now ↔ v.found.Due instrument now := by
  have hsame : p.order = v.found.order ∧ p.arrival_time = v.found.arrival_time := by
    unfold Visit.leaves at hp
    cases hdecision : v.decision with
    | keep q =>
      rw [hdecision, List.mem_singleton] at hp
      obtain ⟨horder, harrival, -⟩ := carries_of_decision (hdecided.trans hdecision)
      rw [hp]
      exact ⟨horder, harrival⟩
    | erase =>
      rw [hdecision] at hp
      cases hp
    | execute q allowed =>
      rw [hdecision, Option.mem_toList] at hp
      obtain ⟨horder, harrival, -⟩ := (executes_of_decision (hdecided.trans hdecision)).carries
      rw [(after_fill_some hp).1]
      exact ⟨horder, harrival⟩
  exact due_congr hsame.1 hsame.2

/-- An order that a failed call still holds is the order found, its stop flag
apart. -/
theorem Visit.stands_carries (hdecided : v.found.decision cfg instrument state now v.budget = v.decision) :
    v.found.Carries v.stands := by
  unfold Visit.stands
  cases hdecision : v.decision with
  | keep p => exact ⟨rfl, rfl, rfl⟩
  | erase => exact ⟨rfl, rfl, rfl⟩
  | execute p allowed => exact (executes_of_decision (hdecided.trans hdecision)).carries

theorem PendingOrder.Carries.due_iff {p q : PendingOrder} (hcarries : p.Carries q) :
    q.Due instrument now ↔ p.Due instrument now := by
  obtain ⟨horder, harrival, -⟩ := hcarries
  exact due_congr horder harrival

end Visits

section Call

variable (b : BrokerSimulator R) (instrument : InstrumentId) (state : MarketState) (now : Timestamp)

/-- The call gets to every due order, and the market gets to it too. -/
structure BrokerSimulator.ServesDue : Prop where
  served : ∀ v ∈ b.completed instrument state now,
    v.found.Due instrument now → v.found.Served b.fill_cfg state v.budget
  none_abandoned : ∀ v ∈ b.abandoned instrument state now, ¬ v.found.Due instrument now

instance : Decidable (b.ServesDue instrument state now) :=
  decidable_of_iff ((∀ v ∈ b.completed instrument state now,
      v.found.Due instrument now → v.found.Served b.fill_cfg state v.budget) ∧
      ∀ v ∈ b.abandoned instrument state now, ¬ v.found.Due instrument now)
    ⟨fun ⟨h₁, h₂⟩ => ⟨h₁, h₂⟩, fun ⟨h₁, h₂⟩ => ⟨h₁, h₂⟩⟩

theorem BrokerSimulator.completed_decided {v : Visit R} (hv : v ∈ b.completed instrument state now) :
    v.found.decision b.fill_cfg instrument state now v.budget = v.decision :=
  visits_decided (List.takeWhile_subset _ hv)

theorem BrokerSimulator.abandoned_decided {v : Visit R} (hv : v ∈ b.abandoned instrument state now) :
    v.found.decision b.fill_cfg instrument state now v.budget = v.decision :=
  visits_decided (List.dropWhile_subset _ hv)

theorem mem_standing {vs : List (Visit R)} {p : PendingOrder} (hp : p ∈ standing vs) :
    ∃ v ∈ vs, p = v.stands ∨ p = v.found := by
  cases vs with
  | nil => cases hp
  | cons v vs =>
    rcases List.mem_cons.mp hp with rfl | hp
    · exact ⟨v, List.mem_cons_self, .inl rfl⟩
    · obtain ⟨u, hu, rfl⟩ := List.mem_map.mp hp
      exact ⟨u, List.mem_cons_of_mem _ hu, .inr rfl⟩

/-- After a call no due order is pending exactly when the call got to every one
of them and the market did. -/
theorem BrokerSimulator.no_due_iff :
    (∀ p ∈ (b.on_market instrument state now).2.pending, ¬ p.Due instrument now) ↔
      b.ServesDue instrument state now := by
  rw [b.on_market_pending]
  constructor
  · intro hclear
    refine ⟨fun v hv hdue => ?_, fun v hv hdue => ?_⟩
    · have hdecided := b.completed_decided instrument state now hv
      rw [← Visit.leaves_nil_iff hdecided hdue, List.eq_nil_iff_forall_not_mem]
      intro p hp
      exact hclear p (List.mem_append_left _ (List.mem_flatMap.mpr ⟨v, hv, hp⟩))
        ((Visit.leaves_due_iff hdecided hp).mpr hdue)
    · -- The failing visit left its own order, the visits after it the order found.
      cases habandoned : b.abandoned instrument state now with
      | nil =>
        rw [habandoned] at hv
        cases hv
      | cons u us =>
        have hstands : u.stands.Due instrument now ↔ u.found.Due instrument now :=
          (Visit.stands_carries (b.abandoned_decided instrument state now
            (habandoned ▸ List.mem_cons_self : u ∈ b.abandoned instrument state now))).due_iff
        rw [habandoned] at hv hclear
        rcases List.mem_cons.mp hv with rfl | hv
        · exact hclear _ (List.mem_append_right _ List.mem_cons_self) (hstands.mpr hdue)
        · exact hclear _ (List.mem_append_right _ (List.mem_cons_of_mem _ (List.mem_map_of_mem hv))) hdue
  · rintro ⟨hserved, hnone⟩ p hp hdue
    rcases List.mem_append.mp hp with hp | hp
    · obtain ⟨v, hv, hp⟩ := List.mem_flatMap.mp hp
      have hdecided := b.completed_decided instrument state now hv
      have hfound := (Visit.leaves_due_iff hdecided hp).mp hdue
      rw [(Visit.leaves_nil_iff hdecided hfound).mpr (hserved v hv hfound)] at hp
      cases hp
    · obtain ⟨v, hv, rfl | rfl⟩ := mem_standing hp
      · exact hnone v hv
          ((Visit.stands_carries (b.abandoned_decided instrument state now hv)).due_iff.mp hdue)
      · exact hnone v hv hdue

end Call

/-! ### Runs of the venue -/

/-- What an order that leaves the venue in a visit was filled for in all. -/
def Visit.retires (v : Visit R) : List (Order × Qty) :=
  match v.decision with
  | .keep _ => []
  | .erase => [(v.found.order, v.found.filled)]
  | .execute p allowed => if p.after_fill allowed = none then [(p.order, p.filled + allowed)] else []

/-- A venue, the orders that left it with what each was filled for over its
life, and the instrument and time of the last call if that advanced the
market. -/
structure OrderRun (R : Type) where
  broker : BrokerSimulator R
  retired : List (Order × Qty) := []
  advanced : Option (InstrumentId × Timestamp) := none

/-- One call. An execution counts even when the call fails after it. -/
def OrderRun.call (s : OrderRun R) : VenueCall → OrderRun R
  | .submit now order => { s with broker := (s.broker.submit now order).2, advanced := none }
  | .cancel id => {
      broker := (s.broker.cancel id).2
      retired := s.retired ++
        ((s.broker.pending.find? fun p => p.order.id = id).map fun p => (p.order, p.filled)).toList }
  | .on_market instrument state now => {
      broker := (s.broker.on_market instrument state now).2
      retired := s.retired ++ (s.broker.completed instrument state now).flatMap Visit.retires
      advanced := some (instrument, now) }

def orderMachine (R : Type) : Machine (OrderRun R) VenueCall where
  Init s := s.broker.pending = [] ∧ s.retired = [] ∧ s.advanced = none
  step s c := some (s.call c)

/-- A fill-or-kill order is filled for nothing or for everything. -/
def AllOrNone (order : Order) (total : Qty) : Prop :=
  order.time_in_force = .FillOrKill → total = 0 ∨ (total ≤ order.quantity ∧ order.quantity ≤ total + 1e-9)

/-- What the two immediate kinds promise: all or nothing over a fill-or-kill
order's life, and no order of either kind left after a call that was to settle
it. -/
structure OrderRun.Honoured (s : OrderRun R) : Prop where
  retired_whole : ∀ o ∈ s.retired, AllOrNone o.1 o.2
  pending_unfilled : ∀ p ∈ s.broker.pending, p.order.time_in_force = .FillOrKill → p.filled = 0
  settled : ∀ call ∈ s.advanced, ∀ p ∈ s.broker.pending, ¬ p.Due call.1 call.2

/-- An order that may not rest is not executed for a part of it and kept. -/
theorem Visit.whole {v : Visit R} (hunfilled : v.found.order.time_in_force = .FillOrKill → v.found.filled = 0)
    (hdecided : v.found.decision cfg instrument state now v.budget = v.decision) :
    (∀ o ∈ v.retires, AllOrNone o.1 o.2) ∧
      ∀ p ∈ v.leaves, p.order.time_in_force = .FillOrKill → p.filled = 0 := by
  unfold Visit.retires Visit.leaves
  cases hdecision : v.decision with
  | keep p =>
    obtain ⟨horder, -, hfilled⟩ := carries_of_decision (hdecided.trans hdecision)
    refine ⟨fun o ho => (by cases ho), fun q hq hkill => ?_⟩
    cases List.mem_singleton.mp hq
    rw [hfilled]
    exact hunfilled (horder ▸ hkill)
  | erase =>
    refine ⟨fun o ho hkill => ?_, fun q hq => (by cases hq)⟩
    cases List.mem_singleton.mp ho
    exact .inl (hunfilled hkill)
  | execute p allowed =>
    have hexecuted := hdecided.trans hdecision
    obtain ⟨⟨horder, -, hfilled⟩, hinstrument, harrived, -, -, hwithin, -⟩ :=
      executes_of_decision hexecuted
    refine ⟨fun o ho hkill => ?_, fun q hq hkill => ?_⟩
    · dsimp only at ho
      split at ho
      · cases List.mem_singleton.mp ho
        have hzero := hunfilled (horder ▸ hkill)
        have hwhole := decision_whole hexecuted (horder ▸ hkill)
        simp only [horder, hfilled]
        refine .inr ⟨?_, ?_⟩
        · linarith
        · linarith
      · cases ho
    · have hkept := Option.mem_toList.mp hq
      have hsame : q.order = v.found.order := (congrArg order
        (after_fill_some hkept).1).trans horder
      rw [after_fill_due ⟨.inr (hsame ▸ hkill), hinstrument, harrived⟩ hexecuted] at hkept
      cases hkept

theorem BrokerSimulator.submit_unfilled {b : BrokerSimulator R} {now : Timestamp} {order : Order}
    {p : PendingOrder} (hp : p ∈ (b.submit now order).2.pending) : p ∈ b.pending ∨ p.filled = 0 := by
  simp only [BrokerSimulator.submit] at hp
  split at hp
  · exact .inl hp
  · split at hp
    · exact .inl hp
    · split at hp
      · exact .inl hp
      · rcases List.mem_append.mp hp with hold | hnew
        · exact .inl hold
        · cases List.mem_singleton.mp hnew
          exact .inr rfl

theorem BrokerSimulator.cancel_subset {b : BrokerSimulator R} {id : OrderId} {p : PendingOrder}
    (hp : p ∈ (b.cancel id).2.pending) : p ∈ b.pending := by
  unfold BrokerSimulator.cancel at hp
  split at hp
  · exact List.mem_of_mem_eraseP hp
  · exact hp

/-- All or nothing, whatever a run asks of the venue. -/
theorem orderMachine_whole {s : OrderRun R} (hreach : (orderMachine R).Reachable s) :
    (∀ o ∈ s.retired, AllOrNone o.1 o.2) ∧
      ∀ p ∈ s.broker.pending, p.order.time_in_force = .FillOrKill → p.filled = 0 := by
  refine hreach.invariant (I := fun s => (∀ o ∈ s.retired, AllOrNone o.1 o.2) ∧
    ∀ p ∈ s.broker.pending, p.order.time_in_force = .FillOrKill → p.filled = 0)
    (fun s hinit => ?_) fun s c t _ ⟨hretired, hpending⟩ _ hstep => ?_
  · obtain ⟨hempty, hnone, -⟩ := hinit
    rw [hempty, hnone]
    exact ⟨fun o ho => absurd ho List.not_mem_nil, fun p hp => absurd hp List.not_mem_nil⟩
  · cases hstep
    cases c with
    | submit now order =>
      refine ⟨hretired, fun p hp hkill => ?_⟩
      rcases BrokerSimulator.submit_unfilled hp with hold | hnew
      · exact hpending p hold hkill
      · exact hnew
    | cancel id =>
      refine ⟨fun o ho => ?_, fun p hp => hpending p (BrokerSimulator.cancel_subset hp)⟩
      rcases List.mem_append.mp ho with hold | hnew
      · exact hretired o hold
      · obtain ⟨p, hp, rfl⟩ := Option.map_eq_some_iff.mp (Option.mem_toList.mp hnew)
        exact fun hkill => .inl (hpending p (List.mem_of_find?_eq_some hp) hkill)
    | on_market instrument state now =>
      have hfound : ∀ v ∈ s.broker.visits instrument state now,
          v.found.order.time_in_force = .FillOrKill → v.found.filled = 0 := by
        intro v hv
        refine hpending v.found ?_
        rw [← visits_found s.broker.costs s.broker.fill_cfg instrument state now s.broker.pending]
        exact List.mem_map_of_mem hv
      have hwhole := fun v (hv : v ∈ s.broker.completed instrument state now) =>
        Visit.whole (hfound v (List.takeWhile_subset _ hv)) (s.broker.completed_decided instrument state now hv)
      refine ⟨fun o ho => ?_, fun p hp hkill => ?_⟩
      · rcases List.mem_append.mp ho with hold | hnew
        · exact hretired o hold
        · obtain ⟨v, hv, ho⟩ := List.mem_flatMap.mp hnew
          exact (hwhole v hv).1 o ho
      · have hafter : (s.call (.on_market instrument state now)).broker.pending = _ :=
          s.broker.on_market_pending instrument state now
        rw [hafter] at hp
        rcases List.mem_append.mp hp with hp | hp
        · obtain ⟨v, hv, hp⟩ := List.mem_flatMap.mp hp
          exact (hwhole v hv).2 p hp hkill
        · obtain ⟨v, hv, rfl | rfl⟩ := mem_standing hp
          · obtain ⟨horder, -, hfilled⟩ :=
              Visit.stands_carries (s.broker.abandoned_decided instrument state now hv)
            rw [hfilled]
            exact hfound v (List.dropWhile_subset _ hv) (horder ▸ hkill)
          · exact hfound v (List.dropWhile_subset _ hv) hkill

/-- The market gets to every due order in this call. -/
def OrderRun.Serves (s : OrderRun R) : VenueCall → Prop
  | .on_market instrument state now => s.broker.ServesDue instrument state now
  | _ => True

instance (s : OrderRun R) : (c : VenueCall) → Decidable (s.Serves c)
  | .on_market instrument state now => inferInstanceAs (Decidable (s.broker.ServesDue instrument state now))
  | .submit _ _ => isTrue trivial
  | .cancel _ => isTrue trivial

/-- In a run whose calls get to every due order, the immediate kinds keep their
promise. -/
theorem orderMachine_honoured {s : OrderRun R} (hreach : (orderMachine R).Reaches OrderRun.Serves s) :
    s.Honoured := by
  obtain ⟨hretired, hpending⟩ := orderMachine_whole hreach.reachable
  refine ⟨hretired, hpending, ?_⟩
  refine hreach.invariant (I := fun s => ∀ call ∈ s.advanced, ∀ p ∈ s.broker.pending, ¬ p.Due call.1 call.2)
    (fun s hinit => ?_) fun s c t _ _ hserves hstep => ?_
  · rw [hinit.2.2]
    exact fun call hcall => (by cases hcall)
  · cases hstep
    cases c with
    | submit now order => exact fun call hcall => (by cases hcall)
    | cancel id => exact fun call hcall => (by cases hcall)
    | on_market instrument state now =>
      intro call hcall
      cases hcall
      exact (s.broker.no_due_iff instrument state now).mpr hserves

/-- A buy of ten at 100 or better that may not rest. -/
def immediateLimit : Order :=
  Result.value (Order.limit 1 0 .Buy 10 100 { decision_time := 0 } .ImmediateOrCancel)

/-- A venue that was just opened. -/
def openVenue : OrderRun Unit where
  broker := {
    costs := flatCosts, latency := flatLatency, latency_rng := (), slippage_rng := (), fill_cfg := {} }

theorem openVenue_reaches {G : OrderRun Unit → VenueCall → Prop} : (orderMachine Unit).Reaches G openVenue :=
  .init ⟨rfl, rfl, rfl⟩

/-- The market is below the limit, and the order is filled and gone. -/
theorem orderMachine_honoured_openVenue :
    ∃ s, (orderMachine Unit).Reachable s ∧ s.retired.length = 1 ∧ s.Honoured := by
  obtain ⟨s, hreach, hone⟩ := openVenue_reaches.exec_map (G := OrderRun.Serves)
    [.submit 0 immediateLimit, .on_market 0 (barAt 99) 2000000] (fun s => s.retired.length) (b := 1)
    (by decide +kernel) (by decide +kernel)
  exact ⟨s, hreach.reachable, hone, orderMachine_honoured hreach⟩

/-- An order that may not rest stays pending after a market above its limit. -/
theorem orderMachine_not_honoured : ¬ ∀ s, (orderMachine Unit).Reachable s → s.Honoured := by
  intro hhonoured
  obtain ⟨s, hreach, hrests⟩ := openVenue_reaches.exec_map (G := fun _ _ => True)
    [.submit 0 immediateLimit, .on_market 0 (barAt 101) 2000000]
    (fun s => decide (s.advanced = some (0, 2000000) ∧ ∃ p ∈ s.broker.pending, p.Due 0 2000000))
    (b := true) (Machine.along_of_forall (fun _ _ => trivial) _ _) (by decide +kernel)
  obtain ⟨hadvanced, p, hp, hdue⟩ := of_decide_eq_true hrests
  exact (hhonoured s hreach).settled _ hadvanced p hp hdue

end ptl.execution
