import TradingLab.Live.Broker

open ptl.portfolio
open Std (TreeMap)

namespace ptl.live

/-- What is held of an instrument. One that does not occur is not held. -/
def held_quantity (positions : TreeMap InstrumentId Position) (instrument : InstrumentId) : Rat :=
  positions[instrument]?.elim 0 Position.quantity

def BrokerAccountSnapshot.held_quantity (venue : BrokerAccountSnapshot Rat) (instrument : InstrumentId) : Rat :=
  (venue.positions[instrument]?).getD 0

namespace ReconciliationReport

variable (tolerance : Rat) (venue : BrokerAccountSnapshot Rat) (ours : TreeMap InstrumentId Position)

/-- The positions are said to match as long as no drift is noted. -/
def Consistent (r : ReconciliationReport) : Prop :=
  r.positions_match = true ↔ ∀ instrument : InstrumentId, r.position_drift[instrument]? = none

theorem drifted_consistent (r : ReconciliationReport) (instrument : InstrumentId) (drift : Rat)
    (notes : List String) : { r.drifted instrument drift with notes }.Consistent := by
  refine iff_of_false Bool.false_ne_true fun hnone => ?_
  have hwritten := hnone instrument
  rw [drifted, Table.getElem?_insert_self] at hwritten
  cases hwritten

variable {tolerance venue ours}

theorem held_consistent {r : ReconciliationReport} (hr : r.Consistent) (entry : InstrumentId × Position) :
    (r.held tolerance venue entry).Consistent := by
  unfold held
  dsimp only
  split
  · exact drifted_consistent r _ _ _
  · exact hr

theorem unheld_consistent {r : ReconciliationReport} (hr : r.Consistent) (entry : InstrumentId × Rat) :
    (r.unheld tolerance ours entry).Consistent := by
  unfold unheld
  split
  · exact hr
  · split
    · exact drifted_consistent r _ _ _
    · exact hr

theorem held_cash_matches (r : ReconciliationReport) (entry : InstrumentId × Position) :
    (r.held tolerance venue entry).cash_matches = r.cash_matches := by
  unfold held
  dsimp only
  split <;> rfl

theorem unheld_cash_matches (r : ReconciliationReport) (entry : InstrumentId × Rat) :
    (r.unheld tolerance ours entry).cash_matches = r.cash_matches := by
  unfold unheld
  split
  · rfl
  · split <;> rfl

/-! ### What a loop notes -/

/-- What our position leaves noted. -/
def heldDrift (tolerance : Rat) (venue : BrokerAccountSnapshot Rat) (entry : InstrumentId × Position)
    (noted : Option Rat) : Option Rat :=
  let drift := entry.2.quantity - venue.held_quantity entry.1
  if tolerance < |drift| then some drift else noted

/-- What a position of the venue leaves noted. -/
def unheldDrift (tolerance : Rat) (ours : TreeMap InstrumentId Position) (entry : InstrumentId × Rat)
    (noted : Option Rat) : Option Rat :=
  if noted.isSome then noted
  else if ¬ ours.contains entry.1 ∧ tolerance < |entry.2| then some (-entry.2)
  else noted

theorem held_self (r : ReconciliationReport) (entry : InstrumentId × Position) :
    (r.held tolerance venue entry).position_drift[entry.1]? =
      heldDrift tolerance venue entry r.position_drift[entry.1]? := by
  unfold held heldDrift
  dsimp only [BrokerAccountSnapshot.held_quantity]
  split
  · exact Table.getElem?_insert_self _ _ _
  · rfl

theorem held_other (r : ReconciliationReport) (entry : InstrumentId × Position) (a : InstrumentId)
    (hne : entry.1 ≠ a) : (r.held tolerance venue entry).position_drift[a]? = r.position_drift[a]? := by
  unfold held
  dsimp only
  split
  · exact Table.getElem?_insert_of_ne _ _ hne
  · rfl

theorem unheld_self (r : ReconciliationReport) (entry : InstrumentId × Rat) :
    (r.unheld tolerance ours entry).position_drift[entry.1]? =
      unheldDrift tolerance ours entry r.position_drift[entry.1]? := by
  unfold unheld unheldDrift
  rw [TreeMap.contains_eq_isSome_getElem?]
  split
  · rfl
  · split
    · exact Table.getElem?_insert_self _ _ _
    · rfl

theorem unheld_other (r : ReconciliationReport) (entry : InstrumentId × Rat) (a : InstrumentId)
    (hne : entry.1 ≠ a) : (r.unheld tolerance ours entry).position_drift[a]? = r.position_drift[a]? := by
  unfold unheld
  split
  · rfl
  · split
    · exact Table.getElem?_insert_of_ne _ _ hne
    · rfl

end ReconciliationReport

open ReconciliationReport

section Reconcile

variable {R T : Type} (b : LiveBroker R T) (venue : BrokerAccountSnapshot Rat)

/-- An instrument that occurs on one of the two sides. -/
def LiveBroker.Occurs (instrument : InstrumentId) : Prop :=
  instrument ∈ b.portfolio.positions ∨ instrument ∈ venue.positions

instance (instrument : InstrumentId) : Decidable (b.Occurs venue instrument) :=
  inferInstanceAs (Decidable (_ ∨ _))

/-- Ours less theirs. -/
def LiveBroker.drift (instrument : InstrumentId) : Rat :=
  held_quantity b.portfolio.positions instrument - venue.held_quantity instrument

theorem reconcile_consistent : (b.reconcile venue).Consistent := by
  unfold LiveBroker.reconcile
  dsimp only
  refine List.foldlRecOn (motive := Consistent) _ _ ?_ fun r hr e _ => unheld_consistent hr e
  refine List.foldlRecOn (motive := Consistent) _ _ ?_ fun r hr e _ => held_consistent hr e
  exact iff_of_true rfl fun instrument => TreeMap.getElem?_emptyc

theorem reconcile_cash_matches :
    (b.reconcile venue).cash_matches = decide (|b.portfolio.cash - venue.cash| ≤ b.config.cash_tolerance) := by
  let Kept : ReconciliationReport → Prop := fun r =>
    r.cash_matches = decide (|b.portfolio.cash - venue.cash| ≤ b.config.cash_tolerance)
  unfold LiveBroker.reconcile
  dsimp only
  refine List.foldlRecOn (motive := Kept) _ _ ?_ fun r hr e _ => (unheld_cash_matches r e).trans hr
  exact List.foldlRecOn (motive := Kept) _ _ rfl fun r hr e _ => (held_cash_matches r e).trans hr

/-- What is noted of an instrument, whichever side has it. -/
theorem reconcile_position_drift (instrument : InstrumentId) :
    (b.reconcile venue).position_drift[instrument]? =
      if b.Occurs venue instrument ∧ b.config.position_tolerance < |b.drift venue instrument| then
        some (b.drift venue instrument)
      else none := by
  unfold LiveBroker.reconcile
  dsimp only
  rw [Table.getElem?_foldl_toList position_drift unheld_self unheld_other,
    Table.getElem?_foldl_toList position_drift held_self held_other]
  have hempty : (∅ : TreeMap InstrumentId Rat)[instrument]? = none := TreeMap.getElem?_emptyc
  dsimp only
  rw [hempty]
  simp only [LiveBroker.Occurs, LiveBroker.drift, held_quantity, heldDrift, unheldDrift,
    BrokerAccountSnapshot.held_quantity, TreeMap.mem_iff_isSome_getElem?, TreeMap.contains_eq_isSome_getElem?]
  obtain hours | ⟨position, hours⟩ := Option.eq_none_or_eq_some b.portfolio.positions[instrument]?
  · obtain htheirs | ⟨theirs, htheirs⟩ := Option.eq_none_or_eq_some venue.positions[instrument]?
    · simp [hours, htheirs]
    · simp [hours, htheirs]
  · obtain htheirs | ⟨theirs, htheirs⟩ := Option.eq_none_or_eq_some venue.positions[instrument]?
    · simp [hours, htheirs]
    · by_cases hover : b.config.position_tolerance < |position.quantity - theirs|
      · simp [hours, htheirs, hover]
      · simp [hours, htheirs, hover]

end Reconcile

end ptl.live
