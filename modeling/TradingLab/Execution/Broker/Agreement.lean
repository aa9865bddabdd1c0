import TradingLab.Execution.Broker.Matching
import TradingLab.Oms.OrderManager

open ptl.oms
open Std (TreeMap)

namespace ptl.execution

variable {R : Type}

/-! ### The venue's list and the order manager's records -/

/-- A record of the order a pending order is, as far filled. -/
structure Backs (rec : OrderRecord) (p : PendingOrder) : Prop where
  live : is_terminal rec.state = false
  acknowledged : rec.state ≠ .New
  instrument_eq : p.order.instrument = rec.order.instrument
  side_eq : p.order.side = rec.order.side
  quantity_eq : p.order.quantity = rec.order.quantity
  filled_eq : rec.filled_quantity = p.filled
  unfinished : p.filled < p.order.quantity
  after_decision : rec.order.decision_time < p.arrival_time

def idsOf (ps : List PendingOrder) : List OrderId := ps.map fun p => p.order.id

/-- Every order the venue works is a live order of the manager. -/
structure Agrees (oms : OrderManager) (ps : List PendingOrder) : Prop where
  distinct : (idsOf ps).Nodup
  backed : ∀ p ∈ ps, ∃ rec, oms.records[p.order.id]? = some rec ∧ Backs rec p

theorem Backs.of_carries {rec : OrderRecord} {p p' : PendingOrder} (hbacks : Backs rec p)
    (hcarries : p.Carries p') : Backs rec p' := by
  obtain ⟨horder, harrival, hfilled⟩ := hcarries
  refine ⟨hbacks.live, hbacks.acknowledged, ?_, ?_, ?_, ?_, ?_, ?_⟩
  · rw [horder]; exact hbacks.instrument_eq
  · rw [horder]; exact hbacks.side_eq
  · rw [horder]; exact hbacks.quantity_eq
  · rw [hfilled]; exact hbacks.filled_eq
  · rw [horder, hfilled]; exact hbacks.unfinished
  · rw [harrival]; exact hbacks.after_decision

theorem Agrees.tail {oms : OrderManager} {p : PendingOrder} {ps : List PendingOrder}
    (hagrees : Agrees oms (p :: ps)) : Agrees oms ps :=
  ⟨(List.nodup_cons.mp hagrees.distinct).2, fun q hq => hagrees.backed q (List.mem_cons_of_mem _ hq)⟩

theorem Agrees.head_fresh {oms : OrderManager} {p : PendingOrder} {ps : List PendingOrder}
    (hagrees : Agrees oms (p :: ps)) : p.order.id ∉ idsOf ps :=
  (List.nodup_cons.mp hagrees.distinct).1

/-- Agreement depends on the records of the venue's own orders only. -/
theorem Agrees.congr {oms oms' : OrderManager} {ps : List PendingOrder} (hagrees : Agrees oms ps)
    (hsame : ∀ id ∈ idsOf ps, oms'.records[id]? = oms.records[id]?) : Agrees oms' ps := by
  refine ⟨hagrees.distinct, fun p hp => ?_⟩
  rw [hsame _ (List.mem_map_of_mem hp)]
  exact hagrees.backed p hp

/-! ### New and cancelled orders -/

/-- The record of an accepted order backs the order the venue put in its
list. -/
theorem backs_new {order stamped : Order} {arrival : Timestamp}
    (hstamped : order.with_arrival arrival = .ok stamped) (hdecision : order.decision_time < arrival) :
    Backs { order, state := .Working } { order := stamped, arrival_time := arrival } := by
  obtain ⟨-, hinstrument, hside, hquantity, -⟩ := Order.with_arrival_ok hstamped
  refine ⟨rfl, OrderState.noConfusion, hinstrument, hside, hquantity, rfl, ?_, hdecision⟩
  rw [hquantity]
  exact order.quantity_pos

/-- What is left after an order is taken out has other ids. -/
theorem mem_eraseP_ids {ps : List PendingOrder} (hdistinct : (idsOf ps).Nodup) {id : OrderId} :
    ∀ p ∈ ps.eraseP (fun p => p.order.id = id), p ∈ ps ∧ p.order.id ≠ id := by
  induction ps with
  | nil => exact fun p hp => absurd hp List.not_mem_nil
  | cons q ps ih =>
    obtain ⟨hhead, htail⟩ := List.nodup_cons.mp hdistinct
    intro p hp
    by_cases hq : q.order.id = id
    · rw [List.eraseP_cons_of_pos (by simpa using hq)] at hp
      refine ⟨List.mem_cons_of_mem _ hp, fun heq => hhead ?_⟩
      exact List.mem_map.mpr ⟨p, hp, heq.trans hq.symm⟩
    · rw [List.eraseP_cons_of_neg (by simpa using hq)] at hp
      rcases List.mem_cons.mp hp with rfl | hp
      · exact ⟨List.mem_cons_self, hq⟩
      · obtain ⟨hmem, hne⟩ := ih htail p hp
        exact ⟨List.mem_cons_of_mem _ hmem, hne⟩

/-! ### Fills -/

/-- The fills are accepted one after another. The checks of `apply_fill` are
spelled out beside its answer. -/
def AcceptsAll : OrderManager → List Fill → Prop
  | _, [] => True
  | oms, f :: fs =>
    (oms.apply_fill f).1 = .ok true ∧
      (∃ rec, oms.records[f.order_id]? = some rec ∧ rec.Accepts f) ∧
      AcceptsAll (oms.apply_fill f).2 fs

def applyAll (oms : OrderManager) (fs : List Fill) : OrderManager :=
  fs.foldl (fun oms f => (oms.apply_fill f).2) oms

section Matching

variable {costs : ICostModel R} {cfg : FillConfig} {instrument : InstrumentId} {state : MarketState}
  {now : Timestamp} {budget : Rat} {rng : R}

/-- The record of an order accepts the fill of its execution. -/
theorem Backs.accepts {rec : OrderRecord} {p p' : PendingOrder} {allowed : Qty} {f : Fill} {price : Price}
    (hbacks : Backs rec p) (hexecutes : p.Executes instrument state now budget p' allowed)
    (hfill : make_fill costs p'.order price allowed now .Taker = .ok f) : rec.Accepts f := by
  obtain ⟨-, hinstrument, hside, -, hquantity, htimes⟩ := make_fill_ok hfill
  have horder := hexecutes.carries.order_eq
  refine ⟨hbacks.live, hbacks.acknowledged, ?_, ?_, ?_, ?_⟩
  · rw [hinstrument, horder]; exact hbacks.instrument_eq
  · rw [hside, horder]; exact hbacks.side_eq
  · have hwithin := hexecutes.within_want
    have hfilled := hbacks.filled_eq
    have hsize := hbacks.quantity_eq
    rw [hquantity]
    linarith
  · have htime : f.fill_time = now := by rw [Fill.fill_time, htimes]
    rw [htime]
    exact lt_of_lt_of_le hbacks.after_decision hexecutes.arrived

/-- The record after that fill backs what the venue keeps of the order. -/
theorem Backs.after_fill {rec : OrderRecord} {p p' kept : PendingOrder} {allowed : Qty} {f : Fill}
    {price : Price} (hbacks : Backs rec p) (hexecutes : p.Executes instrument state now budget p' allowed)
    (hfill : make_fill costs p'.order price allowed now .Taker = .ok f)
    (hkept : p'.after_fill allowed = some kept) : Backs (rec.after_fill f) kept := by
  have hquantity : f.quantity = allowed := (make_fill_ok hfill).2.2.2.2.1
  have hbacks' := hbacks.of_carries hexecutes.carries
  obtain ⟨rfl, hrests⟩ := PendingOrder.after_fill_some hkept
  have hsize := hbacks'.quantity_eq
  have hfilled := hbacks'.filled_eq
  have hlt : p'.filled + allowed < p'.order.quantity := by linarith
  have hopen : ¬ rec.order.quantity ≤ rec.filled_quantity + f.quantity := by
    rw [hquantity, hfilled, ← hsize]
    exact not_le.mpr hlt
  have hstate : (rec.after_fill f).state = .PartiallyFilled := by
    rw [OrderRecord.after_fill_state, if_neg hopen]
  refine ⟨?_, ?_, hbacks'.instrument_eq, hbacks'.side_eq, hsize, ?_, hlt, hbacks'.after_decision⟩
  · rw [hstate]; rfl
  · rw [hstate]; exact OrderState.noConfusion
  · rw [OrderRecord.after_fill_filled, hquantity, hfilled]

theorem PendingOrder.after_fill_carries {p kept : PendingOrder} {allowed : Qty}
    (hkept : p.after_fill allowed = some kept) : kept.order = p.order := by
  obtain ⟨rfl, -⟩ := PendingOrder.after_fill_some hkept
  rfl

/-- The loop keeps orders in their places or drops them. -/
theorem Matched.ids_sublist {ps rest : List PendingOrder} {fs : List Fill}
    (hmatched : Matched costs cfg instrument state now budget rng ps fs rest) :
    (idsOf rest).Sublist (idsOf ps) := by
  induction hmatched with
  | nil => exact List.Sublist.slnil
  | keep hdecision _ ih =>
    have horder := (PendingOrder.carries_of_decision hdecision).order_eq
    simp only [idsOf, List.map_cons, horder]
    exact ih.cons_cons _
  | erase _ _ ih => exact ih.cons _
  | @execute budget rng p p' allowed ps rest f fs hdecision hfill _ ih =>
    have horder := (PendingOrder.executes_of_decision hdecision).carries.order_eq
    cases hkept : p'.after_fill allowed with
    | none => exact ih.cons _
    | some kept =>
      have hsame : kept.order = p.order := (PendingOrder.after_fill_carries hkept).trans horder
      simp only [Option.toList_some, List.singleton_append, idsOf, List.map_cons, hsame]
      exact ih.cons_cons _

/-- The manager books the fill of an execution on the order's record, and goes
on agreeing with the venue on the orders after it. -/
theorem Agrees.executed {oms : OrderManager} {p p' : PendingOrder} {ps : List PendingOrder} {allowed : Qty}
    {f : Fill} {price : Price} (hagrees : Agrees oms (p :: ps))
    (hexecutes : p.Executes instrument state now budget p' allowed)
    (hfill : make_fill costs p'.order price allowed now .Taker = .ok f) :
    ∃ rec, oms.records[f.order_id]? = some rec ∧ Backs rec p ∧ rec.Accepts f ∧ f.order_id = p.order.id ∧
      oms.apply_fill f =
        (.ok true, { oms with records := oms.records.insert p.order.id (rec.after_fill f) }) ∧
      Agrees (oms.apply_fill f).2 ps := by
  obtain ⟨rec, hrec, hbacks⟩ := hagrees.backed p List.mem_cons_self
  have hid : f.order_id = p.order.id := by rw [(make_fill_ok hfill).1, hexecutes.carries.order_eq]
  have hknown : oms.records[f.order_id]? = some rec := by
    rw [hid]
    exact hrec
  have haccepts := hbacks.accepts hexecutes hfill
  have happly := OrderManager.apply_fill_accepted hknown haccepts
  rw [hid] at happly
  refine ⟨rec, hknown, hbacks, haccepts, hid, happly, hagrees.tail.congr fun id hmem => ?_⟩
  rw [happly]
  exact Table.getElem?_insert_of_ne _ _ fun heq => hagrees.head_fresh (heq ▸ hmem)

/-- The fills of a loop over orders the manager agrees on are all accepted,
the manager agrees on the orders the loop leaves, and no other record moves. -/
theorem Matched.agrees {ps rest : List PendingOrder} {fs : List Fill}
    (hmatched : Matched costs cfg instrument state now budget rng ps fs rest) {oms : OrderManager}
    (hagrees : Agrees oms ps) :
    AcceptsAll oms fs ∧ Agrees (applyAll oms fs) rest ∧
      ∀ id ∉ idsOf ps, (applyAll oms fs).records[id]? = oms.records[id]? := by
  induction hmatched generalizing oms with
  | nil => exact ⟨trivial, hagrees, fun id _ => rfl⟩
  | @keep budget rng p p' ps rest fs hdecision htail ih =>
    have hcarries := PendingOrder.carries_of_decision hdecision
    obtain ⟨haccepts, hrest, hframe⟩ := ih hagrees.tail
    refine ⟨haccepts, ⟨?_, ?_⟩, fun id hid => hframe id fun hmem => hid (List.mem_cons_of_mem _ hmem)⟩
    · exact hagrees.distinct.sublist (Matched.ids_sublist (.keep hdecision htail))
    · intro q hq
      rcases List.mem_cons.mp hq with rfl | hq
      · obtain ⟨rec, hrec, hbacks⟩ := hagrees.backed p List.mem_cons_self
        refine ⟨rec, ?_, hbacks.of_carries hcarries⟩
        rw [hcarries.order_eq, hframe _ hagrees.head_fresh]
        exact hrec
      · exact hrest.backed q hq
  | erase _ _ ih =>
    obtain ⟨haccepts, hrest, hframe⟩ := ih hagrees.tail
    exact ⟨haccepts, hrest, fun id hid => hframe id fun hmem => hid (List.mem_cons_of_mem _ hmem)⟩
  | @execute budget rng p p' allowed ps rest f fs hdecision hfill htail ih =>
    have hexecutes := PendingOrder.executes_of_decision hdecision
    have horder := hexecutes.carries.order_eq
    obtain ⟨rec, hrec, hbacks, haccepts, -, happly, htailAgrees⟩ := hagrees.executed hexecutes hfill
    have hother : ∀ id, id ≠ p.order.id → (oms.apply_fill f).2.records[id]? = oms.records[id]? := by
      intro id hne
      rw [happly]
      exact Table.getElem?_insert_of_ne _ _ (Ne.symm hne)
    obtain ⟨hacceptsTail, hrest, hframe⟩ := ih htailAgrees
    have hrecord : (applyAll (oms.apply_fill f).2 fs).records[p.order.id]? = some (rec.after_fill f) := by
      rw [hframe _ hagrees.head_fresh, happly]
      exact Table.getElem?_insert_self _ _ _
    refine ⟨⟨congrArg Prod.fst happly, ⟨rec, hrec, haccepts⟩, hacceptsTail⟩, ⟨?_, ?_⟩, ?_⟩
    · exact hagrees.distinct.sublist (Matched.ids_sublist (.execute hdecision hfill htail))
    · intro q hq
      rcases List.mem_append.mp hq with hq | hq
      · have hkept := Option.mem_toList.mp hq
        have hsame : q.order = p.order := (PendingOrder.after_fill_carries hkept).trans horder
        exact ⟨_, by rw [hsame]; exact hrecord, hbacks.after_fill hexecutes hfill hkept⟩
      · exact hrest.backed q hq
    · intro id hmem
      have hne : id ≠ p.order.id := fun heq => hmem (heq ▸ List.mem_cons_self)
      exact (hframe id fun hin => hmem (List.mem_cons_of_mem _ hin)).trans (hother id hne)

end Matching

/-! ### Orders dropped early -/

/-- The order leaves the venue although some of it is unfilled: it is killed,
its rest is cancelled at once, or its rest is within the tolerance. -/
def Visit.DropsEarly (v : Visit R) : Prop :=
  match v.decision with
  | .keep _ => False
  | .erase => v.found.order.time_in_force = .FillOrKill
  | .execute p allowed =>
    p.filled + allowed < p.order.quantity ∧
      (p.order.time_in_force = .ImmediateOrCancel ∨ p.order.quantity ≤ p.filled + allowed + 1e-9)

instance : (v : Visit R) → Decidable v.DropsEarly
  | ⟨_, _, _, .keep _⟩ => inferInstanceAs (Decidable False)
  | ⟨found, _, _, .erase⟩ => inferInstanceAs (Decidable (found.order.time_in_force = .FillOrKill))
  | ⟨_, _, _, .execute p allowed⟩ =>
    inferInstanceAs (Decidable (p.filled + allowed < p.order.quantity ∧
      (p.order.time_in_force = .ImmediateOrCancel ∨ p.order.quantity ≤ p.filled + allowed + 1e-9)))

theorem PendingOrder.after_fill_none {p : PendingOrder} {allowed : Qty}
    (hdropped : p.after_fill allowed = none) :
    p.order.time_in_force = .ImmediateOrCancel ∨ p.order.quantity ≤ p.filled + allowed + 1e-9 := by
  unfold PendingOrder.after_fill at hdropped
  dsimp only at hdropped
  split at hdropped
  · exact .inr ‹_›
  · split at hdropped
    · exact .inl ‹_›
    · cases hdropped

/-- A pending order is never complete, so one that is erased was killed. -/
theorem PendingOrder.killed_of_erase {p : PendingOrder} {cfg : FillConfig} {instrument : InstrumentId}
    {state : MarketState} {now : Timestamp} {budget : Rat} (hunfinished : p.filled < p.order.quantity)
    (hdecision : p.decision cfg instrument state now budget = .erase) :
    p.order.time_in_force = .FillOrKill := by
  obtain ⟨_, hkeep, -⟩ | ⟨-, hcomplete | hkilled⟩ | ⟨_, _, hexecute, -⟩ :=
    p.decision_cases cfg instrument state now budget
  · rw [hkeep] at hdecision
    cases hdecision
  · exact absurd hunfinished (not_lt.mpr hcomplete)
  · exact hkilled
  · rw [hexecute] at hdecision
    cases hdecision

/-- An order that is dropped, but not early, was filled whole. -/
theorem Backs.filled_of_dropped {rec : OrderRecord} {p p' : PendingOrder} {budget : Rat} {rng : R}
    {allowed : Qty} {f : Fill} (hbacks : Backs rec p') (hquantity : f.quantity = allowed)
    (hdropped : p'.after_fill allowed = none)
    (hkeeps : ¬ ({ found := p, budget, rng, decision := .execute p' allowed } : Visit R).DropsEarly) :
    is_terminal (rec.after_fill f).state = true := by
  have hdone : rec.order.quantity ≤ rec.filled_quantity + f.quantity := by
    by_contra hopen
    refine hkeeps ⟨?_, PendingOrder.after_fill_none hdropped⟩
    rw [hbacks.quantity_eq, ← hbacks.filled_eq, ← hquantity]
    exact not_le.mp hopen
  rw [OrderRecord.after_fill_state, if_pos hdone]
  rfl

/-- When no order is dropped early, an order of the venue that is still live
after the fills is one the venue keeps. -/
theorem Matched.live_kept {costs : ICostModel R} {cfg : FillConfig} {instrument : InstrumentId}
    {state : MarketState} {now : Timestamp} {budget : Rat} {rng : R} {ps rest : List PendingOrder}
    {fs : List Fill} (hmatched : Matched costs cfg instrument state now budget rng ps fs rest)
    {oms : OrderManager} (hagrees : Agrees oms ps)
    (hkeeps : ∀ v ∈ visits costs cfg instrument state now budget rng ps, ¬ v.DropsEarly) :
    ∀ id ∈ idsOf ps, ∀ rec, (applyAll oms fs).records[id]? = some rec →
      is_terminal rec.state = false → id ∈ idsOf rest := by
  induction hmatched generalizing oms with
  | nil => exact fun id hid => absurd hid List.not_mem_nil
  | keep hdecision _ ih =>
    rw [visits_keep hdecision] at hkeeps
    have horder := (PendingOrder.carries_of_decision hdecision).order_eq
    intro id hid rec hrec hlive
    rcases List.mem_cons.mp hid with rfl | hid
    · simp only [idsOf, List.map_cons, horder]
      exact List.mem_cons_self
    · exact List.mem_cons_of_mem _
        (ih hagrees.tail (fun v hv => hkeeps v (List.mem_cons_of_mem _ hv)) id hid rec hrec hlive)
  | @erase budget rng p ps rest fs hdecision _ _ =>
    rw [visits_erase hdecision] at hkeeps
    obtain ⟨rec, -, hbacks⟩ := hagrees.backed p List.mem_cons_self
    exact absurd (PendingOrder.killed_of_erase hbacks.unfinished hdecision) (hkeeps _ List.mem_cons_self)
  | @execute budget rng p p' allowed ps rest f fs hdecision hfill htail ih =>
    have hexecutes := PendingOrder.executes_of_decision hdecision
    obtain ⟨rec, -, hbacks, -, -, happly, htailAgrees⟩ := hagrees.executed hexecutes hfill
    rw [visits_execute hdecision] at hkeeps
    intro id hid rec' hrec' hlive
    rcases List.mem_cons.mp hid with rfl | hid
    · cases hkept : p'.after_fill allowed with
      | some kept =>
        simp only [idsOf, Option.toList_some, List.singleton_append, List.map_cons,
          (PendingOrder.after_fill_carries hkept).trans hexecutes.carries.order_eq]
        exact List.mem_cons_self
      | none =>
        have hframe := (htail.agrees htailAgrees).2.2 _ hagrees.head_fresh
        have hfinal : (applyAll oms (f :: fs)).records[p.order.id]? = some (rec.after_fill f) := by
          change (applyAll (oms.apply_fill f).2 fs).records[p.order.id]? = _
          rw [hframe, happly]
          exact Table.getElem?_insert_self _ _ _
        have hfilled := (hbacks.of_carries hexecutes.carries).filled_of_dropped
          (make_fill_ok hfill).2.2.2.2.1 hkept (hkeeps _ List.mem_cons_self)
        rw [hfinal, Option.some.injEq] at hrec'
        rw [← hrec', hfilled] at hlive
        cases hlive
    · have hmem := ih htailAgrees (fun v hv => hkeeps v (List.mem_cons_of_mem _ hv)) id hid rec' hrec' hlive
      simp only [idsOf, List.map_append] at hmem ⊢
      exact List.mem_append_right _ hmem

end ptl.execution
