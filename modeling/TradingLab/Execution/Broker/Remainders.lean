import Mathlib.Tactic.Ring
import TradingLab.Execution.Broker.Agreement

/-! What a call of the venue does to one order: what of it rests, what of it is
filled, and how it leaves. -/

namespace ptl.oms

/-- An order stamped with its arrival has the parent it had. -/
theorem Order.with_arrival_parent {o stamped : Order} {arrival : Timestamp}
    (hstamp : o.with_arrival arrival = .ok stamped) : stamped.parent_id = o.parent_id := by
  unfold Order.with_arrival at hstamp
  split at hstamp
  · cases hstamp
  · cases hstamp
    rfl

end ptl.oms

open ptl.oms

namespace ptl.execution

variable {R : Type}

/-- How much rests at the venue under an id. -/
def restingOf (ps : List PendingOrder) (id : OrderId) : Qty :=
  ((ps.filter fun p => p.order.id = id).map fun p => p.order.quantity - p.filled).sum

/-- How much some fills have of an order. -/
def filledBy (fs : List Fill) (id : OrderId) : Qty :=
  ((fs.filter fun f => f.order_id = id).map Fill.quantity).sum

@[simp] theorem restingOf_nil (id : OrderId) : restingOf [] id = 0 := rfl

theorem restingOf_cons (p : PendingOrder) (ps : List PendingOrder) (id : OrderId) :
    restingOf (p :: ps) id =
      (if p.order.id = id then p.order.quantity - p.filled else 0) + restingOf ps id := by
  unfold restingOf
  by_cases hid : p.order.id = id
  · rw [List.filter_cons_of_pos (by simpa using hid), if_pos hid]
    rfl
  · rw [List.filter_cons_of_neg (by simpa using hid), if_neg hid, zero_add]

theorem restingOf_append (ps qs : List PendingOrder) (id : OrderId) :
    restingOf (ps ++ qs) id = restingOf ps id + restingOf qs id := by
  simp [restingOf]

theorem restingOf_of_not_mem {ps : List PendingOrder} {id : OrderId} (hnot : id ∉ idsOf ps) :
    restingOf ps id = 0 := by
  have hnone : ps.filter (fun p => p.order.id = id) = [] := by
    rw [List.filter_eq_nil_iff]
    intro p hp hid
    exact hnot (List.mem_map.mpr ⟨p, hp, by simpa using hid⟩)
  rw [restingOf, hnone]
  rfl

@[simp] theorem filledBy_nil (id : OrderId) : filledBy [] id = 0 := rfl

theorem filledBy_cons (f : Fill) (fs : List Fill) (id : OrderId) :
    filledBy (f :: fs) id = (if f.order_id = id then f.quantity else 0) + filledBy fs id := by
  unfold filledBy
  by_cases hid : f.order_id = id
  · rw [List.filter_cons_of_pos (by simpa using hid), if_pos hid]
    rfl
  · rw [List.filter_cons_of_neg (by simpa using hid), if_neg hid, zero_add]

theorem filledBy_append (fs gs : List Fill) (id : OrderId) :
    filledBy (fs ++ gs) id = filledBy fs id + filledBy gs id := by
  simp [filledBy]

theorem filledBy_nonneg (fs : List Fill) (id : OrderId) : 0 ≤ filledBy fs id := by
  refine List.sum_nonneg fun x hx => ?_
  obtain ⟨f, -, rfl⟩ := List.mem_map.mp hx
  exact f.quantity_pos.le

theorem filledBy_of_forall_ne {fs : List Fill} {id : OrderId} (hother : ∀ f ∈ fs, f.order_id ≠ id) :
    filledBy fs id = 0 := by
  have hnone : fs.filter (fun f => f.order_id = id) = [] := by
    rw [List.filter_eq_nil_iff]
    intro f hf hid
    exact hother f hf (by simpa using hid)
  rw [filledBy, hnone]
  rfl

/-- What fills have of several orders, the first of them taken off. -/
theorem sum_filledBy_cons {ids : List OrderId} (hdistinct : ids.Nodup) (f : Fill) (fs : List Fill) :
    (ids.map (filledBy (f :: fs))).sum =
      (if f.order_id ∈ ids then f.quantity else 0) + (ids.map (filledBy fs)).sum := by
  induction ids with
  | nil => simp
  | cons id ids ih =>
    obtain ⟨hnew, hrest⟩ := List.nodup_cons.mp hdistinct
    rw [List.map_cons, List.sum_cons, ih hrest, filledBy_cons, List.map_cons, List.sum_cons]
    by_cases hid : f.order_id = id
    · subst hid
      rw [if_pos rfl, if_neg hnew, if_pos List.mem_cons_self]
      ring
    · have hmem : f.order_id ∈ id :: ids ↔ f.order_id ∈ ids := by simp [hid]
      simp only [if_neg hid, hmem]
      ring

/-- No order of a list is filled beyond its quantity. -/
def WithinOrders (ps : List PendingOrder) : Prop := ∀ p ∈ ps, p.filled ≤ p.order.quantity

theorem Agrees.withinOrders {oms : OrderManager} {ps : List PendingOrder} (hagrees : Agrees oms ps) :
    WithinOrders ps := by
  intro p hp
  obtain ⟨rec, -, hbacks⟩ := hagrees.backed p hp
  exact hbacks.unfinished.le

theorem restingOf_nonneg {ps : List PendingOrder} (hwithin : WithinOrders ps) (id : OrderId) :
    0 ≤ restingOf ps id := by
  refine List.sum_nonneg fun x hx => ?_
  obtain ⟨p, hp, rfl⟩ := List.mem_map.mp hx
  exact sub_nonneg.mpr (hwithin p (List.mem_of_mem_filter hp))

theorem restingOf_sublist {ps qs : List PendingOrder} (hsublist : qs.Sublist ps) (hwithin : WithinOrders ps)
    (id : OrderId) : restingOf qs id ≤ restingOf ps id := by
  refine ((hsublist.filter _).map _).sum_le_sum fun x hx => ?_
  obtain ⟨p, hp, rfl⟩ := List.mem_map.mp hx
  exact sub_nonneg.mpr (hwithin p (List.mem_of_mem_filter hp))

/-- Applied fills are filled of their orders. -/
theorem filled_applyAll {oms : OrderManager} {fs : List Fill} (haccepts : AcceptsAll oms fs) (id : OrderId) :
    ((applyAll oms fs).records[id]?).elim 0 OrderRecord.filled_quantity =
      (oms.records[id]?).elim 0 OrderRecord.filled_quantity + filledBy fs id := by
  induction fs generalizing oms with
  | nil => exact (add_zero _).symm
  | cons f fs ih =>
    obtain ⟨-, ⟨rec, hrec, hfits⟩, hrest⟩ := haccepts
    have hstep := ih hrest
    have hone : ((oms.apply_fill f).2.records[id]?).elim 0 OrderRecord.filled_quantity =
        (oms.records[id]?).elim 0 OrderRecord.filled_quantity +
          if f.order_id = id then f.quantity else 0 := by
      rw [OrderManager.apply_fill_accepted hrec hfits]
      dsimp only
      rw [Table.getElem?_insert_eq_ite]
      split
      · rename_i hid
        rw [← hid, hrec]
        rfl
      · rw [add_zero]
    rw [filledBy_cons]
    calc ((applyAll oms (f :: fs)).records[id]?).elim 0 OrderRecord.filled_quantity
        = ((oms.apply_fill f).2.records[id]?).elim 0 OrderRecord.filled_quantity + filledBy fs id := hstep
      _ = _ := by rw [hone, add_assoc]

theorem known_applyAll {oms : OrderManager} {fs : List Fill} (haccepts : AcceptsAll oms fs) {id : OrderId}
    (hknown : (oms.records[id]?).isSome = true) : ((applyAll oms fs).records[id]?).isSome = true := by
  induction fs generalizing oms with
  | nil => exact hknown
  | cons f fs ih =>
    obtain ⟨-, ⟨rec, hrec, hfits⟩, hrest⟩ := haccepts
    refine ih hrest ?_
    dsimp only
    rw [OrderManager.apply_fill_accepted hrec hfits]
    dsimp only
    rw [Table.getElem?_insert_eq_ite]
    split
    · rfl
    · exact hknown

/-! ### One call -/

theorem make_fill_parent {costs : ICostModel R} {order : Order} {price : Price} {qty : Qty}
    {now : Timestamp} {liquidity : Liquidity} {f : Fill}
    (hmade : make_fill costs order price qty now liquidity = .ok f) : f.parent_id = order.parent_id := by
  unfold make_fill at hmade
  split at hmade
  · cases hmade
  · split at hmade
    · cases hmade
    · split at hmade
      · cases hmade
      · cases hmade
        rfl

section Call

variable {costs : ICostModel R} {cfg : FillConfig} {instrument : InstrumentId} {state : MarketState}
  {now : Timestamp} {budget : Rat} {rng : R}

/-- What a call leaves resting of an order and what it fills of it were resting
before. -/
theorem Matched.resting_le {ps rest : List PendingOrder} {fs : List Fill}
    (hmatched : Matched costs cfg instrument state now budget rng ps fs rest) (hwithin : WithinOrders ps)
    (id : OrderId) : restingOf rest id + filledBy fs id ≤ restingOf ps id := by
  induction hmatched with
  | nil => simp
  | keep hdecision _ ih =>
    obtain ⟨horder, -, hfilled⟩ := PendingOrder.carries_of_decision hdecision
    have hrest := ih fun p hp => hwithin p (List.mem_cons_of_mem _ hp)
    rw [restingOf_cons, restingOf_cons, horder, hfilled]
    linarith
  | @erase budget rng p ps rest fs hdecision _ ih =>
    have hrest := ih fun p hp => hwithin p (List.mem_cons_of_mem _ hp)
    have hpos : 0 ≤ if p.order.id = id then p.order.quantity - p.filled else 0 := by
      split
      · exact sub_nonneg.mpr (hwithin p List.mem_cons_self)
      · exact le_refl _
    rw [restingOf_cons]
    linarith
  | @execute budget rng p p' allowed ps rest f fs hdecision hfill _ ih =>
    have hexecutes := PendingOrder.executes_of_decision hdecision
    have hrest := ih fun p hp => hwithin p (List.mem_cons_of_mem _ hp)
    obtain ⟨hid, -, -, -, hquantity, -⟩ := make_fill_ok hfill
    obtain ⟨horder, -, hfilled⟩ := hexecutes.carries
    rw [horder] at hid
    rw [restingOf_append, filledBy_cons, restingOf_cons, hid, hquantity]
    have hlocal : restingOf (p'.after_fill allowed).toList id + (if p.order.id = id then allowed else 0) ≤
        if p.order.id = id then p.order.quantity - p.filled else 0 := by
      cases hkept : p'.after_fill allowed with
      | none =>
        rw [Option.toList_none, restingOf_nil, zero_add]
        split
        · exact hexecutes.within_want
        · exact le_refl _
      | some kept =>
        obtain ⟨rfl, -⟩ := PendingOrder.after_fill_some hkept
        rw [Option.toList_some, restingOf_cons, restingOf_nil]
        dsimp only
        rw [horder, hfilled]
        split <;> linarith
    linarith

/-- What a call leaves resting are orders that were resting. -/
theorem Matched.order_of_rest {ps rest : List PendingOrder} {fs : List Fill}
    (hmatched : Matched costs cfg instrument state now budget rng ps fs rest) :
    ∀ q ∈ rest, ∃ p ∈ ps, q.order = p.order := by
  induction hmatched with
  | nil => exact fun q hq => absurd hq List.not_mem_nil
  | keep hdecision _ ih =>
    intro q hq
    rcases List.mem_cons.mp hq with rfl | hq
    · exact ⟨_, List.mem_cons_self, (PendingOrder.carries_of_decision hdecision).order_eq⟩
    · obtain ⟨p, hp, hsame⟩ := ih q hq
      exact ⟨p, List.mem_cons_of_mem _ hp, hsame⟩
  | erase _ _ ih =>
    intro q hq
    obtain ⟨p, hp, hsame⟩ := ih q hq
    exact ⟨p, List.mem_cons_of_mem _ hp, hsame⟩
  | execute hdecision _ _ ih =>
    intro q hq
    rcases List.mem_append.mp hq with hq | hq
    · have hkept := PendingOrder.after_fill_carries (Option.mem_toList.mp hq)
      exact ⟨_, List.mem_cons_self,
        hkept.trans (PendingOrder.executes_of_decision hdecision).carries.order_eq⟩
    · obtain ⟨p, hp, hsame⟩ := ih q hq
      exact ⟨p, List.mem_cons_of_mem _ hp, hsame⟩

/-- Its fills are made of orders that were resting. -/
theorem Matched.fill_made {ps rest : List PendingOrder} {fs : List Fill}
    (hmatched : Matched costs cfg instrument state now budget rng ps fs rest) :
    ∀ f ∈ fs, ∃ p ∈ ps, ∃ price qty, make_fill costs p.order price qty now .Taker = .ok f := by
  induction hmatched with
  | nil => exact fun f hf => absurd hf List.not_mem_nil
  | keep _ _ ih =>
    intro f hf
    obtain ⟨p, hp, hmade⟩ := ih f hf
    exact ⟨p, List.mem_cons_of_mem _ hp, hmade⟩
  | erase _ _ ih =>
    intro f hf
    obtain ⟨p, hp, hmade⟩ := ih f hf
    exact ⟨p, List.mem_cons_of_mem _ hp, hmade⟩
  | execute hdecision hfill _ ih =>
    intro g hg
    rcases List.mem_cons.mp hg with rfl | hg
    · rw [(PendingOrder.executes_of_decision hdecision).carries.order_eq] at hfill
      exact ⟨_, List.mem_cons_self, _, _, hfill⟩
    · obtain ⟨p, hp, hmade⟩ := ih g hg
      exact ⟨p, List.mem_cons_of_mem _ hp, hmade⟩

/-- Its fills are of something, and of orders that were resting, with their
parents. -/
theorem Matched.order_of_fill {ps rest : List PendingOrder} {fs : List Fill}
    (hmatched : Matched costs cfg instrument state now budget rng ps fs rest) :
    ∀ f ∈ fs, 0 < f.quantity ∧
      ∃ p ∈ ps, f.order_id = p.order.id ∧ f.parent_id = p.order.parent_id := by
  intro f hf
  obtain ⟨p, hp, price, qty, hmade⟩ := hmatched.fill_made f hf
  exact ⟨f.quantity_pos, p, hp, (make_fill_ok hmade).1, make_fill_parent hmade⟩

/-- An order that was resting still is, or has a fill, or was dropped without
one. -/
theorem Matched.fate {ps rest : List PendingOrder} {fs : List Fill}
    (hmatched : Matched costs cfg instrument state now budget rng ps fs rest) :
    ∀ id ∈ idsOf ps, id ∈ idsOf rest ∨ (∃ f ∈ fs, f.order_id = id) ∨
      ∃ v ∈ visits costs cfg instrument state now budget rng ps,
        v.found.order.id = id ∧ v.decision = .erase := by
  induction hmatched with
  | nil => exact fun id hid => absurd hid List.not_mem_nil
  | keep hdecision _ ih =>
    intro id hid
    rw [visits_keep hdecision]
    rcases List.mem_cons.mp hid with rfl | hid
    · refine .inl (List.mem_map.mpr ⟨_, List.mem_cons_self, ?_⟩)
      rw [(PendingOrder.carries_of_decision hdecision).order_eq]
    · rcases ih id hid with hrests | hfilled | ⟨v, hv, hdropped⟩
      · exact .inl (List.mem_cons_of_mem _ hrests)
      · exact .inr (.inl hfilled)
      · exact .inr (.inr ⟨v, List.mem_cons_of_mem _ hv, hdropped⟩)
  | erase hdecision _ ih =>
    intro id hid
    rw [visits_erase hdecision]
    rcases List.mem_cons.mp hid with rfl | hid
    · exact .inr (.inr ⟨_, List.mem_cons_self, rfl, rfl⟩)
    · rcases ih id hid with hrests | hfilled | ⟨v, hv, hdropped⟩
      · exact .inl hrests
      · exact .inr (.inl hfilled)
      · exact .inr (.inr ⟨v, List.mem_cons_of_mem _ hv, hdropped⟩)
  | execute hdecision hfill _ ih =>
    intro id hid
    rw [visits_execute hdecision]
    rcases List.mem_cons.mp hid with rfl | hid
    · refine .inr (.inl ⟨_, List.mem_cons_self, ?_⟩)
      rw [(make_fill_ok hfill).1, (PendingOrder.executes_of_decision hdecision).carries.order_eq]
    · rcases ih id hid with hrests | ⟨f, hf, hfid⟩ | ⟨v, hv, hdropped⟩
      · refine .inl ?_
        rw [idsOf, List.map_append]
        exact List.mem_append_right _ hrests
      · exact .inr (.inl ⟨f, List.mem_cons_of_mem _ hf, hfid⟩)
      · exact .inr (.inr ⟨v, List.mem_cons_of_mem _ hv, hdropped⟩)

end Call

end ptl.execution
