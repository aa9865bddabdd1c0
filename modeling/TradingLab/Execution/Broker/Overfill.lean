import TradingLab.Execution.Broker.External
import TradingLab.Execution.Broker.Immediate
import TradingLab.Execution.Broker.Remainders

/-! Two routes fill an order at the venue: the matching loop and the reports of an external
venue. Both count against what the order still wants. -/

open ptl.oms

namespace ptl.execution

variable {R : Type} {cfg : FillConfig} {instrument : InstrumentId} {state : MarketState} {now : Timestamp}

/-! ### Orders with what was filled of them -/

def PendingOrder.entry (p : PendingOrder) : Order × Qty := (p.order, p.filled)

open PendingOrder

/-- What was filled of the orders of an id. -/
def filledFor (entries : List (Order × Qty)) (id : OrderId) : Qty :=
  (entries.map fun e => if e.1.id = id then e.2 else 0).sum

@[simp] theorem filledFor_nil (id : OrderId) : filledFor [] id = 0 := rfl

@[simp] theorem filledFor_cons (e : Order × Qty) (entries : List (Order × Qty)) (id : OrderId) :
    filledFor (e :: entries) id = (if e.1.id = id then e.2 else 0) + filledFor entries id := rfl

@[simp] theorem filledFor_append (entries others : List (Order × Qty)) (id : OrderId) :
    filledFor (entries ++ others) id = filledFor entries id + filledFor others id := by
  simp [filledFor]

/-- What a visit fills of the order it finds. -/
def Visit.taken (v : Visit R) : Qty := v.size.getD 0

/-- The order of a visit, wherever it is after it. -/
def Visit.entries (v : Visit R) : List (Order × Qty) := v.retires ++ v.leaves.map entry

section Visits

variable {v : Visit R}

theorem Visit.entries_eq (hdecided : v.found.decision cfg instrument state now v.budget = v.decision) :
    v.entries = [(v.found.order, v.found.filled + v.taken)] := by
  unfold Visit.entries Visit.retires Visit.leaves Visit.taken Visit.size
  cases hdecision : v.decision with
  | keep p =>
    obtain ⟨horder, -, hfilled⟩ := carries_of_decision (hdecided.trans hdecision)
    simp [entry, horder, hfilled]
  | erase => simp
  | execute p allowed =>
    obtain ⟨horder, -, hfilled⟩ := (executes_of_decision (hdecided.trans hdecision)).carries
    cases hafter : p.after_fill allowed with
    | none => simp [hafter, horder, hfilled]
    | some kept => simp [hafter, entry, (after_fill_some hafter).1, horder, hfilled]

/-- A visit fills no more than the order still wants. -/
theorem Visit.taken_bounds (hdecided : v.found.decision cfg instrument state now v.budget = v.decision) :
    0 ≤ v.taken ∧ (v.taken = 0 ∨ v.found.filled + v.taken ≤ v.found.order.quantity) := by
  unfold Visit.taken Visit.size
  cases hdecision : v.decision with
  | keep p => exact ⟨le_refl 0, .inl rfl⟩
  | erase => exact ⟨le_refl 0, .inl rfl⟩
  | execute p allowed =>
    have hexecutes := executes_of_decision (hdecided.trans hdecision)
    exact ⟨hexecutes.allowed_pos.le, .inr (le_sub_iff_add_le'.mp hexecutes.within_want)⟩

/-- An entry of a visit holds what was found filled and what is taken. -/
theorem Visit.entries_within (hdecided : v.found.decision cfg instrument state now v.budget = v.decision)
    (hwithin : 0 ≤ v.found.filled ∧ v.found.filled ≤ v.found.order.quantity + 1e-9) {o : Order × Qty}
    (ho : o ∈ v.entries) : 0 ≤ o.2 ∧ o.2 ≤ o.1.quantity + 1e-9 := by
  obtain ⟨htaken, hnothing | hwants⟩ := Visit.taken_bounds hdecided
  · rw [Visit.entries_eq hdecided, hnothing, add_zero, List.mem_singleton] at ho
    rw [ho]
    exact hwithin
  · rw [Visit.entries_eq hdecided, List.mem_singleton] at ho
    rw [ho]
    exact ⟨add_nonneg hwithin.1 htaken, hwants.trans (le_add_of_nonneg_right (by norm_num))⟩

/-- An order that stays after a visit filled it has more than the tolerance
left. -/
theorem Visit.leaves_short (hdecided : v.found.decision cfg instrument state now v.budget = v.decision)
    (hshort : 0 < v.found.filled → v.found.filled + 1e-9 < v.found.order.quantity) {p : PendingOrder}
    (hp : p ∈ v.leaves) (hfilled : 0 < p.filled) : p.filled + 1e-9 < p.order.quantity := by
  unfold Visit.leaves at hp
  cases hdecision : v.decision with
  | keep q =>
    obtain ⟨horder, -, hkept⟩ := carries_of_decision (hdecided.trans hdecision)
    rw [hdecision, List.mem_singleton] at hp
    rw [hp, hkept] at hfilled
    rw [hp, hkept, horder]
    exact hshort hfilled
  | erase =>
    rw [hdecision] at hp
    cases hp
  | execute q allowed =>
    rw [hdecision, Option.mem_toList] at hp
    obtain ⟨hkept, hrests⟩ := after_fill_some hp
    rw [hkept]
    exact hrests

end Visits

/-- What some visits fill of the orders of an id. -/
def takenFor (vs : List (Visit R)) (id : OrderId) : Qty :=
  (vs.map fun v => if v.found.order.id = id then v.taken else 0).sum

@[simp] theorem takenFor_nil (id : OrderId) : takenFor ([] : List (Visit R)) id = 0 := rfl

@[simp] theorem takenFor_cons (v : Visit R) (vs : List (Visit R)) (id : OrderId) :
    takenFor (v :: vs) id = (if v.found.order.id = id then v.taken else 0) + takenFor vs id := rfl

theorem takenFor_nonneg {vs : List (Visit R)}
    (hdecided : ∀ v ∈ vs, v.found.decision cfg instrument state now v.budget = v.decision) (id : OrderId) :
    0 ≤ takenFor vs id := by
  refine List.sum_nonneg fun x hx => ?_
  obtain ⟨v, hv, rfl⟩ := List.mem_map.mp hx
  split
  · exact (Visit.taken_bounds (hdecided v hv)).1
  · exact le_refl 0

/-- Visits add what they fill to what was filled of the orders they find. -/
theorem filledFor_visits {vs : List (Visit R)}
    (hdecided : ∀ v ∈ vs, v.found.decision cfg instrument state now v.budget = v.decision) (id : OrderId) :
    filledFor (vs.flatMap Visit.retires) id + filledFor ((vs.flatMap Visit.leaves).map entry) id =
      filledFor (vs.map fun v => v.found.entry) id + takenFor vs id := by
  induction vs with
  | nil => rfl
  | cons v vs ih =>
    obtain ⟨hfirst, hrest⟩ := List.forall_mem_cons.mp hdecided
    have hentry : filledFor v.retires id + filledFor (v.leaves.map entry) id =
        if v.found.order.id = id then v.found.filled + v.taken else 0 := by
      rw [← filledFor_append, ← Visit.entries, Visit.entries_eq hfirst]
      simp
    have hothers := ih hrest
    simp only [List.flatMap_cons, List.map_append, List.map_cons, filledFor_append, filledFor_cons, takenFor_cons]
    change _ = (if v.found.order.id = id then v.found.filled else 0) + _ + _
    split_ifs at hentry ⊢ <;> linarith

/-- The fills a loop returns are what its visits filled. -/
theorem Matched.filledBy_eq {costs : ICostModel R} {budget : Rat} {rng : R} {ps rest : List PendingOrder}
    {fs : List Fill} (hmatched : Matched costs cfg instrument state now budget rng ps fs rest) (id : OrderId) :
    filledBy fs id = takenFor (visits costs cfg instrument state now budget rng ps) id := by
  induction hmatched with
  | nil => rfl
  | keep hdecision htail ih =>
    rw [visits_keep hdecision, takenFor_cons, ih]
    simp [Visit.taken, Visit.size]
  | erase hdecision htail ih =>
    rw [visits_erase hdecision, takenFor_cons, ih]
    simp [Visit.taken, Visit.size]
  | execute hdecision hfill htail ih =>
    obtain ⟨hid, -, -, -, hquantity, -⟩ := make_fill_ok hfill
    have horder := (executes_of_decision hdecision).carries.order_eq
    rw [visits_execute hdecision, takenFor_cons, filledBy_cons, ih, hid, hquantity, horder]
    rfl

theorem standing_entries {vs : List (Visit R)}
    (hdecided : ∀ v ∈ vs, v.found.decision cfg instrument state now v.budget = v.decision) :
    (standing vs).map entry = vs.map fun v => v.found.entry := by
  cases vs with
  | nil => rfl
  | cons v vs =>
    obtain ⟨horder, -, hfilled⟩ := Visit.stands_carries (hdecided v List.mem_cons_self)
    rw [standing, List.map_cons, List.map_map, List.map_cons, entry, horder, hfilled]
    rfl

/-- Replacing the first order of an id changes the list there only. -/
theorem updateFirst_split {id : OrderId} {ps : List PendingOrder} {p : PendingOrder}
    (hfound : ps.find? (fun p => p.order.id = id) = some p) (left : PendingOrder → Option PendingOrder) :
    ∃ before after, ps = before ++ p :: after ∧ updateFirst id left ps = before ++ (left p).toList ++ after := by
  induction ps with
  | nil => cases hfound
  | cons q ps ih =>
    by_cases hid : q.order.id = id
    · have hq : q = p := by simpa [hid] using hfound
      exact ⟨[], ps, by rw [hq]; rfl, by rw [updateFirst, if_pos hid, hq]; rfl⟩
    · rw [List.find?_cons_of_neg (by simpa using hid)] at hfound
      obtain ⟨before, after, hsplit, hupdated⟩ := ih hfound
      refine ⟨q :: before, after, by rw [hsplit]; rfl, ?_⟩
      rw [updateFirst, if_neg hid, hupdated]
      rfl

/-- A report that makes a fill is of a positive quantity, within the tolerance
of what the order wants. -/
theorem externalFill_ok {p : PendingOrder} {report : ExternalFillReport} {f : Fill}
    (hfill : externalFill p report = .ok f) :
    f.order_id = p.order.id ∧ f.quantity = report.quantity ∧ 0 < report.quantity ∧
      p.filled + report.quantity ≤ p.order.quantity + 1e-9 := by
  unfold externalFill at hfill
  dsimp only at hfill
  split at hfill
  · cases hfill
  · rename_i hquantity
    split at hfill
    · cases hfill
    · split at hfill
      · cases hfill
      · rename_i hwithin
        split at hfill
        · cases hfill
        · cases hfill
          refine ⟨rfl, rfl, not_not.mp (not_or.mp hquantity).1, ?_⟩
          linarith [not_lt.mp hwithin]

theorem PendingOrder.after_external_cases (p : PendingOrder) (quantity : Qty) :
    (p.completedBy quantity = true ∧ p.after_external quantity = none) ∨
      (p.completedBy quantity = false ∧ p.after_external quantity = some { p with filled := p.filled + quantity } ∧
        p.filled + quantity + 1e-9 < p.order.quantity) := by
  unfold after_external
  by_cases hcompleted : p.completedBy quantity = true
  · exact .inl ⟨hcompleted, if_pos hcompleted⟩
  · refine .inr ⟨by simpa using hcompleted, if_neg hcompleted, ?_⟩
    have hrests : ¬ p.order.quantity - 1e-9 ≤ p.filled + quantity := by
      simpa [completedBy] using hcompleted
    linarith [not_le.mp hrests]

/-! ### Runs of the venue with both routes -/

/-- A venue, the orders that left it with what each was filled for over its
life, and the fills returned to the callers of either route. -/
structure FillRun (R : Type) where
  broker : BrokerSimulator R
  retired : List (Order × Qty) := []
  returned : List Fill := []

/-- Every order that was accepted, with what was filled of it. -/
def FillRun.orders (s : FillRun R) : List (Order × Qty) := s.retired ++ s.broker.pending.map entry

inductive FillMove where
  | call (c : VenueCall)
  | report (r : ExternalFillReport)

/-- The fills a call returns. -/
def VenueCall.returns (b : BrokerSimulator R) : VenueCall → List Fill
  | .on_market instrument state now => ((b.on_market instrument state now).1.toOption).getD []
  | _ => []

/-- The order a report completes, with what was filled of it. -/
def FillRun.completes (s : FillRun R) (r : ExternalFillReport) : Option (Order × Qty) :=
  match s.broker.working r.order_id, (s.broker.ingest_external_fill r).1 with
  | some p, .ok _ => if p.completedBy r.quantity then some (p.order, p.filled + r.quantity) else none
  | _, _ => none

def FillRun.move (s : FillRun R) : FillMove → FillRun R
  | .call c =>
    let run : OrderRun R := { broker := s.broker, retired := s.retired }
    { broker := (run.call c).broker
      retired := (run.call c).retired
      returned := s.returned ++ c.returns s.broker }
  | .report r => {
      broker := (s.broker.ingest_external_fill r).2
      retired := s.retired ++ (s.completes r).toList
      returned := s.returned ++ (s.broker.ingest_external_fill r).1.toOption.toList }

def fillMachine (R : Type) : Machine (FillRun R) FillMove where
  Init s := s.broker.pending = [] ∧ s.retired = [] ∧ s.returned = []
  step s m := some (s.move m)

/-- No order is filled by more than the tolerance beyond its quantity, one that
is filled and pending has more than the tolerance left, and every fill returned
was counted. -/
structure FillRun.Bounded (s : FillRun R) : Prop where
  within : ∀ o ∈ s.orders, 0 ≤ o.2 ∧ o.2 ≤ o.1.quantity + 1e-9
  short : ∀ p ∈ s.broker.pending, 0 < p.filled → p.filled + 1e-9 < p.order.quantity
  counted : ∀ id, filledBy s.returned id ≤ filledFor s.orders id

theorem BrokerSimulator.submit_pending (b : BrokerSimulator R) (now : Timestamp) (order : Order) :
    (b.submit now order).2.pending = b.pending ∨
      ∃ p, p.filled = 0 ∧ (b.submit now order).2.pending = b.pending ++ [p] := by
  simp only [BrokerSimulator.submit]
  split
  · exact .inl rfl
  · split
    · exact .inl rfl
    · split
      · exact .inl rfl
      · exact .inr ⟨_, rfl, rfl⟩

theorem BrokerSimulator.cancel_pending (b : BrokerSimulator R) (id : OrderId) :
    (b.working id = none ∧ (b.cancel id).2.pending = b.pending) ∨
      ∃ p, b.working id = some p ∧ (b.cancel id).2.pending = updateFirst id (fun _ => none) b.pending := by
  unfold BrokerSimulator.cancel
  cases hworking : b.working id with
  | none =>
    have habsent : ¬ b.pending.any (fun p => p.order.id = id) = true := by
      simpa [BrokerSimulator.working] using hworking
    exact .inl ⟨rfl, by rw [if_neg habsent]⟩
  | some p =>
    have hpresent : b.pending.any (fun p => p.order.id = id) = true :=
      List.any_eq_true.mpr ⟨p, List.mem_of_find?_eq_some hworking, by
        simpa using BrokerSimulator.working_id hworking⟩
    refine .inr ⟨p, rfl, ?_⟩
    rw [if_pos hpresent, updateFirst_none hworking rfl]

section Steps

variable {s t : FillRun R}

/-- One pending order is filled for some more, or for nothing more, and leaves or
stays. -/
theorem FillRun.Bounded.replace (hbounded : s.Bounded) {p : PendingOrder} {before after : List PendingOrder}
    (left : Option PendingOrder) (quantity : Qty) {retired : List (Order × Qty)}
    (hpending : s.broker.pending = before ++ p :: after)
    (hleft : t.broker.pending = before ++ left.toList ++ after) (hretired : t.retired = s.retired ++ retired)
    (hentry : retired ++ left.toList.map entry = [(p.order, p.filled + quantity)])
    (hnonneg : 0 ≤ quantity) (hwithin : p.filled + quantity ≤ p.order.quantity + 1e-9)
    (hshort : ∀ p' ∈ left, 0 < p'.filled → p'.filled + 1e-9 < p'.order.quantity)
    (hreturned : ∀ id, filledBy t.returned id ≤ filledBy s.returned id + if p.order.id = id then quantity else 0) :
    t.Bounded := by
  have hmem : p ∈ s.broker.pending := hpending ▸ List.mem_append_right _ List.mem_cons_self
  have hfilled := (hbounded.within p.entry (List.mem_append_right _ (List.mem_map_of_mem hmem))).1
  have horders : s.orders = s.retired ++ (before.map entry ++ p.entry :: after.map entry) := by
    rw [FillRun.orders, hpending, List.map_append, List.map_cons]
  have horders' : t.orders = s.retired ++ (retired ++ (before.map entry ++
      (left.toList.map entry ++ after.map entry))) := by
    rw [FillRun.orders, hleft, hretired]
    simp only [List.map_append, List.append_assoc]
  refine ⟨fun o ho => ?_, fun p' hp' => ?_, fun id => ?_⟩
  · -- The order filled is the one entry of `retired` and `left` together.
    have hnew : o ∈ retired ++ left.toList.map entry → 0 ≤ o.2 ∧ o.2 ≤ o.1.quantity + 1e-9 := by
      rw [hentry, List.mem_singleton]
      rintro rfl
      exact ⟨add_nonneg hfilled hnonneg, hwithin⟩
    have hold : o ∈ s.orders → 0 ≤ o.2 ∧ o.2 ≤ o.1.quantity + 1e-9 := hbounded.within o
    rw [horders] at hold
    rw [horders'] at ho
    simp only [List.mem_append, List.mem_cons] at ho hnew hold
    tauto
  · have hold := hbounded.short p'
    rw [hpending] at hold
    rw [hleft] at hp'
    simp only [List.mem_append, List.mem_cons, Option.mem_toList] at hp' hold
    rcases hp' with (hp' | hp') | hp'
    · exact hold (.inl hp')
    · exact hshort p' hp'
    · exact hold (.inr (.inr hp'))
  · have hnew := congrArg (filledFor · id) hentry
    have hcounted := hbounded.counted id
    have hadded := hreturned id
    rw [horders] at hcounted
    rw [horders']
    simp only [filledFor_append, filledFor_cons, filledFor_nil, entry] at hnew hcounted ⊢
    split_ifs at hnew hcounted hadded <;> linarith

theorem FillRun.Bounded.submit (hbounded : s.Bounded) (now : Timestamp) (order : Order) :
    (s.move (.call (.submit now order))).Bounded := by
  have hreturned : (s.move (.call (.submit now order))).returned = s.returned := List.append_nil _
  obtain hpending | ⟨p, hunfilled, hpending⟩ := s.broker.submit_pending now order
  · have horders : (s.move (.call (.submit now order))).orders = s.orders :=
      congrArg (fun ps => s.retired ++ ps.map entry) hpending
    refine ⟨horders ▸ hbounded.within, hpending ▸ hbounded.short, fun id => ?_⟩
    rw [hreturned, horders]
    exact hbounded.counted id
  · have horders : (s.move (.call (.submit now order))).orders = s.orders ++ [p.entry] := by
      have happended := congrArg (fun ps => s.retired ++ ps.map entry) hpending
      rwa [List.map_append, ← List.append_assoc] at happended
    refine ⟨fun o ho => ?_, fun q hq hfilled => ?_, fun id => ?_⟩
    · rw [horders] at ho
      rcases List.mem_append.mp ho with hold | hnew
      · exact hbounded.within o hold
      · rw [List.mem_singleton.mp hnew, entry, hunfilled]
        exact ⟨le_refl 0, add_nonneg p.order.quantity_pos.le (by norm_num)⟩
    · rcases List.mem_append.mp (hpending ▸ hq : q ∈ s.broker.pending ++ [p]) with hold | hnew
      · exact hbounded.short q hold hfilled
      · rw [List.mem_singleton.mp hnew, hunfilled] at hfilled
        exact absurd hfilled (lt_irrefl 0)
    · rw [hreturned, horders]
      simpa [entry, hunfilled] using hbounded.counted id

theorem FillRun.Bounded.cancel (hbounded : s.Bounded) (id : OrderId) :
    (s.move (.call (.cancel id))).Bounded := by
  have hreturned : (s.move (.call (.cancel id))).returned = s.returned := List.append_nil _
  have hretired : (s.move (.call (.cancel id))).retired =
      s.retired ++ ((s.broker.working id).map entry).toList := rfl
  obtain ⟨hnone, hpending⟩ | ⟨p, hworking, hpending⟩ := s.broker.cancel_pending id
  · rw [hnone, Option.map_none, Option.toList_none, List.append_nil] at hretired
    have horders : (s.move (.call (.cancel id))).orders = s.orders := by
      rw [FillRun.orders, hretired]
      exact congrArg (fun ps => s.retired ++ ps.map entry) hpending
    refine ⟨horders ▸ hbounded.within, hpending ▸ hbounded.short, fun id => ?_⟩
    rw [hreturned, horders]
    exact hbounded.counted id
  · obtain ⟨before, after, hsplit, hupdated⟩ := updateFirst_split hworking fun _ => none
    have hmem : p.entry ∈ s.orders :=
      List.mem_append_right _ (List.mem_map_of_mem (List.mem_of_find?_eq_some hworking))
    refine hbounded.replace none 0 hsplit (hpending.trans hupdated)
      (by rw [hretired, hworking]) ?_ (le_refl 0) ?_ (fun _ hp => by cases hp) fun id => ?_
    · rw [add_zero]
      rfl
    · rw [add_zero]
      exact (hbounded.within p.entry hmem).2
    · rw [hreturned, ite_self, add_zero]

theorem FillRun.move_refused {r : ExternalFillReport} {e : Error}
    (hrefused : s.broker.ingest_external_fill r = (.error e, s.broker)) : s.move (.report r) = s := by
  have hcompletes : s.completes r = none := by
    unfold FillRun.completes
    rw [hrefused]
    cases s.broker.working r.order_id <;> rfl
  rw [FillRun.move, hcompletes, hrefused]
  simp [Except.toOption]

theorem FillRun.Bounded.report (hbounded : s.Bounded) (r : ExternalFillReport) :
    (s.move (.report r)).Bounded := by
  obtain ⟨e, hrefused⟩ | ⟨p, f, hworking, hfill, hok, hpending⟩ := s.broker.ingest_cases r
  · rw [FillRun.move_refused hrefused]
    exact hbounded
  · obtain ⟨hid, hquantity, hpos, hwithin⟩ := externalFill_ok hfill
    obtain ⟨before, after, hsplit, hupdated⟩ := updateFirst_split hworking (after_external · r.quantity)
    have hcompletes : s.completes r =
        if p.completedBy r.quantity then some (p.order, p.filled + r.quantity) else none := by
      unfold FillRun.completes
      rw [hworking, hok]
    have hreturned : (s.move (.report r)).returned = s.returned ++ [f] := by
      rw [FillRun.move, hok]
      rfl
    refine hbounded.replace _ r.quantity hsplit (hpending.trans hupdated) rfl ?_ hpos.le hwithin ?_
      fun id => ?_
    · rw [hcompletes]
      obtain ⟨hcompleted, hnone⟩ | ⟨hrests, hsome, -⟩ := p.after_external_cases r.quantity
      · rw [if_pos hcompleted, hnone]
        rfl
      · rw [hrests, hsome]
        rfl
    · obtain ⟨-, hnone⟩ | ⟨-, hsome, hshort⟩ := p.after_external_cases r.quantity
      · rw [hnone]
        exact fun _ hp => by cases hp
      · rw [hsome]
        rintro p' ⟨⟩ -
        exact hshort
    · rw [hreturned, filledBy_append, filledBy_cons, hid, hquantity, filledBy_nil, add_zero]

/-- What a call returns of an order is what its visits filled of it, or nothing
when it fails. -/
theorem VenueCall.filledBy_returns (b : BrokerSimulator R) (instrument : InstrumentId) (state : MarketState)
    (now : Timestamp) (id : OrderId) :
    filledBy (VenueCall.returns b (.on_market instrument state now)) id ≤
      takenFor (b.completed instrument state now) id := by
  cases hresult : (b.on_market instrument state now).1 with
  | error e =>
    rw [VenueCall.returns, hresult]
    exact takenFor_nonneg (fun v hv => b.completed_decided instrument state now hv) id
  | ok fs =>
    have hnone : b.abandoned instrument state now = [] := by
      by_contra hsome
      obtain ⟨e, herror⟩ := (b.on_market_error_iff instrument state now).mpr hsome
      rw [hresult] at herror
      cases herror
    have hall : b.completed instrument state now = b.visits instrument state now := by
      have happended : b.completed instrument state now ++ b.abandoned instrument state now = _ :=
        List.takeWhile_append_dropWhile
      rwa [hnone, List.append_nil] at happended
    rw [VenueCall.returns, hresult, hall]
    exact ((BrokerSimulator.on_market_matched hresult).filledBy_eq id).le

theorem FillRun.Bounded.on_market (hbounded : s.Bounded) (instrument : InstrumentId) (state : MarketState)
    (now : Timestamp) : (s.move (.call (.on_market instrument state now))).Bounded := by
  have hcompleted := fun v (hv : v ∈ s.broker.completed instrument state now) =>
    s.broker.completed_decided instrument state now hv
  have hfound := s.broker.pending_found instrument state now
  have horders : s.orders = s.retired ++
      ((s.broker.completed instrument state now).map (fun v => v.found.entry) ++
        (s.broker.abandoned instrument state now).map fun v => v.found.entry) := by
    rw [FillRun.orders, hfound, List.map_append, List.map_map, List.map_map]
    rfl
  have hpending : (s.move (.call (.on_market instrument state now))).broker.pending =
      (s.broker.completed instrument state now).flatMap Visit.leaves ++
        standing (s.broker.abandoned instrument state now) := s.broker.on_market_pending instrument state now
  have horders' : (s.move (.call (.on_market instrument state now))).orders =
      s.retired ++ (s.broker.completed instrument state now).flatMap Visit.retires ++
        (((s.broker.completed instrument state now).flatMap Visit.leaves).map entry ++
          (s.broker.abandoned instrument state now).map fun v => v.found.entry) := by
    rw [FillRun.orders, hpending, List.map_append,
      standing_entries fun v hv => s.broker.abandoned_decided instrument state now hv]
    rfl
  refine ⟨fun o ho => ?_, fun p hp => ?_, fun id => ?_⟩
  · rw [horders', List.append_assoc] at ho
    have hold : ∀ v ∈ s.broker.completed instrument state now, v.found.entry ∈ s.orders := fun v hv =>
      horders ▸ List.mem_append_right _ (List.mem_append_left _ (List.mem_map_of_mem hv))
    have hvisited : ∀ v ∈ s.broker.completed instrument state now, o ∈ v.entries →
        0 ≤ o.2 ∧ o.2 ≤ o.1.quantity + 1e-9 := fun v hv hentry =>
      Visit.entries_within (hcompleted v hv) (hbounded.within _ (hold v hv)) hentry
    rcases List.mem_append.mp ho with ho | ho
    · exact hbounded.within o (List.mem_append_left _ ho)
    rcases List.mem_append.mp ho with ho | ho
    · obtain ⟨v, hv, ho⟩ := List.mem_flatMap.mp ho
      exact hvisited v hv (List.mem_append_left _ ho)
    rcases List.mem_append.mp ho with ho | ho
    · obtain ⟨p, hp, rfl⟩ := List.mem_map.mp ho
      obtain ⟨v, hv, hp⟩ := List.mem_flatMap.mp hp
      exact hvisited v hv (List.mem_append_right _ (List.mem_map_of_mem hp))
    · exact hbounded.within o (horders ▸ List.mem_append_right _ (List.mem_append_right _ ho))
  · intro hfilled
    have hshort : ∀ v ∈ s.broker.completed instrument state now ++ s.broker.abandoned instrument state now,
        0 < v.found.filled → v.found.filled + 1e-9 < v.found.order.quantity := by
      intro v hv
      refine hbounded.short v.found ?_
      rw [hfound, ← List.map_append]
      exact List.mem_map_of_mem hv
    rw [hpending] at hp
    rcases List.mem_append.mp hp with hp | hp
    · obtain ⟨v, hv, hp⟩ := List.mem_flatMap.mp hp
      exact Visit.leaves_short (hcompleted v hv) (hshort v (List.mem_append_left _ hv)) hp hfilled
    · obtain ⟨v, hv, rfl | rfl⟩ := mem_standing hp
      · obtain ⟨horder, -, hsame⟩ := Visit.stands_carries (s.broker.abandoned_decided instrument state now hv)
        rw [hsame] at hfilled ⊢
        rw [horder]
        exact hshort v (List.mem_append_right _ hv) hfilled
      · exact hshort v (List.mem_append_right _ hv) hfilled
  · have hvisits := filledFor_visits hcompleted id
    have hcounted := hbounded.counted id
    have hreturned := VenueCall.filledBy_returns s.broker instrument state now id
    have happended : (s.move (.call (.on_market instrument state now))).returned =
        s.returned ++ VenueCall.returns s.broker (.on_market instrument state now) := rfl
    rw [horders] at hcounted
    rw [horders', happended, filledBy_append]
    simp only [filledFor_append] at hcounted ⊢
    linarith

end Steps

/-- Whatever a run asks of the venue by either route, in whatever order, the
books stay bounded. -/
theorem fillMachine_bounded_run {s : FillRun R} (hreach : (fillMachine R).Reachable s) : s.Bounded := by
  refine hreach.invariant (I := FillRun.Bounded) (fun s hinit => ?_) fun s m t _ hbounded _ hstep => ?_
  · obtain ⟨hpending, hretired, hreturned⟩ := hinit
    have hnone : s.orders = [] := by rw [FillRun.orders, hpending, hretired]; rfl
    refine ⟨?_, ?_, fun id => ?_⟩
    · rw [hnone]
      exact fun o ho => absurd ho List.not_mem_nil
    · rw [hpending]
      exact fun p hp => absurd hp List.not_mem_nil
    · rw [hreturned, hnone]
      exact le_refl 0
  · cases hstep
    cases m with
    | report r => exact hbounded.report r
    | call c =>
      cases c with
      | submit now order => exact hbounded.submit now order
      | cancel id => exact hbounded.cancel id
      | on_market instrument state now => exact hbounded.on_market instrument state now

theorem filledFor_eq_filter (entries : List (Order × Qty)) (id : OrderId) :
    filledFor entries id = ((entries.filter fun e => e.1.id = id).map Prod.snd).sum := by
  induction entries with
  | nil => rfl
  | cons e entries ih =>
    rw [filledFor_cons, ih]
    by_cases hid : e.1.id = id
    · rw [if_pos hid, List.filter_cons_of_pos (by simpa using hid), List.map_cons, List.sum_cons]
    · rw [if_neg hid, List.filter_cons_of_neg (by simpa using hid), zero_add]

/-- A venue with no orders. -/
def quietVenue : FillRun Unit where
  broker := {
    costs := flatCosts, latency := flatLatency, latency_rng := (), slippage_rng := (), fill_cfg := {} }

theorem quietVenue_reachable : (fillMachine Unit).Reachable quietVenue := .init ⟨rfl, rfl, rfl⟩

/-- An external venue fills an order by the tolerance too much. -/
def fullReport : ExternalFillReport where
  order_id := 1
  quantity := 10 + 1e-9
  price := 100
  fill_time := 2000000

/-- An order for the tolerance alone. -/
def tinyBuy : Order := Result.value (Order.market 1 0 .Buy 1e-9 { decision_time := 0 } .Day) (by decide +kernel)

end ptl.execution
