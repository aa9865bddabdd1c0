import TradingLab.Execution.Broker.Agreement

open ptl.oms

namespace ptl.execution

variable {R : Type}

/-- A fill as an external venue reports it: untrusted until it is checked. -/
structure ExternalFillReport where
  order_id : OrderId := kNoOrder
  quantity : Qty := 0
  price : Price := 0
  fill_time : Timestamp := kNoTimestamp
  commission : Notional := 0
  exchange_fee : Notional := 0
  liquidity : Liquidity := .Taker
  venue_fill_id : String := ""

/-- The fill a report makes of a pending order, or the reason it makes none. The
    costs are the venue's own. -/
def externalFill (p : PendingOrder) (report : ExternalFillReport) : Result Fill :=
  let remaining := p.order.quantity - p.filled
  if hquantity : ¬ 0 < report.quantity ∨ ¬ is_finite report.quantity then
    .error (bad "external fill quantity is not positive")
  else if hprice : ¬ 0 < report.price ∨ ¬ is_finite report.price then
    .error (bad "external fill price is not positive")
  else if report.quantity > remaining + 1e-9 then
    .error (bad ("external fill of " ++ to_string report.quantity ++ " exceeds the " ++
      to_string remaining ++ " remaining on the order"))
  else
    match hchain : validate_chain { p.order.times with fill_time := report.fill_time } with
    | some v => .error (bad ("external fill would violate the timestamp chain: " ++ v.describe))
    | none =>
      .ok {
        order_id := p.order.id
        parent_id := p.order.parent_id
        instrument := p.order.instrument
        side := p.order.side
        price := report.price
        quantity := report.quantity
        commission := report.commission
        exchange_fee := report.exchange_fee
        liquidity := report.liquidity
        times := { p.order.times with fill_time := report.fill_time }
        arrival_price := benchmark p.order report.price
        price_pos := not_not.mp (not_or.mp hprice).1
        quantity_pos := not_not.mp (not_or.mp hquantity).1
        chain_valid := hchain }

/-- Whether a fill of this size completes a pending order. -/
def PendingOrder.completedBy (p : PendingOrder) (quantity : Qty) : Bool :=
  p.order.quantity - 1e-9 ≤ p.filled + quantity

def PendingOrder.after_external (p : PendingOrder) (quantity : Qty) : Option PendingOrder :=
  if p.completedBy quantity then none else some { p with filled := p.filled + quantity }

/-- The first order of an id, replaced by what is left of it. -/
def updateFirst (id : OrderId) (left : PendingOrder → Option PendingOrder) :
    List PendingOrder → List PendingOrder
  | [] => []
  | p :: ps => if p.order.id = id then (left p).toList ++ ps else p :: updateFirst id left ps

def BrokerSimulator.working (b : BrokerSimulator R) (id : OrderId) : Option PendingOrder :=
  b.pending.find? fun p => p.order.id = id

def BrokerSimulator.ingest_external_fill (b : BrokerSimulator R) (report : ExternalFillReport) :
    Result Fill × BrokerSimulator R :=
  match b.working report.order_id with
  | none =>
    (.error (bad ("external fill references an order this broker is not working: " ++
      toString report.order_id)), b)
  | some p =>
    match externalFill p report with
    | .error e => (.error e, b)
    | .ok f =>
      (.ok f, { b with
        pending := updateFirst report.order_id (PendingOrder.after_external · report.quantity) b.pending
        stats := { b.stats with
          total_commission := b.stats.total_commission + f.commission
          fills := b.stats.fills + 1 } })

/-! ### The ids that stay pending -/

theorem BrokerSimulator.working_isSome_iff (b : BrokerSimulator R) (id : OrderId) :
    (b.working id).isSome = true ↔ id ∈ idsOf b.pending := by
  simp [BrokerSimulator.working, idsOf]

theorem BrokerSimulator.working_id {b : BrokerSimulator R} {id : OrderId} {p : PendingOrder}
    (hworking : b.working id = some p) : p.order.id = id := by
  simpa using List.find?_some hworking

theorem idsOf_eraseP (ps : List PendingOrder) (id : OrderId) :
    idsOf (ps.eraseP fun p => p.order.id = id) = (idsOf ps).erase id := by
  induction ps with
  | nil => rfl
  | cons p ps ih =>
    by_cases hid : p.order.id = id
    · simp [idsOf, hid]
    · simpa [idsOf, hid] using ih

/-- Removing one of the pending orders removes its id, as no two share one. -/
theorem mem_idsOf_eraseP {ps : List PendingOrder} (hdistinct : (idsOf ps).Nodup) (id id' : OrderId) :
    id' ∈ idsOf (ps.eraseP fun p => p.order.id = id) ↔ id' ∈ idsOf ps ∧ id' ≠ id := by
  rw [idsOf_eraseP, hdistinct.mem_erase_iff, and_comm]

theorem nodup_idsOf_eraseP {ps : List PendingOrder} (hdistinct : (idsOf ps).Nodup) (id : OrderId) :
    (idsOf (ps.eraseP fun p => p.order.id = id)).Nodup :=
  hdistinct.sublist (List.eraseP_sublist.map _)

/-- An update that completes an order removes it. -/
theorem updateFirst_none {id : OrderId} {left : PendingOrder → Option PendingOrder}
    {ps : List PendingOrder} {p : PendingOrder}
    (hfound : ps.find? (fun p => p.order.id = id) = some p) (hleft : left p = none) :
    updateFirst id left ps = ps.eraseP fun p => p.order.id = id := by
  induction ps with
  | nil => cases hfound
  | cons q ps ih =>
    by_cases hid : q.order.id = id
    · have hq : q = p := by simpa [hid] using hfound
      subst hq
      simp [updateFirst, hid, hleft]
    · simp only [List.find?_cons, hid, decide_false] at hfound
      simp [updateFirst, hid, ih hfound]

/-- An update that leaves some of an order leaves its id where it was. -/
theorem idsOf_updateFirst_some {id : OrderId} {left : PendingOrder → Option PendingOrder}
    {ps : List PendingOrder} {p p' : PendingOrder}
    (hfound : ps.find? (fun p => p.order.id = id) = some p) (hleft : left p = some p')
    (hid' : p'.order.id = id) : idsOf (updateFirst id left ps) = idsOf ps := by
  induction ps with
  | nil => cases hfound
  | cons q ps ih =>
    by_cases hid : q.order.id = id
    · have hq : q = p := by simpa [hid] using hfound
      subst hq
      simp [updateFirst, idsOf, hid, hleft, hid']
    · simp only [List.find?_cons, hid, decide_false] at hfound
      have hrest := ih hfound
      simp only [idsOf] at hrest
      simp [updateFirst, idsOf, hid, hrest]

/-- The ways a report can be taken: refused with nothing changed, or booked on
the order it names. -/
theorem BrokerSimulator.ingest_cases (b : BrokerSimulator R) (report : ExternalFillReport) :
    (∃ e, b.ingest_external_fill report = (.error e, b)) ∨
    ∃ p f, b.working report.order_id = some p ∧ externalFill p report = .ok f ∧
      (b.ingest_external_fill report).1 = .ok f ∧
      (b.ingest_external_fill report).2.pending =
        updateFirst report.order_id (PendingOrder.after_external · report.quantity) b.pending := by
  unfold BrokerSimulator.ingest_external_fill
  cases hworking : b.working report.order_id with
  | none => exact .inl ⟨_, rfl⟩
  | some p =>
    cases hfill : externalFill p report with
    | error e => exact .inl ⟨e, by simp only [hfill]⟩
    | ok f => exact .inr ⟨p, f, rfl, hfill, by simp only [hfill], by simp only [hfill]⟩

/-- What a booked report leaves pending: the order it completes is gone, any
other stays. -/
theorem BrokerSimulator.idsOf_ingest {b : BrokerSimulator R} {report : ExternalFillReport}
    {p : PendingOrder} (hworking : b.working report.order_id = some p) :
    idsOf (updateFirst report.order_id (PendingOrder.after_external · report.quantity) b.pending) =
      if p.completedBy report.quantity then
        idsOf (b.pending.eraseP fun p => p.order.id = report.order_id)
      else idsOf b.pending := by
  by_cases hcompleted : p.completedBy report.quantity = true
  · have hleft : p.after_external report.quantity = none := by
      rw [PendingOrder.after_external, if_pos hcompleted]
    rw [if_pos hcompleted, updateFirst_none hworking hleft]
  · have hleft : p.after_external report.quantity =
        some { p with filled := p.filled + report.quantity } := by
      rw [PendingOrder.after_external, if_neg hcompleted]
    have hid : p.order.id = report.order_id := BrokerSimulator.working_id hworking
    rw [if_neg hcompleted]
    exact idsOf_updateFirst_some hworking hleft (by exact hid)

end ptl.execution
