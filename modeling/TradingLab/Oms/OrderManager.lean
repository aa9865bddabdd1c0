import TradingLab.Oms.Order
import TradingLab.TableSum

open Std (TreeMap)

namespace ptl.oms

inductive OrderState where
  | New
  | PendingNew
  | Working
  | PartiallyFilled
  | Filled
  | PendingCancel
  | Cancelled
  | Rejected
  | Expired
  deriving DecidableEq, Repr

def OrderState.to_string : OrderState → String
  | .New => "new"
  | .PendingNew => "pending_new"
  | .Working => "working"
  | .PartiallyFilled => "partially_filled"
  | .Filled => "filled"
  | .PendingCancel => "pending_cancel"
  | .Cancelled => "cancelled"
  | .Rejected => "rejected"
  | .Expired => "expired"

def is_terminal (s : OrderState) : Bool :=
  s = .Filled ∨ s = .Cancelled ∨ s = .Rejected ∨ s = .Expired

def is_legal_transition (source target : OrderState) : Bool :=
  if is_terminal source then false
  else if source = target then false
  else
    match source with
    | .New => target = .PendingNew ∨ target = .Rejected ∨ target = .Cancelled
    | .PendingNew =>
      target = .Working ∨ target = .Rejected ∨ target = .PartiallyFilled ∨ target = .Filled ∨
        target = .Cancelled
    | .Working =>
      target = .PartiallyFilled ∨ target = .Filled ∨ target = .PendingCancel ∨
        target = .Cancelled ∨ target = .Expired
    | .PartiallyFilled =>
      target = .Filled ∨ target = .PendingCancel ∨ target = .Cancelled ∨ target = .Expired
    | .PendingCancel => target = .Cancelled ∨ target = .Filled ∨ target = .PartiallyFilled
    | _ => false

structure OrderRecord where
  order : Order
  state : OrderState := .New
  filled_quantity : Qty := 0
  filled_notional : Notional := 0
  total_cost : Notional := 0
  reject_reason : String := ""

def OrderRecord.remaining (r : OrderRecord) : Qty := r.order.quantity - r.filled_quantity

def OrderRecord.complete (r : OrderRecord) : Bool := r.order.quantity ≤ r.filled_quantity

structure OrderManager where
  records : TreeMap OrderId OrderRecord := ∅
  next : UInt64 := 1

def OrderManager.next_id (m : OrderManager) : OrderId × OrderManager :=
  (m.next, { m with next := m.next + 1 })

/-- The error of a submission, if it is refused. -/
def OrderManager.submitError (m : OrderManager) (order : Order) : Option Error :=
  if order.id = 0 then some (bad "cannot submit an order with no id")
  else if m.records.contains order.id then
    some (bad "duplicate order id" (toString order.id))
  else if order.is_child ∧ ¬ m.records.contains order.parent_id then
    some (bad "child order references an unknown parent" (toString order.parent_id))
  else none

def OrderManager.submit (m : OrderManager) (order : Order) : Result OrderId × OrderManager :=
  match m.submitError order with
  | some e => (.error e, m)
  | none =>
    (.ok order.id, {
      records := m.records.insert order.id { order }
      next := max m.next (order.id + 1) })

def OrderManager.transition (m : OrderManager) (id : OrderId) (target : OrderState)
    (reason : String := "") : Result Bool × OrderManager :=
  match m.records[id]? with
  | none => (.error (bad "unknown order" (toString id)), m)
  | some rec =>
    if ¬ is_legal_transition rec.state target then
      (.error (bad ("illegal order transition " ++ rec.state.to_string ++ " -> " ++ target.to_string)
        (toString id)), m)
    else
      let moved := { rec with
        state := target
        reject_reason := if reason = "" then rec.reject_reason else reason }
      (.ok true, { m with records := m.records.insert id moved })

/-- The amounts of a record after a fill. They are written before the state
    transition is checked. -/
def OrderRecord.add_fill (r : OrderRecord) (fill : Fill) : OrderRecord :=
  { r with
    filled_quantity := r.filled_quantity + fill.quantity
    filled_notional := r.filled_notional + fill.price * fill.quantity
    total_cost := r.total_cost + fill.total_cost }

/-- The checks a fill passes before anything is written. -/
def OrderRecord.fillError (r : OrderRecord) (fill : Fill) : Option Error :=
  let after := r.filled_quantity + fill.quantity
  if is_terminal r.state then
    some (bad ("fill arrived for an order in terminal state " ++ r.state.to_string))
  else if fill.instrument ≠ r.order.instrument ∨ fill.side ≠ r.order.side then
    some (bad "fill does not match its order instrument or side")
  else if r.order.quantity + 1e-9 < after then
    some (bad ("fill would overfill the order: " ++ ptl.to_string after ++ " of " ++
      ptl.to_string r.order.quantity))
  else if fill.fill_time ≤ r.order.decision_time then
    some (bad "fill time is not after the decision that produced it")
  else none

def OrderManager.apply_fill (m : OrderManager) (fill : Fill) : Result Bool × OrderManager :=
  match m.records[fill.order_id]? with
  | none => (.error (bad "fill references an unknown order" (toString fill.order_id)), m)
  | some rec =>
    match rec.fillError fill with
    | some e => (.error e, m)
    | none =>
      let booked := rec.add_fill fill
      let written := { m with records := m.records.insert fill.order_id booked }
      let next : OrderState := if booked.complete then .Filled else .PartiallyFilled
      if booked.state ≠ next then
        if ¬ is_legal_transition booked.state next then
          (.error (bad ("fill implies an illegal transition from " ++ booked.state.to_string)), written)
        else
          (.ok true,
            { m with records := m.records.insert fill.order_id { booked with state := next } })
      else (.ok true, written)

/-- Cancel first, then submit the replacement. -/
def OrderManager.cancel_replace (m : OrderManager) (original : OrderId) (replacement : Order) :
    Result OrderId × OrderManager :=
  match m.records[original]? with
  | none => (.error (bad "unknown order for cancel/replace"), m)
  | some rec =>
    if is_terminal rec.state then
      (.error (bad ("cannot replace an order in terminal state " ++ rec.state.to_string)), m)
    else if replacement.instrument ≠ rec.order.instrument ∨ replacement.side ≠ rec.order.side then
      (.error (bad "replacement must keep the same instrument and side"), m)
    else
      match m.transition original .Cancelled "replaced" with
      | (.error e, cancelled) => (.error e, cancelled)
      | (.ok _, cancelled) => cancelled.submit replacement

def OrderManager.find (m : OrderManager) (id : OrderId) : Option OrderRecord := m.records[id]?

def OrderManager.working (m : OrderManager) : List OrderId :=
  m.records.foldl (fun out key rec => if ¬ is_terminal rec.state then out ++ [key] else out) []

/-- Signed remaining quantity over the orders that are not terminal. -/
def OrderManager.exposure_of (m : OrderManager) (instrument : InstrumentId) : Qty :=
  m.records.foldl (fun total _ rec =>
    if rec.order.instrument ≠ instrument ∨ is_terminal rec.state then total
    else total + rec.remaining * (sign_of rec.order.side : Rat)) 0

/-- What one record adds to an instrument's exposure. -/
def OrderRecord.exposure (r : OrderRecord) (instrument : InstrumentId) : Qty :=
  if r.order.instrument ≠ instrument ∨ is_terminal r.state then 0
  else r.remaining * (sign_of r.order.side : Rat)

theorem OrderManager.exposure_of_eq_sum (m : OrderManager) (instrument : InstrumentId) :
    m.exposure_of instrument = Table.sum (fun _ rec => rec.exposure instrument) m.records :=
  Table.foldl_skip_eq_sum _ _ _

/-- Every order that is not terminal can be cancelled. -/
theorem is_legal_cancel {s : OrderState} (hlive : is_terminal s = false) :
    is_legal_transition s .Cancelled = true := by
  cases s <;> simp_all [is_terminal, is_legal_transition]

/-- A fill moves an order it finds live to the state it implies unless the
    order was never acknowledged. -/
theorem is_legal_fill {s : OrderState} (hlive : is_terminal s = false) (hsent : s ≠ .New) {done : Bool}
    (hmoves : s ≠ if done then .Filled else .PartiallyFilled) :
    is_legal_transition s (if done then .Filled else .PartiallyFilled) = true := by
  cases s <;> cases done <;> simp_all [is_terminal, is_legal_transition]

theorem not_is_legal_fill_new (done : Bool) :
    is_legal_transition .New (if done then .Filled else .PartiallyFilled) = false := by
  cases done <;> rfl

/-- A record after a fill the manager accepts. -/
def OrderRecord.after_fill (r : OrderRecord) (fill : Fill) : OrderRecord :=
  { r.add_fill fill with
    state := if (r.add_fill fill).complete then .Filled else .PartiallyFilled }

@[simp] theorem OrderRecord.after_fill_filled (r : OrderRecord) (fill : Fill) :
    (r.after_fill fill).filled_quantity = r.filled_quantity + fill.quantity := rfl

theorem OrderRecord.after_fill_state (r : OrderRecord) (fill : Fill) :
    (r.after_fill fill).state =
      if r.order.quantity ≤ r.filled_quantity + fill.quantity then .Filled
      else .PartiallyFilled := by
  by_cases hdone : r.order.quantity ≤ r.filled_quantity + fill.quantity <;>
    simp [OrderRecord.after_fill, OrderRecord.add_fill, OrderRecord.complete, hdone]

/-- A refusal aside, a submission is a new record. -/
theorem OrderManager.submit_accepted {m : OrderManager} {order : Order}
    (hnew : m.submitError order = none) :
    m.submit order = (.ok order.id, {
      records := m.records.insert order.id { order }
      next := max m.next (order.id + 1) }) := by
  simp only [OrderManager.submit, hnew]

theorem OrderManager.fresh_of_submitError {m : OrderManager} {order : Order}
    (hnew : m.submitError order = none) : m.records[order.id]? = none := by
  unfold OrderManager.submitError at hnew
  split at hnew
  · cases hnew
  · split at hnew
    · cases hnew
    · rename_i hknown
      exact TreeMap.getElem?_eq_none fun hmem => hknown (TreeMap.mem_iff_contains.mp hmem)

theorem OrderManager.transition_legal (target : OrderState) {m : OrderManager} {id : OrderId}
    {reason : String} {rec : OrderRecord} (hrec : m.records[id]? = some rec)
    (hlegal : is_legal_transition rec.state target = true) :
    m.transition id target reason = (.ok true, { m with
      records := m.records.insert id { rec with
        state := target
        reject_reason := if reason = "" then rec.reject_reason else reason } }) := by
  simp only [OrderManager.transition, hrec, hlegal, not_true_eq_false, if_false]

/-- A new order that the venue refuses ends rejected. -/
theorem OrderManager.rejected_lookup {m : OrderManager} {order : Order}
    (hnew : m.submitError order = none) (reason : String) (id : OrderId) :
    ((m.submit order).2.transition order.id .Rejected reason).2.records[id]? =
      if order.id = id then
        some { order, state := .Rejected, reject_reason := if reason = "" then "" else reason }
      else m.records[id]? := by
  rw [OrderManager.submit_accepted hnew,
    OrderManager.transition_legal .Rejected (Table.getElem?_insert_self _ _ _) rfl]
  simp only [Table.getElem?_insert_eq_ite]
  split <;> rfl

/-- A new order that the venue takes ends working. -/
theorem OrderManager.working_lookup {m : OrderManager} {order : Order}
    (hnew : m.submitError order = none) (id : OrderId) :
    (((m.submit order).2.transition order.id .PendingNew).2.transition order.id
        .Working).2.records[id]? =
      if order.id = id then some { order, state := .Working } else m.records[id]? := by
  rw [OrderManager.submit_accepted hnew,
    OrderManager.transition_legal .PendingNew (Table.getElem?_insert_self _ _ _) rfl,
    OrderManager.transition_legal .Working (Table.getElem?_insert_self _ _ _) rfl]
  simp only [Table.getElem?_insert_eq_ite]
  split <;> rfl

/-- Cancelling a live order writes its record and no other. -/
theorem OrderManager.cancel_lookup {m : OrderManager} {id : OrderId} {rec : OrderRecord}
    (hrec : m.records[id]? = some rec) (hlive : is_terminal rec.state = false) (other : OrderId) :
    (m.transition id .Cancelled "strategy cancel").2.records[other]? =
      if id = other then some { rec with state := .Cancelled, reject_reason := "strategy cancel" }
      else m.records[other]? := by
  rw [OrderManager.transition_legal .Cancelled hrec (is_legal_cancel hlive)]
  exact Table.getElem?_insert_eq_ite _ _ _ _

/-- What a fill must be for its order, read off the checks of `apply_fill`. -/
structure OrderRecord.Accepts (r : OrderRecord) (fill : Fill) : Prop where
  live : is_terminal r.state = false
  acknowledged : r.state ≠ .New
  instrument_matches : fill.instrument = r.order.instrument
  side_matches : fill.side = r.order.side
  within_quantity : r.filled_quantity + fill.quantity ≤ r.order.quantity + 1e-9
  after_decision : r.order.decision_time < fill.fill_time

theorem OrderRecord.fillError_none_iff (r : OrderRecord) (fill : Fill) :
    r.fillError fill = none ↔
      is_terminal r.state = false ∧ fill.instrument = r.order.instrument ∧
        fill.side = r.order.side ∧ r.filled_quantity + fill.quantity ≤ r.order.quantity + 1e-9 ∧
        r.order.decision_time < fill.fill_time := by
  unfold OrderRecord.fillError
  by_cases hlive : is_terminal r.state = true
  · simp [hlive]
  · simp only [Bool.not_eq_true] at hlive
    simp only [hlive, Bool.false_eq_true, if_false]
    constructor
    · intro hnone
      split at hnone
      · cases hnone
      · rename_i hmatch
        split at hnone
        · cases hnone
        · rename_i hover
          split at hnone
          · cases hnone
          · rename_i htime
            simp only [ne_eq, not_or, not_not] at hmatch
            exact ⟨trivial, hmatch.1, hmatch.2, not_lt.mp hover, not_le.mp htime⟩
    · rintro ⟨-, hinstrument, hside, hwithin, htime⟩
      simp [hinstrument, hside, not_lt.mpr hwithin, not_le.mpr htime]

theorem OrderRecord.accepts_iff (r : OrderRecord) (fill : Fill) :
    r.Accepts fill ↔ r.fillError fill = none ∧ r.state ≠ .New := by
  rw [OrderRecord.fillError_none_iff]
  constructor
  · intro h
    exact ⟨⟨h.live, h.instrument_matches, h.side_matches, h.within_quantity, h.after_decision⟩,
      h.acknowledged⟩
  · rintro ⟨⟨hlive, hinstrument, hside, hwithin, htime⟩, hsent⟩
    exact ⟨hlive, hsent, hinstrument, hside, hwithin, htime⟩

/-- An accepted fill is booked on its record and on no other. -/
theorem OrderManager.apply_fill_accepted {m : OrderManager} {fill : Fill} {rec : OrderRecord}
    (hrec : m.records[fill.order_id]? = some rec) (haccepts : rec.Accepts fill) :
    m.apply_fill fill =
      (.ok true, { m with records := m.records.insert fill.order_id (rec.after_fill fill) }) := by
  obtain ⟨hchecks, hsent⟩ := (rec.accepts_iff fill).mp haccepts
  have hstate : (rec.add_fill fill).state = rec.state := rfl
  unfold OrderManager.apply_fill
  simp only [hrec, hchecks]
  by_cases hmoves : (rec.add_fill fill).state =
      (if (rec.add_fill fill).complete then .Filled else .PartiallyFilled)
  · have hsame : rec.after_fill fill = rec.add_fill fill := by
      unfold OrderRecord.after_fill
      rw [← hmoves]
    simp only [hmoves.symm, ne_eq, not_true_eq_false, if_false, hsame]
  · have hlegal := is_legal_fill (hstate ▸ haccepts.live) (hstate ▸ hsent) hmoves
    simp only [ne_eq, hmoves, not_false_eq_true, if_true, hlegal, not_true_eq_false, if_false]
    rfl

/-- A fill of an order that was never acknowledged is refused after its
amounts were written. -/
theorem OrderManager.apply_fill_new {m : OrderManager} {fill : Fill} {rec : OrderRecord}
    (hrec : m.records[fill.order_id]? = some rec) (hchecks : rec.fillError fill = none)
    (hnew : rec.state = .New) :
    (∃ e, (m.apply_fill fill).1 = .error e) ∧
      (m.apply_fill fill).2.records[fill.order_id]? = some (rec.add_fill fill) := by
  have hstate : (rec.add_fill fill).state = .New := hnew
  have hillegal := not_is_legal_fill_new (rec.add_fill fill).complete
  have hmoves : OrderState.New ≠ if (rec.add_fill fill).complete then .Filled else .PartiallyFilled := by
    split <;> simp
  unfold OrderManager.apply_fill
  simp only [hrec, hchecks, hstate, ne_eq, hmoves, not_false_eq_true, if_true, hillegal,
    Bool.false_eq_true]
  exact ⟨⟨_, rfl⟩, Table.getElem?_insert_self _ _ _⟩

/-- Success of `apply_fill` is acceptance by the record. -/
theorem OrderManager.apply_fill_ok {m : OrderManager} {fill : Fill} {done : Bool}
    (hok : (m.apply_fill fill).1 = .ok done) :
    ∃ rec, m.records[fill.order_id]? = some rec ∧ rec.Accepts fill := by
  cases hrec : m.records[fill.order_id]? with
  | none => simp [OrderManager.apply_fill, hrec] at hok
  | some rec =>
    refine ⟨rec, rfl, ?_⟩
    cases hchecks : rec.fillError fill with
    | some e => simp [OrderManager.apply_fill, hrec, hchecks] at hok
    | none =>
      rw [OrderRecord.accepts_iff]
      refine ⟨hchecks, fun hnew => ?_⟩
      obtain ⟨⟨e, herror⟩, -⟩ := OrderManager.apply_fill_new hrec hchecks hnew
      rw [herror] at hok
      cases hok

end ptl.oms
