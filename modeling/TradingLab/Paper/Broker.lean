import TradingLab.Engine.Moves
import TradingLab.Execution.Broker.External
import TradingLab.Execution.Broker.Failure
import TradingLab.Paper.Session
import TradingLab.TableSum

/-! The simulator behind the face of a brokerage: acknowledgements, refusals of its own, and the
orders it says are working. -/

open Std ptl.portfolio ptl.oms ptl.execution

namespace ptl.paper

/-- `std::fixed` with two decimals, ties to even. -/
def fixed2 (x : Rat) : String :=
  let scaled : Rat := |x| * 100
  let below : Nat := scaled.floor.toNat
  let rest := scaled - (below : Rat)
  let digits : Nat := if rest < 1 / 2 ∨ (rest = 1 / 2 ∧ below % 2 = 0) then below else below + 1
  (if x < 0 then "-" else "") ++ toString (digits / 100) ++ "." ++ padded 2 (digits % 100)

/-- Whether the account takes an order of this notional. -/
def PaperAccount.can_accept (a : PaperAccount) (pf : Portfolio) (order_notional : Notional) (side : Side)
    (reduces_risk : Bool) : Result Bool :=
  let current := a.status pf
  let notional := |order_notional|
  if current = .Suspended then .error (bad "account is suspended")
  else if current = .Liquidation then .error (bad "account equity is exhausted; no orders may be sent")
  else if current = .MarginCall ∧ ¬ reduces_risk then
    .error (bad "account is under a margin call; only risk-reducing orders are accepted")
  else if side = .Sell ∧ ¬ a.config.allow_short ∧ ¬ reduces_risk then
    .error (bad "shorting is not permitted on this account")
  else if ¬ is_finite notional then .error (bad "order notional is not finite")
  else if ¬ reduces_risk ∧ notional > a.available_buying_power pf then
    .error (bad ("order notional " ++ fixed2 notional ++ " exceeds available buying power " ++
      fixed2 (a.available_buying_power pf)))
  else .ok true

inductive AckStatus where
  | Accepted
  | Rejected
  | Pending
  deriving DecidableEq, Repr

structure OrderAck where
  order_id : OrderId := kNoOrder
  status : AckStatus := .Pending
  acknowledged_at : Timestamp := kNoTimestamp
  reject_reason : String := ""
  deriving DecidableEq, Repr

def OrderAck.accepted (ack : OrderAck) : Bool := ack.status = .Accepted

/-- Why the venue refused, apart from any risk gate of ours. -/
inductive RejectReason where
  | None
  | NotConnected
  | ExceedsVenueLimit
  | InsufficientBuyingPower
  | MarginCall
  | ShortNotPermitted
  | AccountSuspended
  | SimulatorRejected
  deriving DecidableEq, Repr

def RejectReason.to_string : RejectReason → String
  | .None => "none"
  | .NotConnected => "not_connected"
  | .ExceedsVenueLimit => "exceeds_venue_limit"
  | .InsufficientBuyingPower => "insufficient_buying_power"
  | .MarginCall => "margin_call"
  | .ShortNotPermitted => "short_not_permitted"
  | .AccountSuspended => "account_suspended"
  | .SimulatorRejected => "simulator_rejected"

/-- The underlying value of the enumeration. -/
def RejectReason.value_of : RejectReason → UInt8
  | .None => 0
  | .NotConnected => 1
  | .ExceedsVenueLimit => 2
  | .InsufficientBuyingPower => 3
  | .MarginCall => 4
  | .ShortNotPermitted => 5
  | .AccountSuspended => 6
  | .SimulatorRejected => 7

structure PaperBrokerConfig where
  ack_latency : Duration := 5000000
  max_order_notional : Notional := 10000000
  reject_every_n : Nat := 0
  enforce_buying_power : Bool := true
  deriving DecidableEq, Repr

structure BrokerStats where
  submitted : Nat := 0
  accepted : Nat := 0
  rejected : Nat := 0
  cancelled : Nat := 0
  fills_routed : Nat := 0
  rejections_by_reason : TreeMap UInt8 Nat := ∅

def BrokerStats.reject (s : BrokerStats) (reason : RejectReason) : BrokerStats :=
  { s with
    rejected := s.rejected + 1
    rejections_by_reason := s.rejections_by_reason.insert reason.value_of
      ((s.rejections_by_reason[reason.value_of]?).getD 0 + 1) }

/-- The broker with the simulator it borrows. The clock, the account and its
    portfolio are read at each call. -/
structure PaperBroker (R : Type) where
  simulator : BrokerSimulator R
  config : PaperBrokerConfig := {}
  connected : Bool := false
  stats : BrokerStats := {}
  pending : List Fill := []
  working : TreeMap OrderId Bool := ∅

variable {R : Type}

def PaperBroker.connect (b : PaperBroker R) : Result Bool × PaperBroker R :=
  (.ok true, { b with connected := true })

def PaperBroker.disconnect (b : PaperBroker R) : PaperBroker R := { b with connected := false }

def PaperBroker.screen (b : PaperBroker R) (account : PaperAccount) (pf : Portfolio) (order : Order) :
    RejectReason :=
  let notional := order.quantity * order.limit_price.getD order.arrival_price
  if ¬ b.connected then .NotConnected
  else if b.config.max_order_notional > 0 ∧ is_finite notional ∧ notional > b.config.max_order_notional then
    .ExceedsVenueLimit
  else if b.config.enforce_buying_power then
    -- Every order counts as one that adds risk.
    match account.can_accept pf notional order.side false with
    | .ok _ => .None
    | .error _ =>
      match account.status pf with
      | .Suspended => .AccountSuspended
      | .MarginCall | .Liquidation => .MarginCall
      | .Active => .InsufficientBuyingPower
  else .None

def PaperBroker.submit (b : PaperBroker R) (now : Timestamp) (account : PaperAccount) (pf : Portfolio)
    (order : Order) : Result OrderAck × PaperBroker R :=
  let b := { b with stats := { b.stats with submitted := b.stats.submitted + 1 } }
  let ack : OrderAck := { order_id := order.id, acknowledged_at := now + b.config.ack_latency }
  let refused (reason : RejectReason) : OrderAck :=
    { ack with status := .Rejected, reject_reason := reason.to_string }
  let reason := b.screen account pf order
  if reason ≠ .None then
    let b := { b with stats := b.stats.reject reason }
    if reason = .NotConnected then
      (.error (make_error .IoError "cannot submit while disconnected"), b)
    else (.ok (refused reason), b)
  else if b.config.reject_every_n > 0 ∧ b.stats.submitted % b.config.reject_every_n = 0 then
    (.ok (refused .SimulatorRejected), { b with stats := b.stats.reject .SimulatorRejected })
  else
    match b.simulator.submit now order with
    | (.error e, simulator) =>
      (.ok { refused .SimulatorRejected with reject_reason := e.message },
        { b with simulator, stats := b.stats.reject .SimulatorRejected })
    | (.ok _, simulator) =>
      (.ok { ack with status := .Accepted },
        { b with
          simulator
          stats := { b.stats with accepted := b.stats.accepted + 1 }
          working := b.working.insert order.id true })

def PaperBroker.cancel (b : PaperBroker R) (id : OrderId) : Result Bool × PaperBroker R :=
  if ¬ b.connected then (.error (make_error .IoError "cannot cancel while disconnected"), b)
  else
    match b.simulator.cancel id with
    | (.error e, simulator) => (.error e, { b with simulator })
    | (.ok _, simulator) =>
      (.ok true, { b with
        simulator
        stats := { b.stats with cancelled := b.stats.cancelled + 1 }
        working := b.working.erase id })

/-- Any fill of an order ends it here. -/
def PaperBroker.route (b : PaperBroker R) (fills : List Fill) : PaperBroker R :=
  fills.foldl
    (fun b fill => { b with working := b.working.erase fill.order_id, pending := b.pending ++ [fill] }) b

def PaperBroker.poll_fills (b : PaperBroker R) : List Fill × PaperBroker R :=
  (b.pending, { b with
    pending := []
    stats := { b.stats with fills_routed := b.stats.fills_routed + b.pending.length } })

def PaperBroker.working_orders (b : PaperBroker R) : List OrderId :=
  (b.working.toList.filter fun entry => entry.2).map fun entry => entry.1

/-! ### The working set -/

section Working

variable (b : PaperBroker R)

theorem PaperBroker.mem_working_orders {id : OrderId} :
    id ∈ b.working_orders ↔ b.working[id]? = some true := by
  unfold PaperBroker.working_orders
  simp only [List.mem_map, List.mem_filter]
  constructor
  · rintro ⟨⟨key, live⟩, ⟨hmem, hlive⟩, rfl⟩
    have hlookup := TreeMap.mem_toList_iff_getElem?_eq_some.mp hmem
    rwa [show live = true from hlive] at hlookup
  · intro hlookup
    exact ⟨(id, true), ⟨TreeMap.mem_toList_iff_getElem?_eq_some.mpr hlookup, rfl⟩, rfl⟩

theorem PaperBroker.route_simulator (fills : List Fill) : (b.route fills).simulator = b.simulator := by
  induction fills generalizing b with
  | nil => rfl
  | cons fill fills ih => exact ih _

/-- Routing takes the orders of its fills out of the working set. -/
theorem PaperBroker.mem_route (fills : List Fill) {id : OrderId} :
    id ∈ (b.route fills).working_orders ↔ id ∈ b.working_orders ∧ id ∉ fills.map Fill.order_id := by
  induction fills generalizing b with
  | nil => simp [PaperBroker.route]
  | cons fill fills ih =>
    have hrest := ih { b with working := b.working.erase fill.order_id, pending := b.pending ++ [fill] }
    refine hrest.trans ?_
    rw [PaperBroker.mem_working_orders, PaperBroker.mem_working_orders, TreeMap.getElem?_erase, List.map_cons,
      List.mem_cons, not_or]
    by_cases hid : fill.order_id = id
    · simp [hid]
    · simp [hid, Ne.symm hid]

variable (now : Timestamp) (account : PaperAccount) (pf : Portfolio) (order : Order)

/-- An order is accepted with the simulator holding it, or neither set changes. -/
theorem PaperBroker.submit_cases :
    ((∃ ack, (b.submit now account pf order).1 = .ok ack ∧ ack.accepted = true) ∧
      (b.submit now account pf order).2.working = b.working.insert order.id true ∧
      idsOf (b.submit now account pf order).2.simulator.pending = idsOf b.simulator.pending ++ [order.id]) ∨
    ((¬ ∃ ack, (b.submit now account pf order).1 = .ok ack ∧ ack.accepted = true) ∧
      (b.submit now account pf order).2.working = b.working ∧
      (b.submit now account pf order).2.simulator.pending = b.simulator.pending) := by
  unfold PaperBroker.submit
  dsimp only
  split
  · split
    · exact .inr ⟨fun ⟨ack, hack, _⟩ => (by cases hack), rfl, rfl⟩
    · exact .inr ⟨fun ⟨ack, hack, haccepted⟩ => (by cases hack; cases haccepted), rfl, rfl⟩
  · split
    · exact .inr ⟨fun ⟨ack, hack, haccepted⟩ => (by cases hack; cases haccepted), rfl, rfl⟩
    · cases hsubmit : b.simulator.submit now order with
      | mk result simulator =>
        cases result with
        | error e =>
          have hpending := BrokerSimulator.submit_error (congrArg Prod.fst hsubmit)
          rw [hsubmit] at hpending
          exact .inr ⟨fun ⟨ack, hack, haccepted⟩ => (by cases hack; cases haccepted), rfl, hpending⟩
        | ok arrival =>
          obtain ⟨stamped, hstamped, -, hpending⟩ := BrokerSimulator.submit_ok (congrArg Prod.fst hsubmit)
          rw [hsubmit] at hpending
          refine .inl ⟨⟨_, rfl, rfl⟩, rfl, ?_⟩
          simp only at hpending ⊢
          rw [hpending, idsOf, List.map_append, List.map_singleton, (Order.with_arrival_ok hstamped).1]
          rfl

/-- A cancel reaches the simulator and takes the id out of both sets, or changes
neither. -/
theorem PaperBroker.cancel_cases (id : OrderId) :
    (b.connected = true ∧ id ∈ idsOf b.simulator.pending ∧ (b.cancel id).2.working = b.working.erase id ∧
      idsOf (b.cancel id).2.simulator.pending = (idsOf b.simulator.pending).erase id) ∨
    (¬ (b.connected = true ∧ id ∈ idsOf b.simulator.pending) ∧ (b.cancel id).2.working = b.working ∧
      (b.cancel id).2.simulator.pending = b.simulator.pending) := by
  have hpresent : (b.simulator.pending.any fun p => p.order.id = id) = true ↔ id ∈ idsOf b.simulator.pending := by
    simp [idsOf]
  by_cases hconnected : b.connected = true
  · have hreached : ¬ ¬ b.connected = true := not_not.mpr hconnected
    by_cases hpending : id ∈ idsOf b.simulator.pending
    · refine .inl ⟨hconnected, hpending, ?_, ?_⟩
      · rw [PaperBroker.cancel, if_neg hreached, BrokerSimulator.cancel, if_pos (hpresent.mpr hpending)]
      · rw [PaperBroker.cancel, if_neg hreached, BrokerSimulator.cancel, if_pos (hpresent.mpr hpending)]
        exact idsOf_eraseP _ _
    · refine .inr ⟨fun hboth => hpending hboth.2, ?_⟩
      rw [PaperBroker.cancel, if_neg hreached, BrokerSimulator.cancel, if_neg (mt hpresent.mp hpending)]
      exact ⟨rfl, rfl⟩
  · refine .inr ⟨fun hboth => hconnected hboth.1, ?_⟩
    rw [PaperBroker.cancel, if_pos hconnected]
    exact ⟨rfl, rfl⟩

end Working

/-! ### What a call of the simulator reports and what it leaves -/

section Call

variable (b : BrokerSimulator R) (instrument : InstrumentId) (state : MarketState) (now : Timestamp) (id : OrderId)

/-- A fill of the order is reported. A call that fails reports none. -/
def Reported : Prop :=
  b.abandoned instrument state now = [] ∧
    ∃ v ∈ b.completed instrument state now, v.found.order.id = id ∧ v.executes = true

/-- Something of the order is left pending. -/
def Left : Prop :=
  (∃ v ∈ b.completed instrument state now, v.found.order.id = id ∧ v.leaves ≠ []) ∨
    ∃ v ∈ b.abandoned instrument state now, v.found.order.id = id

variable {instrument state now}

theorem completed_of_ok {fills : List Fill} (hok : (b.on_market instrument state now).1 = .ok fills) :
    b.abandoned instrument state now = [] ∧ b.completed instrument state now = b.visits instrument state now := by
  have habandoned : b.abandoned instrument state now = [] := by
    by_contra hne
    obtain ⟨e, he⟩ := (b.on_market_error_iff instrument state now).mpr hne
    rw [hok] at he
    cases he
  refine ⟨habandoned, ?_⟩
  have hsplit := List.takeWhile_append_dropWhile
    (p := fun v => v.fillable b.costs state now) (l := b.visits instrument state now)
  have hrest : (b.visits instrument state now).dropWhile (fun v => v.fillable b.costs state now) = [] := habandoned
  rw [hrest, List.append_nil] at hsplit
  exact hsplit

theorem reported_iff {fills : List Fill} (hok : (b.on_market instrument state now).1 = .ok fills) :
    id ∈ fills.map Fill.order_id ↔ Reported b instrument state now id := by
  obtain ⟨habandoned, hcompleted⟩ := completed_of_ok b hok
  have hids := (BrokerSimulator.on_market_matched hok).order_ids
  rw [hids, Reported, hcompleted, eq_true habandoned, true_and, List.mem_map]
  simp only [List.mem_filter]
  exact ⟨fun ⟨v, ⟨hv, hexecutes⟩, hid⟩ => ⟨v, hv, hid, hexecutes⟩,
    fun ⟨v, hv, hid, hexecutes⟩ => ⟨v, ⟨hv, hexecutes⟩, hid⟩⟩

variable (instrument state now) in
theorem left_iff : id ∈ idsOf (b.on_market instrument state now).2.pending ↔ Left b instrument state now id := by
  rw [b.on_market_pending, idsOf, List.map_append, List.mem_append]
  refine or_congr ?_ ?_
  · simp only [List.mem_map, List.mem_flatMap]
    constructor
    · rintro ⟨p, ⟨v, hv, hleft⟩, rfl⟩
      have horder := Visit.leaves_order (visits_decided (List.takeWhile_subset _ hv)) hleft
      exact ⟨v, hv, (congrArg Order.id horder).symm, List.ne_nil_of_mem hleft⟩
    · rintro ⟨v, hv, rfl, hleaves⟩
      obtain ⟨p, hleft⟩ := List.exists_mem_of_ne_nil _ hleaves
      have horder := Visit.leaves_order (visits_decided (List.takeWhile_subset _ hv)) hleft
      exact ⟨p, ⟨v, hv, hleft⟩, congrArg Order.id horder⟩
  · cases habandoned : b.abandoned instrument state now with
    | nil => simp [standing]
    | cons v vs =>
      have hv : v ∈ b.visits instrument state now :=
        List.dropWhile_subset _ (habandoned ▸ List.mem_cons_self)
      simp [standing, Visit.stands_order (visits_decided hv), eq_comm]

theorem Left.pending {id : OrderId} (hleft : Left b instrument state now id) : id ∈ idsOf b.pending := by
  rw [b.pending_found instrument state now, idsOf, List.map_append, List.mem_append, List.map_map, List.map_map]
  refine hleft.imp ?_ ?_
  · rintro ⟨v, hv, hid, -⟩
    exact List.mem_map.mpr ⟨v, hv, hid⟩
  · rintro ⟨v, hv, hid⟩
    exact List.mem_map.mpr ⟨v, hv, hid⟩

end Call

/-! ### Runs -/

/-- The broker and the ids of the orders it accepted. -/
structure PaperVenue (R : Type) where
  broker : PaperBroker R
  accepted : List OrderId := []

inductive PaperCall where
  | connect
  | disconnect
  | submit (now : Timestamp) (account : PaperAccount) (pf : Portfolio) (order : Order)
  | cancel (id : OrderId)
  | on_market (instrument : InstrumentId) (state : MarketState) (now : Timestamp)
  | poll_fills

def PaperVenue.opened (simulator : BrokerSimulator R) (config : PaperBrokerConfig) : PaperVenue R :=
  { broker := { simulator, config } }

/-- One call. The fills of the simulator are routed at once; a call that fails
has none to route. -/
def PaperVenue.step (s : PaperVenue R) : PaperCall → PaperVenue R
  | .connect => { s with broker := s.broker.connect.2 }
  | .disconnect => { s with broker := s.broker.disconnect }
  | .submit now account pf order =>
    let (result, broker) := s.broker.submit now account pf order
    match result with
    | .ok ack => { broker, accepted := if ack.accepted then order.id :: s.accepted else s.accepted }
    | .error _ => { s with broker }
  | .cancel id => { s with broker := (s.broker.cancel id).2 }
  | .on_market instrument state now =>
    match s.broker.simulator.on_market instrument state now with
    | (.ok fills, simulator) => { s with broker := { s.broker with simulator }.route fills }
    | (.error _, simulator) => { s with broker := { s.broker with simulator } }
  | .poll_fills => { s with broker := s.broker.poll_fills.2 }

def PaperVenue.after (s : PaperVenue R) (calls : List PaperCall) : PaperVenue R :=
  calls.foldl PaperVenue.step s

/-- The working orders are those the broker accepted that the simulator still
holds. -/
def PaperVenue.Exact (s : PaperVenue R) : Prop :=
  ∀ id, id ∈ s.broker.working_orders ↔ id ∈ s.accepted ∧ id ∈ idsOf s.broker.simulator.pending

/-- A cancel takes the only pending order of its id. The market reports a fill of
an accepted order exactly when it leaves nothing of it. -/
def PaperVenue.Settles (s : PaperVenue R) : PaperCall → Prop
  | .cancel id => s.broker.connected = true → id ∈ s.accepted → (idsOf s.broker.simulator.pending).count id ≤ 1
  | .on_market instrument state now =>
    ∀ id ∈ s.accepted, id ∈ idsOf s.broker.simulator.pending →
      (Reported s.broker.simulator instrument state now id ↔ ¬ Left s.broker.simulator instrument state now id)
  | _ => True

section Steps

variable {s : PaperVenue R}

theorem submit_exact (hexact : s.Exact) (now : Timestamp) (account : PaperAccount) (pf : Portfolio)
    (order : Order) : (s.step (.submit now account pf order)).Exact := by
  intro id
  have hbefore := hexact id
  simp only [PaperVenue.step]
  obtain ⟨⟨ack, hok, haccepted⟩, hworking, hpending⟩ | ⟨hrefused, hworking, hpending⟩ :=
    s.broker.submit_cases now account pf order
  · simp only [hok, haccepted, if_true]
    rw [PaperBroker.mem_working_orders, hworking, hpending, TreeMap.getElem?_insert]
    rw [PaperBroker.mem_working_orders] at hbefore
    by_cases hid : order.id = id
    · simp [hid]
    · simp [hid, Ne.symm hid, hbefore]
  · rw [PaperBroker.mem_working_orders] at hbefore
    cases hresult : (s.broker.submit now account pf order).1 with
    | error e =>
      simp only
      rw [PaperBroker.mem_working_orders, hworking, hpending]
      exact hbefore
    | ok ack =>
      have hnot : ¬ ack.accepted = true := fun haccepted => hrefused ⟨ack, hresult, haccepted⟩
      simp only [if_neg hnot]
      rw [PaperBroker.mem_working_orders, hworking, hpending]
      exact hbefore

/-- The id itself leaves the working set, so it may not be pending a second time. -/
theorem cancel_exact_iff (hexact : s.Exact) (id : OrderId) :
    (s.step (.cancel id)).Exact ↔ s.Settles (.cancel id) := by
  simp only [PaperVenue.Exact, PaperVenue.step, PaperVenue.Settles, PaperBroker.mem_working_orders]
  simp only [PaperVenue.Exact, PaperBroker.mem_working_orders] at hexact
  obtain ⟨hconnected, hpending, hworking, hids⟩ | ⟨hneither, hworking, hids⟩ := s.broker.cancel_cases id
  · have hagain : id ∈ (idsOf s.broker.simulator.pending).erase id ↔
        ¬ (idsOf s.broker.simulator.pending).count id ≤ 1 := by
      rw [← List.count_pos_iff, List.count_erase_self]
      omega
    rw [hworking, hids]
    simp only [TreeMap.getElem?_erase, hconnected, true_imp_iff]
    constructor
    · intro hafter haccepted
      have hself := hafter id
      rw [if_pos ReflCmp.compare_self, hagain] at hself
      by_contra htwice
      cases hself.mpr ⟨haccepted, htwice⟩
    · intro honce id'
      by_cases hid : id' = id
      · rw [hid, if_pos ReflCmp.compare_self, hagain]
        exact iff_of_false nofun fun hboth => hboth.2 (honce hboth.1)
      · have hne : compare id id' ≠ .eq := fun heq => hid (LawfulEqCmp.eq_of_compare heq).symm
        rw [if_neg hne, List.mem_erase_of_ne hid]
        exact hexact id'
  · rw [hworking, hids]
    refine iff_of_true hexact fun hconnected haccepted => ?_
    have habsent : id ∉ idsOf s.broker.simulator.pending := fun hpending => hneither ⟨hconnected, hpending⟩
    rw [List.count_eq_zero_of_not_mem habsent]
    exact Nat.zero_le 1

/-- The working set loses what is reported, and the simulator keeps what is left. -/
theorem on_market_step (instrument : InstrumentId) (state : MarketState) (now : Timestamp) (id : OrderId) :
    (id ∈ (s.step (.on_market instrument state now)).broker.working_orders ↔
        id ∈ s.broker.working_orders ∧ ¬ Reported s.broker.simulator instrument state now id) ∧
      (id ∈ idsOf (s.step (.on_market instrument state now)).broker.simulator.pending ↔
        Left s.broker.simulator instrument state now id) ∧
      (s.step (.on_market instrument state now)).accepted = s.accepted := by
  have hleft := left_iff s.broker.simulator instrument state now id
  simp only [PaperVenue.step]
  cases hcall : s.broker.simulator.on_market instrument state now with
  | mk result simulator =>
    rw [hcall] at hleft
    cases result with
    | error e =>
      have hfails := (s.broker.simulator.on_market_error_iff instrument state now).mp ⟨e, congrArg Prod.fst hcall⟩
      exact ⟨(and_iff_left fun hreported => hfails hreported.1).symm, hleft, rfl⟩
    | ok fills =>
      have hreported := reported_iff s.broker.simulator id (congrArg Prod.fst hcall)
      simp only
      rw [PaperBroker.mem_route, PaperBroker.route_simulator, hreported]
      exact ⟨Iff.rfl, hleft, trivial⟩

theorem on_market_exact_iff (hexact : s.Exact) (instrument : InstrumentId) (state : MarketState)
    (now : Timestamp) :
    (s.step (.on_market instrument state now)).Exact ↔ s.Settles (.on_market instrument state now) := by
  refine forall_congr' fun id => ?_
  obtain ⟨hworking, hpending, haccepted⟩ := on_market_step (s := s) instrument state now id
  rw [hworking, hpending, haccepted, hexact id]
  constructor
  · intro hafter hmine hheld
    rw [← hafter.trans (and_iff_right hmine), not_and_not_right]
    exact ⟨fun hreported _ => hreported, fun h => h ⟨hmine, hheld⟩⟩
  · intro hsettles
    constructor
    · rintro ⟨⟨hmine, hheld⟩, hunreported⟩
      exact ⟨hmine, not_not.mp fun hgone => hunreported ((hsettles hmine hheld).mpr hgone)⟩
    · rintro ⟨hmine, hleft⟩
      have hheld := hleft.pending
      exact ⟨⟨hmine, hheld⟩, fun hreported => (hsettles hmine hheld).mp hreported hleft⟩

/-- One call keeps the sets equal exactly when it settles what it ends. -/
theorem step_exact_iff (hexact : s.Exact) (call : PaperCall) : (s.step call).Exact ↔ s.Settles call := by
  cases call with
  | connect => exact iff_of_true hexact trivial
  | disconnect => exact iff_of_true hexact trivial
  | poll_fills => exact iff_of_true hexact trivial
  | submit now account pf order => exact iff_of_true (submit_exact hexact now account pf order) trivial
  | cancel id => exact cancel_exact_iff hexact id
  | on_market instrument state now => exact on_market_exact_iff hexact instrument state now

end Steps

theorem opened_exact (simulator : BrokerSimulator R) (config : PaperBrokerConfig) :
    (PaperVenue.opened simulator config).Exact := by
  intro id
  rw [PaperBroker.mem_working_orders]
  refine iff_of_false (fun hworking => ?_) fun hboth => absurd hboth.1 List.not_mem_nil
  have hempty : (∅ : TreeMap OrderId Bool)[id]? = none := TreeMap.getElem?_emptyc
  rw [show (PaperVenue.opened simulator config).broker.working[id]? = none from hempty] at hworking
  cases hworking

/-- Whatever is called, the working orders are the accepted orders still pending
after every call exactly when every call settles what it ends. -/
theorem working_exact_iff (simulator : BrokerSimulator R) (config : PaperBrokerConfig) (calls : List PaperCall) :
    (∀ before, before <+: calls → ((PaperVenue.opened simulator config).after before).Exact) ↔
      ∀ before call, before ++ [call] <+: calls →
        ((PaperVenue.opened simulator config).after before).Settles call := by
  have hsnoc : ∀ before call, (PaperVenue.opened simulator config).after (before ++ [call]) =
      ((PaperVenue.opened simulator config).after before).step call := fun before call => List.foldl_concat ..
  constructor
  · intro hexact before call hpre
    have hsource := hexact before ((List.prefix_append before [call]).trans hpre)
    exact (step_exact_iff hsource call).mp (hsnoc before call ▸ hexact _ hpre)
  · intro hsettles before hpre
    induction before using List.reverseRecOn with
    | nil => exact opened_exact simulator config
    | append_singleton before call ih =>
      rw [hsnoc]
      have hsource := ih ((List.prefix_append before [call]).trans hpre)
      exact (step_exact_iff hsource call).mpr (hsettles before call hpre)

/-- A day order for ten meets a quote that shows four, and the rest of it rests. -/
def restingCalls : List PaperCall :=
  [.connect, .submit 0 {} (Portfolio.new {}) dayBuy,
    .on_market 0 { bid := 100, ask := 100, bid_size := 4, ask_size := 4, interval_volume := 1000, has_quote := true }
      2000000]

def quietVenue : PaperVenue Unit :=
  .opened
    { costs := flatCosts, latency := flatLatency, latency_rng := (), slippage_rng := (), fill_cfg := {} }
    { enforce_buying_power := false }

/-- The broker forgets an order that the simulator still holds for six. -/
theorem working_forgets_remainder :
    1 ∉ (quietVenue.after restingCalls).broker.working_orders ∧ 1 ∈ (quietVenue.after restingCalls).accepted ∧
      1 ∈ idsOf (quietVenue.after restingCalls).broker.simulator.pending ∧
      ¬ ∀ (simulator : BrokerSimulator Unit) (config : PaperBrokerConfig) (calls : List PaperCall),
        ∀ before, before <+: calls → ((PaperVenue.opened simulator config).after before).Exact := by
  have hlookup : (quietVenue.after restingCalls).broker.working[(1 : OrderId)]? = none := by decide +kernel
  have haccepted : 1 ∈ (quietVenue.after restingCalls).accepted := by decide +kernel
  have hpending : 1 ∈ idsOf (quietVenue.after restingCalls).broker.simulator.pending := by decide +kernel
  have hforgotten : 1 ∉ (quietVenue.after restingCalls).broker.working_orders := by
    rw [PaperBroker.mem_working_orders, hlookup]
    exact nofun
  refine ⟨hforgotten, haccepted, hpending, fun hexact => ?_⟩
  have hone := hexact quietVenue.broker.simulator quietVenue.broker.config _ restingCalls (List.prefix_refl _) 1
  exact hforgotten (hone.mpr ⟨haccepted, hpending⟩)

end ptl.paper
