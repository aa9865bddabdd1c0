import Mathlib.Tactic.Linarith
import TradingLab.Core.Time

namespace ptl.oms

abbrev OrderId := UInt64
def kNoOrder : OrderId := 0

inductive OrderType where
  | Market
  | Limit
  | Stop
  | StopLimit
  deriving DecidableEq, Repr

inductive TimeInForce where
  | Day
  | ImmediateOrCancel
  | FillOrKill
  | GoodTillCancel
  deriving DecidableEq, Repr

def OrderType.to_string : OrderType → String
  | .Market => "market"
  | .Limit => "limit"
  | .Stop => "stop"
  | .StopLimit => "stop_limit"

def OrderType.needs_limit (t : OrderType) : Bool := t = .Limit ∨ t = .StopLimit

def OrderType.needs_stop (t : OrderType) : Bool := t = .Stop ∨ t = .StopLimit

def sane_price (p : Price) : Bool := is_finite p && decide (0 < p)

/-- A price that an order type asks for is present and positive, and one it
    does not ask for is absent. -/
def PriceEngaged (needed : Bool) (price : Option Price) : Prop :=
  if needed then ∃ p, price = some p ∧ 0 < p else price = none

/-- An immutable order. The constructor is private in the source and every
    order passes `make`, so what `make` checks is carried by the order. -/
structure Order where
  id : OrderId
  parent_id : OrderId
  instrument : InstrumentId
  side : Side
  quantity : Qty
  type : OrderType
  time_in_force : TimeInForce
  limit_price : Option Price
  stop_price : Option Price
  times : LifecycleTimes
  arrival_price : Price
  id_valid : id ≠ kNoOrder
  instrument_valid : instrument ≠ kInvalidInstrument
  quantity_pos : 0 < quantity
  decided : is_set times.decision_time = true
  chain_valid : validate_chain times = none
  limit_engaged : PriceEngaged type.needs_limit limit_price
  stop_engaged : PriceEngaged type.needs_stop stop_price

/-- The price must be there when the type needs it, and must not be otherwise. -/
def checkPrice (type : OrderType) (needed : Bool) (what : String) (price : Option Price) :
    Option Error :=
  match needed, price with
  | true, some p =>
    if sane_price p then none
    else some (bad (type.to_string ++ " order needs a positive " ++ what ++ " price"))
  | true, none => some (bad (type.to_string ++ " order needs a positive " ++ what ++ " price"))
  | false, some _ => some (bad (type.to_string ++ " order must not carry a " ++ what ++ " price"))
  | false, none => none

theorem checkPrice_none {type : OrderType} {needed : Bool} {what : String} {price : Option Price}
    (hcheck : checkPrice type needed what price = none) : PriceEngaged needed price := by
  cases needed <;> cases price <;> simp_all [checkPrice, PriceEngaged, sane_price]

def Order.make (id : OrderId) (instrument : InstrumentId) (side : Side) (quantity : Qty)
    (type : OrderType) (limit stop : Option Price) (times : LifecycleTimes) (tif : TimeInForce)
    (parent : OrderId) : Result Order :=
  if hid : id = kNoOrder then .error (bad "order has no id")
  else if hinstrument : instrument = kInvalidInstrument then .error (bad "order has no instrument")
  else if hquantity : ¬ is_finite quantity ∨ quantity ≤ 0 then
    .error (bad "order quantity must be positive and finite")
  else if hdecided : ¬ is_set times.decision_time then .error (bad "order has no decision_time")
  else
    match hchain : validate_chain times with
    | some v => .error (bad ("order timestamp chain is invalid: " ++ v.describe))
    | none =>
      match hlimit : checkPrice type type.needs_limit "limit" limit with
      | some e => .error e
      | none =>
        match hstop : checkPrice type type.needs_stop "stop" stop with
        | some e => .error e
        | none =>
          .ok {
            id, parent_id := parent, instrument, side, quantity, type, time_in_force := tif
            limit_price := limit, stop_price := stop, times, arrival_price := 0
            id_valid := hid
            instrument_valid := hinstrument
            quantity_pos := pos_of_checked hquantity
            decided := by simpa using hdecided
            chain_valid := hchain
            limit_engaged := checkPrice_none hlimit
            stop_engaged := checkPrice_none hstop }

/-- Cross the spread on arrival. -/
def Order.market (id : OrderId) (instrument : InstrumentId) (side : Side) (quantity : Qty)
    (times : LifecycleTimes) (tif : TimeInForce := .Day) (parent : OrderId := kNoOrder) :
    Result Order :=
  Order.make id instrument side quantity .Market none none times tif parent

/-- Rest at the limit or better. -/
def Order.limit (id : OrderId) (instrument : InstrumentId) (side : Side) (quantity : Qty)
    (limit_price : Price) (times : LifecycleTimes) (tif : TimeInForce := .Day)
    (parent : OrderId := kNoOrder) : Result Order :=
  Order.make id instrument side quantity .Limit (some limit_price) none times tif parent

/-- Becomes a market order once the stop trades through. -/
def Order.stop (id : OrderId) (instrument : InstrumentId) (side : Side) (quantity : Qty)
    (stop_price : Price) (times : LifecycleTimes) (tif : TimeInForce := .Day)
    (parent : OrderId := kNoOrder) : Result Order :=
  Order.make id instrument side quantity .Stop none (some stop_price) times tif parent

def Order.stop_limit (id : OrderId) (instrument : InstrumentId) (side : Side) (quantity : Qty)
    (stop_price limit_price : Price) (times : LifecycleTimes) (tif : TimeInForce := .Day)
    (parent : OrderId := kNoOrder) : Result Order :=
  Order.make id instrument side quantity .StopLimit (some limit_price) (some stop_price) times tif
    parent

def Order.is_child (o : Order) : Bool := o.parent_id ≠ kNoOrder

def Order.decision_time (o : Order) : Timestamp := o.times.decision_time

def Order.with_arrival_price (o : Order) (p : Price) : Order := { o with arrival_price := p }

/-- The chain is checked again, so an arrival at or before the decision is
    refused. Only the arrival stage changes, and the decision stays set. -/
def Order.with_arrival (o : Order) (arrival : Timestamp) : Result Order :=
  match hchain : validate_chain { o.times with arrival_time := arrival } with
  | some v => .error (bad ("arrival stamp violates the chain: " ++ v.describe))
  | none =>
    .ok { o with
      times := { o.times with arrival_time := arrival }
      decided := o.decided
      chain_valid := hchain }

def Order.signed_quantity (o : Order) : Qty := o.quantity * (sign_of o.side : Rat)

def Order.is_marketable_against (o : Order) (touch : Price) : Bool :=
  match o.type with
  | .Market | .Stop => true
  | .Limit | .StopLimit =>
    match o.limit_price with
    | none => false
    | some limit =>
      match o.side with
      | .Buy => touch ≤ limit
      | .Sell => limit ≤ touch

theorem Order.with_arrival_ok {o stamped : Order} {arrival : Timestamp}
    (hstamp : o.with_arrival arrival = .ok stamped) :
    stamped.id = o.id ∧ stamped.instrument = o.instrument ∧ stamped.side = o.side ∧
      stamped.quantity = o.quantity ∧ stamped.type = o.type ∧
      stamped.time_in_force = o.time_in_force ∧ stamped.limit_price = o.limit_price ∧
      stamped.times = { o.times with arrival_time := arrival } := by
  unfold Order.with_arrival at hstamp
  split at hstamp
  · cases hstamp
  · cases hstamp
    simp

/-- Whether a price is at the order's limit or better, when it has one. -/
def Order.AtLimitOrBetter (o : Order) (price : Price) : Prop :=
  ∀ limit, o.limit_price = some limit →
    match o.side with
    | .Buy => price ≤ limit
    | .Sell => limit ≤ price

/-- A market order of ten, decided at time zero. -/
def tenShares (id : OrderId) (side : Side) (tif : TimeInForce := .Day)
    (h : (Order.market id 0 side 10 { decision_time := 0 } tif).toOption.isSome = true :=
      by decide +kernel) : Order :=
  Result.value (Order.market id 0 side 10 { decision_time := 0 } tif) h

def dayBuy : Order := tenShares 1 .Buy

def immediateBuy : Order := tenShares 1 .Buy .ImmediateOrCancel

def daySell : Order := tenShares 2 .Sell

inductive Liquidity where
  | Taker
  | Maker
  deriving DecidableEq, Repr

/-- An execution. Only the venue simulator builds one, and both of its ways to
    do so check the price, the quantity and the timestamp chain first. -/
structure Fill where
  order_id : OrderId
  parent_id : OrderId
  instrument : InstrumentId
  side : Side
  price : Price
  quantity : Qty
  commission : Notional
  exchange_fee : Notional
  liquidity : Liquidity
  times : LifecycleTimes
  arrival_price : Price
  price_pos : 0 < price
  quantity_pos : 0 < quantity
  chain_valid : validate_chain times = none

def Fill.total_cost (f : Fill) : Notional := f.commission + f.exchange_fee

def Fill.fill_time (f : Fill) : Timestamp := f.times.fill_time

/-- Positive is a cost, for either side. -/
def Fill.slippage_bps (f : Fill) : Bps :=
  if ¬ is_finite f.arrival_price ∨ f.arrival_price ≤ 0 then 0
  else (f.price / f.arrival_price - 1) * 1e4 * (sign_of f.side : Rat)

def Fill.cash_delta (f : Fill) : Notional :=
  -(f.price * f.quantity * (sign_of f.side : Rat)) - f.commission - f.exchange_fee

def Fill.signed_quantity (f : Fill) : Qty := f.quantity * (sign_of f.side : Rat)

/-- Cash moves by the traded value and by the whole cost, and by nothing else. -/
theorem Fill.cash_delta_eq (f : Fill) :
    f.cash_delta = -(f.price * f.signed_quantity) - f.total_cost := by
  simp only [Fill.cash_delta, Fill.signed_quantity, Fill.total_cost]
  linarith

theorem Fill.signed_quantity_buy {f : Fill} (hside : f.side = .Buy) :
    f.signed_quantity = f.quantity := by
  simp [Fill.signed_quantity, hside]

theorem Fill.signed_quantity_sell {f : Fill} (hside : f.side = .Sell) :
    f.signed_quantity = -f.quantity := by
  simp [Fill.signed_quantity, hside]

theorem Fill.signed_quantity_ne_zero (f : Fill) : f.signed_quantity ≠ 0 := by
  have hpos := f.quantity_pos
  cases hside : f.side with
  | Buy => rw [Fill.signed_quantity_buy hside]; exact ne_of_gt hpos
  | Sell => rw [Fill.signed_quantity_sell hside]; linarith

/-- A fill of an order decided at time zero, filled at time one. -/
def sampleFill (id : OrderId) (side : Side) (quantity : Qty) (price : Price)
    (commission : Notional := 0) (hquantity : 0 < quantity := by decide +kernel)
    (hprice : 0 < price := by decide +kernel) : Fill where
  order_id := id
  parent_id := kNoOrder
  instrument := 0
  side
  price
  quantity
  commission
  exchange_fee := 0
  liquidity := .Taker
  times := { decision_time := 0, fill_time := 1 }
  arrival_price := price
  price_pos := hprice
  quantity_pos := hquantity
  chain_valid := by decide

section Make

variable {id parent : OrderId} {instrument : InstrumentId} {side : Side} {quantity : Qty} {type : OrderType}
  {limit stop : Option Price} {times : LifecycleTimes} {tif : TimeInForce} {o : Order}

/-- An order that is made is what was asked for. -/
theorem Order.make_ok (hmake : Order.make id instrument side quantity type limit stop times tif parent = .ok o) :
    o.id = id ∧ o.parent_id = parent ∧ o.instrument = instrument ∧ o.side = side ∧ o.quantity = quantity := by
  unfold Order.make at hmake
  obtain ⟨_, hinstrument⟩ := Result.passed_dite hmake
  obtain ⟨_, hquantity⟩ := Result.passed_dite hinstrument
  obtain ⟨_, hdecided⟩ := Result.passed_dite hquantity
  obtain ⟨_, hchain⟩ := Result.passed_dite hdecided
  split at hchain
  · cases hchain
  split at hchain
  · cases hchain
  split at hchain
  · cases hchain
  · cases hchain
    exact ⟨rfl, rfl, rfl, rfl, rfl⟩

/-- When an order can be made. -/
theorem Order.make_iff :
    (∃ o, Order.make id instrument side quantity type limit stop times tif parent = .ok o) ↔
      id ≠ kNoOrder ∧ instrument ≠ kInvalidInstrument ∧ 0 < quantity ∧ is_set times.decision_time = true ∧
        validate_chain times = none ∧ checkPrice type type.needs_limit "limit" limit = none ∧
          checkPrice type type.needs_stop "stop" stop = none := by
  constructor
  · rintro ⟨o, hmake⟩
    unfold Order.make at hmake
    split at hmake
    · cases hmake
    · rename_i hid
      split at hmake
      · cases hmake
      · rename_i hinstrument
        split at hmake
        · cases hmake
        · rename_i hquantity
          split at hmake
          · cases hmake
          · rename_i hdecided
            split at hmake
            · cases hmake
            · rename_i hchain
              split at hmake
              · cases hmake
              · rename_i hlimit
                split at hmake
                · cases hmake
                · rename_i hstop
                  exact ⟨hid, hinstrument, pos_of_checked hquantity, by simpa using hdecided, hchain, hlimit, hstop⟩
  · rintro ⟨hid, hinstrument, hquantity, hdecided, hchain, hlimit, hstop⟩
    unfold Order.make
    rw [dif_neg hid, dif_neg hinstrument, dif_neg (by simpa using hquantity), dif_neg (by simpa using hdecided)]
    split
    · rename_i hviolated
      rw [hchain] at hviolated
      cases hviolated
    · split
      · rename_i hrefused
        rw [hlimit] at hrefused
        cases hrefused
      · split
        · rename_i hrefused
          rw [hstop] at hrefused
          cases hrefused
        · exact ⟨_, rfl⟩

end Make

/-- A decision alone is a valid chain. -/
theorem validate_chain_decision (decision_time : Timestamp) : validate_chain { decision_time } = none := by
  simp [validate_chain, kEdges, LifecycleTimes.at, is_set]

theorem checkPrice_some {type : OrderType} {needed : Bool} {what : String} {price : Price} :
    checkPrice type needed what (some price) = none ↔ needed = true ∧ 0 < price := by
  cases needed <;> simp [checkPrice, sane_price]

theorem checkPrice_absent {type : OrderType} {needed : Bool} {what : String} :
    checkPrice type needed what none = none ↔ needed = false := by
  cases needed <;> simp [checkPrice]

end ptl.oms
