import TradingLab.Algo.Algorithms
import TradingLab.Engine.Sink
import TradingLab.TableSum

open ptl.oms ptl.engine
open Std (TreeMap)

namespace ptl.algo

/-- One execution: the request, its plan, and its progress. -/
structure ExecutionPlan where
  parent_id : OrderId
  request : ExecutionRequest
  schedule : ExecutionSchedule
  progress : ExecutionProgress := {}
  state : ExecutionState := .Pending
  started : Timestamp := kNoTimestamp
  finished : Timestamp := kNoTimestamp
  arrival_price : Price := 0
  children : List OrderId := []
  working_child : Option OrderId := none

structure Executor where
  algorithm : Option IExecutionAlgorithm
  plans : TreeMap OrderId ExecutionPlan := ∅
  child_to_parent : TreeMap OrderId OrderId := ∅
  stats : ExecutionStatistics := {}

/-- The plan of a request that was accepted. -/
def ExecutionPlan.new (request : ExecutionRequest) (parent_id : OrderId) (schedule : ExecutionSchedule)
    (arrival_price : Price) : ExecutionPlan where
  parent_id
  request
  schedule
  progress := { remaining := request.parent.quantity }
  started := request.window_begin
  arrival_price

/-- Begin working a parent order. The parent itself is not sent. -/
def Executor.submit (x : Executor) (request : ExecutionRequest) (parent_id : OrderId)
    (arrival_price : Price) : Result Bool × Executor :=
  match x.algorithm with
  | none => (.error (bad "executor has no algorithm"), x)
  | some algorithm =>
    if parent_id = kNoOrder then (.error (bad "execution needs a parent order id"), x)
    else if x.plans.contains parent_id then
      (.error (bad "duplicate execution for parent order" (toString parent_id)), x)
    else
      match request.validate with
      | .error e => (.error e, x)
      | .ok _ =>
        match algorithm.plan request with
        | .error e => (.error e, x)
        | .ok schedule =>
          (.ok true, { x with
            plans := x.plans.insert parent_id (.new request parent_id schedule arrival_price)
            stats := { x.stats with executions_started := x.stats.executions_started + 1 } })

/-- The order a child becomes, decided now. -/
def ChildOrder.toOrder (c : ChildOrder) (id : OrderId) (now : Timestamp) (parent_id : OrderId) :
    Result Order :=
  let times : LifecycleTimes := { decision_time := now }
  match c.type with
  | .Market => Order.market id c.instrument c.side c.quantity times c.time_in_force parent_id
  | .Limit =>
    Order.limit id c.instrument c.side c.quantity (c.limit_price.getD 0) times c.time_in_force parent_id
  | .Stop => Order.stop id c.instrument c.side c.quantity (c.stop_price.getD 0) times c.time_in_force parent_id
  | .StopLimit =>
    Order.stop_limit id c.instrument c.side c.quantity (c.stop_price.getD 0) (c.limit_price.getD 0) times
      c.time_in_force parent_id

/-- A plan after a child of it was sent. -/
def ExecutionPlan.emitted (plan : ExecutionPlan) (child_id : OrderId) : ExecutionPlan :=
  { plan with
    children := plan.children ++ [child_id]
    working_child := some child_id
    progress := { plan.progress with slices_released := plan.progress.slices_released + 1 } }

variable {E : Type} (sink : OrderSink E)

/-- Send one child: the plan and the executor as the sending leaves them. -/
def Executor.emit_child (x : Executor) (e : E) (plan : ExecutionPlan) (child : ChildOrder)
    (now : Timestamp) : Result OrderId × ExecutionPlan × Executor × E :=
  if ¬ child.valid then (.error (bad "algorithm produced an invalid child order"), plan, x, e)
  else
    let (child_id, e) := sink.next_order_id e
    match child.toOrder child_id now plan.parent_id with
    | .error err => (.error err, plan, x, e)
    | .ok order =>
      match sink.submit e (order.with_arrival_price plan.arrival_price) with
      | (.error err, e) =>
        (.error err, plan,
          { x with stats := { x.stats with child_orders_rejected := x.stats.child_orders_rejected + 1 } }, e)
      | (.ok _, e) =>
        (.ok child_id, plan.emitted child_id,
          { x with
            child_to_parent := x.child_to_parent.insert child_id plan.parent_id
            stats := { x.stats with child_orders_emitted := x.stats.child_orders_emitted + 1 } }, e)

/-- The plan written back and counted as complete. -/
def Executor.completed (x : Executor) (key : OrderId) (plan : ExecutionPlan) (finished : Timestamp) :
    Executor :=
  { x with
    plans := x.plans.insert key { plan with state := .Completed, finished }
    stats := { x.stats with executions_completed := x.stats.executions_completed + 1 } }

/-- One turn of the loop of `on_market`, with the children emitted so far. -/
def Executor.advance_plan (algorithm : IExecutionAlgorithm) (instrument : InstrumentId)
    (ctx : ExecutionContext) (s : Nat × Executor × E) (key : OrderId) : Nat × Executor × E :=
  let (emitted, x, e) := s
  match x.plans[key]? with
  | none => s
  | some plan =>
    if is_terminal plan.state then s
    else if plan.request.parent.instrument ≠ instrument then s
    else if plan.progress.complete plan.request.parent.quantity then
      (emitted, x.completed key plan ctx.now, e)
    else if plan.working_child.isSome then s
    else
      match algorithm.next_child plan.request plan.schedule plan.progress ctx with
      | none => s
      | some child =>
        match x.emit_child sink e plan child ctx.now with
        | (.error _, _, x, e) => (emitted, x, e)
        | (.ok _, plan, x, e) =>
          (emitted + 1, { x with plans := x.plans.insert key { plan with state := .Working } }, e)

/-- Advance every live execution for this instrument. Plans are visited in the
    order of their ids. -/
def Executor.on_market (x : Executor) (e : E) (instrument : InstrumentId) (ctx : ExecutionContext) :
    Result Nat × Executor × E :=
  match x.algorithm with
  | none => (.error (bad "executor has no algorithm"), x, e)
  | some algorithm =>
    let (emitted, x, e) := x.plans.keys.foldl (Executor.advance_plan sink algorithm instrument ctx) (0, x, e)
    (.ok emitted, x, e)

/-- The key of the execution a fill belongs to: the fill's own parent, or the
    parent its order is known to have. -/
def Executor.parent_key (x : Executor) (fill : Fill) : Result OrderId :=
  if fill.parent_id = 0 then
    match x.child_to_parent[fill.order_id]? with
    | none =>
      .error (bad "fill does not belong to any known execution" (toString fill.order_id))
    | some parent => .ok parent
  else .ok fill.parent_id

/-- A plan after a fill, before it is seen whether that completes it. -/
def ExecutionPlan.filled_by (plan : ExecutionPlan) (fill : Fill) : ExecutionPlan :=
  let filled := plan.progress.filled + fill.quantity
  { plan with
    progress := { plan.progress with
      filled
      remaining := max 0 (plan.request.parent.quantity - filled)
      filled_notional := plan.progress.filled_notional + fill.price * fill.quantity
      costs := plan.progress.costs + fill.total_cost
      slices_filled := plan.progress.slices_filled + 1 }
    -- Released by any fill of the child, whatever is left of it.
    working_child := if plan.working_child = some fill.order_id then none else plan.working_child }

/-- Attribute a fill to its parent execution. -/
def Executor.on_fill (x : Executor) (fill : Fill) : Result Bool × Executor :=
  match x.parent_key fill with
  | .error e => (.error e, x)
  | .ok key =>
    match x.plans[key]? with
    | none => (.error (bad "fill references an unknown execution" (toString key)), x)
    | some plan =>
      if fill.quantity ≤ 0 then (.error (bad "fill has no quantity"), x)
      else
        let plan := plan.filled_by fill
        if plan.progress.complete plan.request.parent.quantity then
          (.ok true, x.completed key plan fill.fill_time)
        else (.ok true, { x with plans := x.plans.insert key plan })

/-- The sink's answer to a cancellation is not looked at. -/
def withdraw (e : E) (working : Option OrderId) : E :=
  match working with
  | none => e
  | some child => (sink.cancel e child).2

/-- Cancel an execution and any resting child. -/
def Executor.cancel (x : Executor) (e : E) (parent_id : OrderId) : Result Bool × Executor × E :=
  match x.plans[parent_id]? with
  | none => (.error (bad "cancel for an unknown execution"), x, e)
  | some plan =>
    if is_terminal plan.state then
      (.error (bad ("execution is already in terminal state " ++ plan.state.to_string)), x, e)
    else
      (.ok true,
        { x with
          plans := x.plans.insert parent_id { plan with working_child := none, state := .Cancelled }
          stats := { x.stats with executions_cancelled := x.stats.executions_cancelled + 1 } },
        withdraw sink e plan.working_child)

/-- One turn of the loop of `expire_stale`, with the number expired so far. -/
def Executor.expire_plan (now : Timestamp) (s : Nat × Executor × E) (key : OrderId) : Nat × Executor × E :=
  let (expired, x, e) := s
  match x.plans[key]? with
  | none => s
  | some plan =>
    if is_terminal plan.state then s
    else if now < plan.request.window_end then s
    else
      (expired + 1,
        { x with
          plans := x.plans.insert key
            { plan with working_child := none, state := .Expired, finished := now }
          stats := { x.stats with executions_expired := x.stats.executions_expired + 1 } },
        withdraw sink e plan.working_child)

/-- Expire executions whose window has closed. -/
def Executor.expire_stale (x : Executor) (e : E) (now : Timestamp) : Nat × Executor × E :=
  x.plans.keys.foldl (Executor.expire_plan sink now) (0, x, e)

def Executor.active (x : Executor) : List OrderId :=
  (x.plans.toList.filter fun entry => ¬ is_terminal entry.2.state).map fun entry => entry.2.parent_id

end ptl.algo
