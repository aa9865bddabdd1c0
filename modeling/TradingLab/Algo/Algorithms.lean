import TradingLab.Execution.Broker
import TradingLab.Execution.QuoteBook
import TradingLab.Oms.Order

open ptl.oms ptl.execution

namespace ptl.algo

/-- Where an execution stands. -/
inductive ExecutionState where
  | Pending
  | Working
  | Completed
  | Cancelled
  | Expired
  | Failed
  deriving DecidableEq, Repr

def ExecutionState.to_string : ExecutionState → String
  | .Pending => "pending"
  | .Working => "working"
  | .Completed => "completed"
  | .Cancelled => "cancelled"
  | .Expired => "expired"
  | .Failed => "failed"

def is_terminal (s : ExecutionState) : Bool :=
  s = .Completed ∨ s = .Cancelled ∨ s = .Expired ∨ s = .Failed

/-- A slice the algorithm wants to send: an intention, not yet an order. -/
structure ChildOrder where
  instrument : InstrumentId := kInvalidInstrument
  side : Side := .Buy
  quantity : Qty := 0
  type : oms.OrderType := .Market
  limit_price : Option Price := none
  stop_price : Option Price := none
  time_in_force : TimeInForce := .Day
  slice_index : Nat := 0
  hidden_quantity : Qty := 0
  deriving DecidableEq, Repr

def ChildOrder.valid (c : ChildOrder) : Bool :=
  let needs_limit : Bool := c.type = .Limit ∨ c.type = .StopLimit
  let needs_stop : Bool := c.type = .Stop ∨ c.type = .StopLimit
  if c.instrument = kInvalidInstrument then false
  else if ¬ is_finite c.quantity ∨ c.quantity ≤ 0 then false
  else if needs_limit ≠ c.limit_price.isSome then false
  else if needs_stop ≠ c.stop_price.isSome then false
  else if c.limit_price.any (· ≤ 0) then false
  else if c.stop_price.any (· ≤ 0) then false
  else true

/-- Everything an algorithm may see at one instant. -/
structure ExecutionContext where
  now : Timestamp := kNoTimestamp
  market : RoutedMarket := {}
  interval_volume : Volume := 0
  session_open : Timestamp := kNoTimestamp
  session_close : Timestamp := kNoTimestamp
  deriving DecidableEq, Repr

/-- How much of the parent is done. -/
structure ExecutionProgress where
  filled : Qty := 0
  remaining : Qty := 0
  filled_notional : Notional := 0
  costs : Notional := 0
  slices_released : Nat := 0
  slices_filled : Nat := 0
  deriving DecidableEq, Repr

/-- A fraction of a share that will never fill does not keep an execution
    open. -/
def ExecutionProgress.complete (p : ExecutionProgress) (parent_quantity : Qty) : Bool :=
  parent_quantity ≤ p.filled + 1e-9

/-- Constraints every algorithm must respect. -/
structure ExecutionPolicy where
  max_participation_rate : Rat := 0.10
  min_clip_size : Qty := 1
  max_display_quantity : Qty := 0
  price_collar : Bps := 100
  time_in_force : TimeInForce := .Day
  respect_market_hours : Bool := true
  open_buffer : Duration := 60000000000
  close_buffer : Duration := 60000000000
  lot_size : Rat := 1
  deriving DecidableEq, Repr

/-- The counters the executor keeps. -/
structure ExecutionStatistics where
  executions_started : Nat := 0
  executions_completed : Nat := 0
  executions_expired : Nat := 0
  executions_cancelled : Nat := 0
  child_orders_emitted : Nat := 0
  child_orders_rejected : Nat := 0
  deriving DecidableEq, Repr

/-! ### Schedules -/

/-- One slice, due in `[begin_time, end_time)`. -/
structure ScheduleSlice where
  index : Nat
  begin_time : Timestamp
  end_time : Timestamp
  target_quantity : Qty
  cumulative_target : Qty
  deriving DecidableEq, Repr

structure ExecutionSchedule where
  slices : List ScheduleSlice := []
  deriving DecidableEq, Repr

/-- The slice covering `ts`. The slices end in order, so the first that has not
    ended is the one a binary search finds. -/
def ExecutionSchedule.slice_at (s : ExecutionSchedule) (ts : Timestamp) : Option ScheduleSlice :=
  match s.slices.find? fun slice => ts < slice.end_time with
  | none => none
  | some slice => if ts < slice.begin_time then none else some slice

/-- Cumulative target quantity due by `ts`, interpolated within the slice. -/
def ExecutionSchedule.target_by (s : ExecutionSchedule) (ts : Timestamp) : Qty :=
  match s.slices.head?, s.slices.getLast? with
  | some first, some last =>
    if ts < first.begin_time then 0
    else if last.end_time ≤ ts then last.cumulative_target
    else
      match s.slice_at ts with
      | none => 0
      | some slice =>
        let span : Rat := ((slice.end_time - slice.begin_time : Int) : Rat)
        let elapsed : Rat := ((ts - slice.begin_time : Int) : Rat)
        let fraction := if span > 0 then max 0 (min 1 (elapsed / span)) else 1
        let before := slice.cumulative_target - slice.target_quantity
        before + slice.target_quantity * fraction
  | _, _ => 0

/-- The loop that lays slices of equal length out from `begin_time`. The last
    one ends exactly at `end_time`, with exactly the total. -/
def layOut (total : Qty) (begin_time end_time : Timestamp) (per : Duration) :
    Nat → Qty → List Qty → List ScheduleSlice
  | _, _, [] => []
  | index, cumulative, target :: rest =>
    { index
      begin_time := begin_time + per * index
      end_time := if rest = [] then end_time else begin_time + per * (index + 1)
      target_quantity := target
      cumulative_target := if rest = [] then total else cumulative + target } ::
        layOut total begin_time end_time per (index + 1) (cumulative + target) rest

/-- Equal quantity per equal time slice. -/
def ExecutionSchedule.twap (total : Qty) (begin_time end_time : Timestamp) (slice_count : Nat) :
    Result ExecutionSchedule :=
  if ¬ is_finite total ∨ total ≤ 0 then .error (bad "schedule quantity must be positive")
  else if ¬ is_set begin_time ∨ ¬ is_set end_time ∨ end_time ≤ begin_time then
    .error (bad "schedule window must be a positive duration")
  else if slice_count = 0 then .error (bad "schedule needs at least one slice")
  else
    let per := (end_time - begin_time).tdiv slice_count
    let targets := List.replicate slice_count (total / slice_count)
    .ok { slices := layOut total begin_time end_time per 0 0 targets }

/-- Quantity proportional to an expected volume profile. -/
def ExecutionSchedule.vwap (total : Qty) (begin_time end_time : Timestamp) (profile : List Rat) :
    Result ExecutionSchedule :=
  if ¬ is_finite total ∨ total ≤ 0 then .error (bad "schedule quantity must be positive")
  else if ¬ is_set begin_time ∨ ¬ is_set end_time ∨ end_time ≤ begin_time then
    .error (bad "schedule window must be a positive duration")
  else if profile = [] then .error (bad "VWAP schedule needs a volume profile")
  else if profile.any fun w => ¬ is_finite w ∨ w < 0 then
    .error (bad "volume profile contains a negative or non-finite weight")
  else if profile.sum ≤ 0 then
    .error (bad "volume profile sums to zero and cannot allocate quantity")
  else
    let per := (end_time - begin_time).tdiv profile.length
    let targets := profile.map fun w => total * (w / profile.sum)
    .ok { slices := layOut total begin_time end_time per 0 0 targets }

/-- One slice covering the whole window. -/
def ExecutionSchedule.immediate (total : Qty) (begin_time end_time : Timestamp) :
    Result ExecutionSchedule :=
  ExecutionSchedule.twap total begin_time end_time 1

/-- The parent order being worked, plus its execution window
    `[window_begin, window_end)`. -/
structure ExecutionRequest where
  parent : Order
  window_begin : Timestamp := kNoTimestamp
  window_end : Timestamp := kNoTimestamp
  policy : ExecutionPolicy := {}
  slice_count : Nat := 10
  volume_profile : List Rat := []

def ExecutionRequest.validate (r : ExecutionRequest) : Result Bool :=
  if r.parent.quantity ≤ 0 then .error (bad "execution request has no parent quantity")
  else if ¬ is_set r.window_begin ∨ ¬ is_set r.window_end ∨ r.window_end ≤ r.window_begin then
    .error (bad "execution window must be a positive duration")
  else if r.window_begin < r.parent.decision_time then
    .error (bad "execution window begins before the parent's decision time"
      (to_iso8601 r.window_begin ++ " < " ++ to_iso8601 r.parent.decision_time))
  else if r.policy.max_participation_rate ≤ 0 ∨ r.policy.max_participation_rate > 1 then
    .error (bad "participation rate must lie in (0, 1]")
  else if r.policy.min_clip_size < 0 then .error (bad "minimum clip size cannot be negative")
  else .ok true

/-- An algorithm: its schedule for a request, computed once, and what it sends
    at an instant, if anything. -/
structure IExecutionAlgorithm where
  plan : ExecutionRequest → Result ExecutionSchedule
  next_child : ExecutionRequest → ExecutionSchedule → ExecutionProgress → ExecutionContext →
    Option ChildOrder

/-! ### Constraints shared by the algorithms -/

/-- Whether a slice may be released at this instant. -/
def releasable (request : ExecutionRequest) (ctx : ExecutionContext) : Bool :=
  if ¬ ctx.market.executable then false
  else if request.policy.respect_market_hours ∧ is_set ctx.session_open ∧
      ctx.now < ctx.session_open + request.policy.open_buffer then false
  else if request.policy.respect_market_hours ∧ is_set ctx.session_close ∧
      ctx.session_close - request.policy.close_buffer ≤ ctx.now then false
  else if ctx.now < request.window_begin ∨ request.window_end ≤ ctx.now then false
  else true

/-- Every policy constraint applied to a desired quantity. -/
def apply_policy_caps (request : ExecutionRequest) (ctx : ExecutionContext) (desired remaining : Qty) :
    Qty :=
  let want := min desired remaining
  if ¬ is_finite want ∨ want ≤ 0 then 0
  else
    let cap := ctx.interval_volume * request.policy.max_participation_rate
    let want := if ctx.interval_volume > 0 ∧ cap < want then cap else want
    let want :=
      if request.policy.max_display_quantity > 0 then min want request.policy.max_display_quantity
      else want
    let want := toLots request.policy.lot_size want
    if want < request.policy.min_clip_size then
      -- A remainder below the floor is sent all the same.
      if ¬ remaining ≤ request.policy.min_clip_size then 0 else max 0 remaining
    else max 0 want

/-- The shortfall against the cumulative target, capped by the policy. -/
def clip_quantity (request : ExecutionRequest) (schedule : ExecutionSchedule)
    (progress : ExecutionProgress) (ctx : ExecutionContext) : Qty :=
  apply_policy_caps request ctx (schedule.target_by ctx.now - progress.filled) progress.remaining

/-- A limit offset away from the touch, and no further than the collar. -/
def collared_limit (request : ExecutionRequest) (ctx : ExecutionContext) (offset : Bps) : Option Price :=
  let side := request.parent.side
  let touch := ctx.market.state.touch side
  if ¬ ctx.market.executable then none
  else if touch ≤ 0 then none
  else
    let limit := apply_bps touch offset (-sign_of side)
    if |to_bps limit touch| > request.policy.price_collar then
      some (apply_bps touch request.policy.price_collar (-sign_of side))
    else some limit

/-- A market child of this quantity. -/
def marketChild (request : ExecutionRequest) (quantity : Qty) (slice_index : Nat) : ChildOrder where
  instrument := request.parent.instrument
  side := request.parent.side
  quantity
  type := .Market
  time_in_force := request.policy.time_in_force
  slice_index

/-- The slice now due, or the number released when there is none. -/
def sliceIndex (schedule : ExecutionSchedule) (progress : ExecutionProgress) (ctx : ExecutionContext) :
    Nat :=
  match schedule.slice_at ctx.now with
  | some slice => slice.index
  | none => progress.slices_released

/-- The plan of an algorithm that has no further condition on the request. -/
def validated (request : ExecutionRequest) (schedule : Result ExecutionSchedule) :
    Result ExecutionSchedule :=
  match request.validate with
  | .error e => .error e
  | .ok _ => schedule

/-! ### The six algorithms -/

/-- Everything at once, as a marketable order. -/
def ImmediateAlgorithm : IExecutionAlgorithm where
  plan request := validated request
    (ExecutionSchedule.immediate request.parent.quantity request.window_begin request.window_end)
  next_child request _ progress ctx :=
    if ¬ releasable request ctx then none
    else
      let clip := apply_policy_caps request ctx progress.remaining progress.remaining
      if clip ≤ 0 then none else some (marketChild request clip progress.slices_released)

/-- The release of the two algorithms that follow a schedule. -/
def scheduledChild (request : ExecutionRequest) (schedule : ExecutionSchedule)
    (progress : ExecutionProgress) (ctx : ExecutionContext) : Option ChildOrder :=
  if ¬ releasable request ctx then none
  else
    let clip := clip_quantity request schedule progress ctx
    if clip ≤ 0 then none else some (marketChild request clip (sliceIndex schedule progress ctx))

/-- Equal quantity per equal time slice. -/
def TwapAlgorithm : IExecutionAlgorithm where
  plan request := validated request
    (ExecutionSchedule.twap request.parent.quantity request.window_begin request.window_end
      (max 1 request.slice_count))
  next_child := scheduledChild

/-- Quantity proportional to a historical volume profile. -/
def VwapAlgorithm : IExecutionAlgorithm where
  plan request := validated request
    (if request.volume_profile = [] then
      .error (bad ("VWAP requires a volume profile; without one it would be a TWAP, " ++
        "and reporting it as a VWAP would be false"))
    else
      ExecutionSchedule.vwap request.parent.quantity request.window_begin request.window_end
        request.volume_profile)
  next_child := scheduledChild

/-- A fixed share of observed market volume. -/
def ParticipationAlgorithm (target_rate : Rat := 0.10) : IExecutionAlgorithm where
  plan request := validated request
    (ExecutionSchedule.immediate request.parent.quantity request.window_begin request.window_end)
  next_child request _ progress ctx :=
    if ¬ releasable request ctx then none
    else if ctx.interval_volume ≤ 0 then none
    else
      let effective_rate := min target_rate request.policy.max_participation_rate
      let want := min (ctx.interval_volume * effective_rate) progress.remaining
      let want := toLots request.policy.lot_size want
      if want < request.policy.min_clip_size ∧ ¬ progress.remaining ≤ request.policy.min_clip_size then
        none
      else
        let want := if want < request.policy.min_clip_size then progress.remaining else want
        if want ≤ 0 then none else some (marketChild request want progress.slices_released)

/-- Shows a small clip, refreshing as it fills. -/
def IcebergAlgorithm (display_size : Qty := 100) : IExecutionAlgorithm where
  plan request := validated request
    (if display_size ≤ 0 then .error (bad "iceberg display size must be positive")
    else
      ExecutionSchedule.immediate request.parent.quantity request.window_begin request.window_end)
  next_child request _ progress ctx :=
    if ¬ releasable request ctx then none
    else
      let want := toLots request.policy.lot_size (min display_size progress.remaining)
      let want := if want ≤ 0 then progress.remaining else want
      if want ≤ 0 then none
      else
        match collared_limit request ctx 0 with
        | none => none
        | some limit =>
          some { marketChild request want progress.slices_released with
            type := .Limit
            limit_price := some limit
            hidden_quantity := max 0 (progress.remaining - want) }

structure AdaptiveLimitAlgorithm.Config where
  passive_offset : Bps := 5
  urgency_threshold : Rat := 0.25
  slice_count : Nat := 10
  deriving DecidableEq, Repr

/-- Rests at a limit and crosses once it is far behind its schedule. -/
def AdaptiveLimitAlgorithm (cfg : AdaptiveLimitAlgorithm.Config := {}) : IExecutionAlgorithm where
  plan request := validated request
    (ExecutionSchedule.twap request.parent.quantity request.window_begin request.window_end
      (max 1 cfg.slice_count))
  next_child request schedule progress ctx :=
    if ¬ releasable request ctx then none
    else
      let clip := clip_quantity request schedule progress ctx
      if clip ≤ 0 then none
      else
        let child := marketChild request clip progress.slices_released
        let parent := request.parent.quantity
        let due := schedule.target_by ctx.now
        let shortfall := if parent > 0 then (due - progress.filled) / parent else 0
        if cfg.urgency_threshold ≤ shortfall then some child
        else
          match collared_limit request ctx cfg.passive_offset with
          | none => none
          | some limit => some { child with type := .Limit, limit_price := some limit }

/-- The six, with any parameters. -/
inductive BuiltIn : IExecutionAlgorithm → Prop where
  | immediate : BuiltIn ImmediateAlgorithm
  | twap : BuiltIn TwapAlgorithm
  | vwap : BuiltIn VwapAlgorithm
  | pov (target_rate : Rat) : BuiltIn (ParticipationAlgorithm target_rate)
  | iceberg (display_size : Qty) : BuiltIn (IcebergAlgorithm display_size)
  | adaptive_limit (cfg : AdaptiveLimitAlgorithm.Config) : BuiltIn (AdaptiveLimitAlgorithm cfg)

/-! ### No clip exceeds what is left -/

variable {request : ExecutionRequest} {schedule : ExecutionSchedule} {progress : ExecutionProgress}
  {ctx : ExecutionContext} {remaining : Qty}

theorem apply_policy_caps_le (desired : Qty) (hremaining : 0 ≤ remaining) :
    apply_policy_caps request ctx desired remaining ≤ remaining := by
  unfold apply_policy_caps
  dsimp only
  split
  · exact hremaining
  · generalize hcapped : (if ctx.interval_volume > 0 ∧
      ctx.interval_volume * request.policy.max_participation_rate < min desired remaining then
        ctx.interval_volume * request.policy.max_participation_rate
      else min desired remaining) = capped
    have hcap : capped ≤ remaining := by
      rw [← hcapped]
      split
      · rename_i hbinds
        exact hbinds.2.le.trans (min_le_right _ _)
      · exact min_le_right _ _
    generalize hshown : (if request.policy.max_display_quantity > 0 then
      min capped request.policy.max_display_quantity else capped) = shown
    have hshow : shown ≤ remaining := by
      rw [← hshown]
      split
      · exact (min_le_left _ _).trans hcap
      · exact hcap
    have hlots : toLots request.policy.lot_size shown ≤ remaining :=
      (toLots_le _ _).trans (max_le hremaining hshow)
    split
    · split
      · exact hremaining
      · exact max_le hremaining (le_refl _)
    · exact max_le hremaining hlots

/-- What a child may be: of the parent's instrument and side, and no larger than
what is left. -/
structure ChildOrder.Within (c : ChildOrder) (request : ExecutionRequest) (remaining : Qty) : Prop where
  instrument_eq : c.instrument = request.parent.instrument
  side_eq : c.side = request.parent.side
  quantity_le : c.quantity ≤ remaining

theorem marketChild_within {quantity : Qty} (slice_index : Nat) (hquantity : quantity ≤ remaining) :
    (marketChild request quantity slice_index).Within request remaining :=
  ⟨rfl, rfl, hquantity⟩

theorem scheduledChild_within {child : ChildOrder} (hremaining : 0 ≤ progress.remaining)
    (hchild : scheduledChild request schedule progress ctx = some child) :
    child.Within request progress.remaining := by
  unfold scheduledChild at hchild
  dsimp only at hchild
  split at hchild
  · cases hchild
  · split at hchild
    · cases hchild
    · cases hchild
      exact marketChild_within _ (apply_policy_caps_le _ hremaining)

/-- Whole lots of what is wanted, or else the rest. -/
theorem lots_or_rest_le {rest : Prop} [Decidable rest] {lot_size wanted remaining : Qty} (hremaining : 0 ≤ remaining)
    (hwanted : wanted ≤ remaining) : (if rest then remaining else toLots lot_size wanted) ≤ remaining := by
  split
  · exact le_refl _
  · exact (toLots_le lot_size wanted).trans (max_le hremaining hwanted)

theorem immediate_within {child : ChildOrder} (hremaining : 0 ≤ progress.remaining)
    (hchild : ImmediateAlgorithm.next_child request schedule progress ctx = some child) :
    child.Within request progress.remaining := by
  simp only [ImmediateAlgorithm] at hchild
  split at hchild
  · cases hchild
  · split at hchild
    · cases hchild
    · cases hchild
      exact marketChild_within _ (apply_policy_caps_le _ hremaining)

theorem participation_within (target_rate : Rat) {child : ChildOrder}
    (hremaining : 0 ≤ progress.remaining)
    (hchild : (ParticipationAlgorithm target_rate).next_child request schedule progress ctx = some child) :
    child.Within request progress.remaining := by
  simp only [ParticipationAlgorithm] at hchild
  split at hchild
  · cases hchild
  · split at hchild
    · cases hchild
    · split at hchild
      · cases hchild
      · generalize hsize : (if toLots request.policy.lot_size (min (ctx.interval_volume *
          min target_rate request.policy.max_participation_rate) progress.remaining) <
            request.policy.min_clip_size then progress.remaining
          else toLots request.policy.lot_size (min (ctx.interval_volume *
            min target_rate request.policy.max_participation_rate) progress.remaining)) = want at hchild
        have hwant : want ≤ progress.remaining := by
          rw [← hsize]
          exact lots_or_rest_le hremaining (min_le_right _ _)
        split at hchild
        · cases hchild
        · cases hchild
          exact marketChild_within _ hwant

theorem iceberg_within (display_size : Qty) {child : ChildOrder}
    (hremaining : 0 ≤ progress.remaining)
    (hchild : (IcebergAlgorithm display_size).next_child request schedule progress ctx = some child) :
    child.Within request progress.remaining := by
  simp only [IcebergAlgorithm] at hchild
  split at hchild
  · cases hchild
  · generalize hsize : (if toLots request.policy.lot_size (min display_size progress.remaining) ≤ 0 then
      progress.remaining else toLots request.policy.lot_size (min display_size progress.remaining)) =
        want at hchild
    have hwant : want ≤ progress.remaining := by
      rw [← hsize]
      exact lots_or_rest_le hremaining (min_le_right _ _)
    split at hchild
    · cases hchild
    · split at hchild
      · cases hchild
      · cases hchild
        exact ⟨rfl, rfl, hwant⟩

theorem adaptive_within (cfg : AdaptiveLimitAlgorithm.Config) {child : ChildOrder}
    (hremaining : 0 ≤ progress.remaining)
    (hchild : (AdaptiveLimitAlgorithm cfg).next_child request schedule progress ctx = some child) :
    child.Within request progress.remaining := by
  simp only [AdaptiveLimitAlgorithm] at hchild
  have hclip : clip_quantity request schedule progress ctx ≤ progress.remaining :=
    apply_policy_caps_le _ hremaining
  split at hchild
  · cases hchild
  · split at hchild
    · cases hchild
    · generalize (if request.parent.quantity > 0 then
        (schedule.target_by ctx.now - progress.filled) / request.parent.quantity else 0) = shortfall
          at hchild
      split at hchild
      · cases hchild
        exact marketChild_within _ hclip
      · split at hchild
        · cases hchild
        · cases hchild
          exact ⟨rfl, rfl, hclip⟩

/-- Whatever a built-in algorithm sends is within what is left. -/
theorem BuiltIn.child_within {algorithm : IExecutionAlgorithm} (hbuiltIn : BuiltIn algorithm)
    {child : ChildOrder} (hremaining : 0 ≤ progress.remaining)
    (hchild : algorithm.next_child request schedule progress ctx = some child) :
    child.Within request progress.remaining := by
  cases hbuiltIn with
  | immediate => exact immediate_within hremaining hchild
  | twap => exact scheduledChild_within hremaining hchild
  | vwap => exact scheduledChild_within hremaining hchild
  | pov target_rate => exact participation_within target_rate hremaining hchild
  | iceberg display_size => exact iceberg_within display_size hremaining hchild
  | adaptive_limit cfg => exact adaptive_within cfg hremaining hchild

end ptl.algo
