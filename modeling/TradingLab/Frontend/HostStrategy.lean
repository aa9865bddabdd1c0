import TradingLab.Core.Types
import TradingLab.Frontend.Interleavings
import TradingLab.Paper.Drive

open ptl app.engine ptl.oms ptl.portfolio ptl.market ptl.engine
open Std (TreeMap)

namespace ptl_host

inductive HostState where
  | Stopped
  | Starting
  | Running
  | Stopping
  | Error
  deriving DecidableEq, Repr

def HostState.to_string : HostState → String
  | .Stopped => "STOPPED"
  | .Starting => "STARTING"
  | .Running => "RUNNING"
  | .Stopping => "STOPPING"
  | .Error => "ERROR"

/-- The paper session that a host owns, as the host calls it. -/
structure PaperSession (W K : Type) where
  build : K → Result W
  shutdown : W → Result Bool × W
  step : Nat → W → Result Nat × W
  enqueue_order : K → W → Result Nat × W
  enqueue_cancel : Nat → W → Result Bool × W
  enqueue_cancel_all : W → Result Nat × W
  enqueue_flatten : W → Result Nat × W
  set_halted : Bool → W → W
  halted : W → Bool

structure PaperSessionHost (W : Type) where
  state : HostState := .Stopped
  impl : Option W := none

open PaperSessionHost

variable {W K : Type} (session : PaperSession W K)

/-- Construct and start a session. A session that is there is replaced only by
    one that started. -/
def PaperSessionHost.start (h : PaperSessionHost W) (options : K) : Result Bool × PaperSessionHost W :=
  if h.state = .Running ∨ h.state = .Starting then
    (.error (bad ("a session is already " ++ h.state.to_string)), h)
  else if h.state = .Stopping then (.error (bad "a session is still stopping"), h)
  else
    match session.build options with
    | .error err => (.error err, { h with state := .Error })
    | .ok w => (.ok true, { state := .Running, impl := some w })

/-- Shut down and destroy the session. -/
def PaperSessionHost.stop (h : PaperSessionHost W) : Result Bool × PaperSessionHost W :=
  if h.state ≠ .Running then
    (.error (bad ("no running session to stop; state is " ++ h.state.to_string)), h)
  else
    match h.impl.map session.shutdown with
    | some (.error err, w) => (.error err, { state := .Error, impl := some w })
    | _ => (.ok true, { state := .Stopped })

/-- A call that needs a running session, and does not change that it runs. -/
def PaperSessionHost.withSession {T : Type} (h : PaperSessionHost W) (missing : String)
    (call : W → Result T × W) : Result T × PaperSessionHost W :=
  if h.state ≠ .Running then (.error (bad missing), h)
  else
    match h.impl with
    | none => (.error (bad missing), h)
    | some w => ((call w).1, { h with impl := some (call w).2 })

def PaperSessionHost.step (h : PaperSessionHost W) (max_events : Nat) : Result Nat × PaperSessionHost W :=
  match h.withSession "no running session to step" (session.step max_events) with
  | (.error err, h') =>
    (.error err, if h.state = .Running ∧ h.impl.isSome then { h' with state := .Error } else h')
  | answer => answer

def PaperSessionHost.set_strategy_halted (h : PaperSessionHost W) (halted : Bool) : PaperSessionHost W :=
  { h with impl := h.impl.map (session.set_halted halted) }

/-- The host as the driver calls it. -/
def sessionBackend : SessionBackend (PaperSessionHost W) K where
  session_start options h := h.start session options
  session_stop h := h.stop session
  session_step max_events h := h.step session max_events
  session_submit_order request h :=
    h.withSession "no running session to accept an order" (session.enqueue_order request)
  session_cancel_order order_id h :=
    h.withSession "no running session to cancel against" (session.enqueue_cancel order_id)
  session_cancel_all h := h.withSession "no running session" session.enqueue_cancel_all
  session_flatten h := h.withSession "no running session to flatten" session.enqueue_flatten
  session_set_halted halted h :=
    (.ok ((h.set_strategy_halted session halted).impl.elim false session.halted), h.set_strategy_halted session halted)

/-- The host runs a session. -/
def PaperSessionHost.running (h : PaperSessionHost W) : Prop := h.state = .Running ∧ h.impl.isSome = true

instance (h : PaperSessionHost W) : Decidable h.running := inferInstanceAs (Decidable (_ ∧ _))

/-! ### What a driver can rely on -/

section Lifecycle

variable {session} {h : PaperSessionHost W}

theorem PaperSessionHost.withSession_running {T : Type} (h : PaperSessionHost W) (missing : String) (call : W → Result T × W) :
    (h.withSession missing call).2.running ↔ h.running := by
  unfold withSession
  split
  · exact Iff.rfl
  · split
    · exact Iff.rfl
    · rename_i w himpl
      simp [running, himpl]

theorem PaperSessionHost.start_cases (session : PaperSession W K) (h : PaperSessionHost W) (options : K) :
    ((h.start session options).1.toOption.isSome = false ∧ (h.running ↔ (h.start session options).2.running)) ∨
      ((h.start session options).1.toOption.isSome = true ∧ ¬ h.running ∧ (h.start session options).2.running) := by
  unfold start
  split
  · exact .inl ⟨rfl, Iff.rfl⟩
  · rename_i hfree
    have hnone : ¬ h.running := fun hrunning => hfree (.inl hrunning.1)
    split
    · exact .inl ⟨rfl, Iff.rfl⟩
    · split
      · exact .inl ⟨rfl, iff_of_false hnone fun hrunning => by cases hrunning.1⟩
      · exact .inr ⟨rfl, hnone, rfl, rfl⟩

theorem PaperSessionHost.not_running_stop : ¬ (h.stop session).2.running := by
  unfold stop
  split
  · rename_i hidle
    exact fun hrunning => hidle hrunning.1
  · split
    all_goals exact fun hrunning => by cases hrunning.1

theorem PaperSessionHost.step_cases (session : PaperSession W K) (h : PaperSessionHost W) (n : Nat) :
    ((h.step session n).1.toOption.isSome = true ∧ ((h.step session n).2.running ↔ h.running)) ∨
      ((h.step session n).1.toOption.isSome = false ∧ ¬ (h.step session n).2.running) := by
  have hkeeps := withSession_running h "no running session to step" (session.step n)
  unfold step
  generalize h.withSession "no running session to step" (session.step n) = answer at hkeeps
  obtain ⟨result, h'⟩ := answer
  cases result with
  | ok events => exact .inl ⟨rfl, hkeeps⟩
  | error err =>
    refine .inr ⟨rfl, ?_⟩
    dsimp only
    split
    · exact fun hrunning => by cases hrunning.1
    · rename_i hnone
      exact fun hrunning => hnone (hkeeps.mp hrunning)

theorem sessionBackend_lifecycle : (sessionBackend session).Lifecycle running where
  refuses_second options h hrunning := by
    obtain ⟨hrefused, hkeeps⟩ | ⟨-, hnone, -⟩ := start_cases session h options
    · exact ⟨hrefused, hkeeps.mp hrunning⟩
    · exact absurd hrunning hnone
  started options h hok := by
    obtain ⟨hrefused, -⟩ | ⟨-, -, hruns⟩ := start_cases session h options
    · cases hok.symm.trans hrefused
    · exact hruns
  start_failed options h hnone hfailed := by
    obtain ⟨-, hkeeps⟩ | ⟨hok, -⟩ := start_cases session h options
    · exact fun hruns => hnone (hkeeps.mpr hruns)
    · cases hok.symm.trans hfailed
  stopped h := not_running_stop
  stepped n h hrunning hok := by
    obtain ⟨-, hkeeps⟩ | ⟨hfailed, -⟩ := step_cases session h n
    · exact hkeeps.mpr hrunning
    · cases hok.symm.trans hfailed
  step_failed n h hfailed := by
    obtain ⟨hok, -⟩ | ⟨-, hnone⟩ := step_cases session h n
    · cases hok.symm.trans hfailed
    · exact hnone
  trade_keeps command h := by
    cases command with
    | start kwargs => exact Iff.rfl
    | stop => exact Iff.rfl
    | submit_order request => exact withSession_running _ _ _
    | cancel_order order_id => exact withSession_running _ _ _
    | cancel_all => exact withSession_running _ _ _
    | flatten => exact withSession_running _ _ _
    | set_halted halted =>
      change (h.set_strategy_halted session halted).running ↔ _
      simp [running, set_strategy_halted]

end Lifecycle

/-! ### Concrete runs -/

/-- A session whose steps all fail, or none. -/
def scriptedSession : PaperSession Bool Bool where
  build flawed := .ok flawed
  shutdown flawed := (.ok true, flawed)
  step n flawed := (if flawed then .error (bad "a step failed") else .ok n, flawed)
  enqueue_order _ flawed := (.ok 1, flawed)
  enqueue_cancel _ flawed := (.ok true, flawed)
  enqueue_cancel_all flawed := (.ok 0, flawed)
  enqueue_flatten flawed := (.ok 0, flawed)
  set_halted _ flawed := flawed
  halted _ := false

/-- Handlers and the driver over the host of such a session. -/
abbrev hostMachine : Machine (SessionDriver (PaperSessionHost Bool) Bool) (Turn Bool) :=
  driverMachine (sessionBackend scriptedSession) running 25

theorem hostMachine_begins {G : SessionDriver (PaperSessionHost Bool) Bool → Turn Bool → Prop} :
    hostMachine.Reaches G { backend := {} } :=
  .init ⟨{}, rfl, by decide⟩

/-- A handler that gets through its check and puts its command on the queue. -/
def asks (i : Nat) : List (Turn Bool) := [.resume i false, .resume i false]

/-- The state, and whether the host runs a session. -/
def shown (s : SessionDriver (PaperSessionHost Bool) Bool) : SessionState × Bool :=
  (s.state, decide s.backend.running)

/-- A start and then a stop, each applied where it is allowed. -/
theorem driverMachine_sound_stopped :
    ∃ s, hostMachine.Reaches SessionDriver.Timely s ∧ shown s = (.STOPPED, false) ∧
      s.Sound running ∧
        ∀ turn t, s.Timely turn → s.step (sessionBackend scriptedSession) 25 turn = some t →
          Changes turn s.state t.state := by
  obtain ⟨s, hreach, hshown⟩ := hostMachine_begins.exec_map (G := SessionDriver.Timely)
    ([.arrive (.start false)] ++ asks 0 ++ [.drain, .finish, .advance, .arrive .stop] ++ asks 1 ++ [.drain, .finish])
    shown (b := (.STOPPED, false)) (by decide +kernel) (by decide +kernel)
  exact ⟨s, hreach, hshown, driverMachine_sound sessionBackend_lifecycle hreach⟩

/-- Two handlers that both find STOPPED start twice: RUNNING goes to STARTING,
and the refused start leaves ERROR over a session that runs. A failed step takes
RUNNING to ERROR, and `shutdown` writes RUNNING where no session runs. -/
theorem driverMachine_unsound :
    (∃ s t, hostMachine.Reachable s ∧ s.step (sessionBackend scriptedSession) 25 .drain = some t ∧
        transition_allowed s.state t.state = false ∧ s.state ≠ t.state) ∧
      (∃ s, hostMachine.Reachable s ∧ s.state = .ERROR ∧ s.backend.running) ∧
      (∃ s t, hostMachine.Reachable s ∧ s.step (sessionBackend scriptedSession) 25 .advance = some t ∧
        transition_allowed s.state t.state = false ∧ s.state ≠ t.state) ∧
      ∃ s, hostMachine.Reachable s ∧ s.state = .RUNNING ∧ ¬ s.backend.running := by
  have htrivial := Machine.along_of_forall (M := hostMachine) (G := fun _ _ => True) (fun _ _ => trivial)
  refine ⟨?_, ?_, ?_, ?_⟩
  · obtain ⟨s, hreach, hshown⟩ := hostMachine_begins.exec_map
      ([.arrive (.start false), .arrive (.start false)] ++ asks 0 ++ asks 1 ++ [.drain, .finish])
      (fun s => (s.state, (s.drain (sessionBackend scriptedSession)).map SessionDriver.state))
      (b := (.RUNNING, some .STARTING)) (htrivial _ _) (by decide +kernel)
    obtain ⟨hstate, hnext⟩ := Prod.mk.inj hshown
    obtain ⟨t, ht, hstarting⟩ := Option.map_eq_some_iff.mp hnext
    refine ⟨s, t, hreach, ht, ?_⟩
    rw [hstate, hstarting]
    decide
  · obtain ⟨s, hreach, hshown⟩ := hostMachine_begins.exec_map
      ([.arrive (.start false), .arrive (.start false)] ++ asks 0 ++ asks 1 ++ [.drain, .finish, .drain, .finish])
      shown (b := (.ERROR, true)) (htrivial _ _) (by decide +kernel)
    obtain ⟨hstate, hruns⟩ := Prod.mk.inj hshown
    exact ⟨s, hreach, hstate, of_decide_eq_true hruns⟩
  · obtain ⟨s, hreach, hshown⟩ := hostMachine_begins.exec_map
      ([.arrive (.start true)] ++ asks 0 ++ [.drain, .finish])
      (fun s => (s.state, (s.advance (sessionBackend scriptedSession) 25).map SessionDriver.state))
      (b := (.RUNNING, some .ERROR)) (htrivial _ _) (by decide +kernel)
    obtain ⟨hstate, hnext⟩ := Prod.mk.inj hshown
    obtain ⟨t, ht, herror⟩ := Option.map_eq_some_iff.mp hnext
    refine ⟨s, t, hreach, ht, ?_⟩
    rw [hstate, herror]
    decide
  · obtain ⟨s, hreach, hshown⟩ := hostMachine_begins.exec_map
      ([.arrive (.start true)] ++ asks 0 ++ [.drain, .finish, .advance, .arrive .shutdown] ++ asks 1 ++
        [.resume 1 false])
      shown (b := (.RUNNING, false)) (htrivial _ _) (by decide +kernel)
    obtain ⟨hstate, hnone⟩ := Prod.mk.inj hshown
    exact ⟨s, hreach, hstate, of_decide_eq_false hnone⟩

end ptl_host

namespace ptl_host

/-- `push_back` on a deque, then `pop_front` when it has grown past its bound. -/
def push_bounded {A : Type} (bound : Nat) (xs : List A) (x : A) : List A :=
  if bound < (xs ++ [x]).length then (xs ++ [x]).tail else xs ++ [x]

/-! ### The strategy -/

structure FillRecord where
  ts : Timestamp := kNoTimestamp
  order_id : OrderId := 0
  instrument : InstrumentId := 0
  side : Int := 0
  quantity : Qty := 0
  price : Price := 0
  commission : Notional := 0
  deriving DecidableEq, Repr

/-- A request waiting to be drained into the engine at the next event. -/
structure Request where
  request_id : Nat := 0
  is_cancel : Bool := false
  cancel_target : OrderId := 0
  instrument : InstrumentId := 0
  side : Side := .Buy
  quantity : Qty := 0
  type : oms.OrderType := .Market
  limit_price : Price := 0
  stop_price : Price := 0
  tif : TimeInForce := .Day
  deriving DecidableEq, Repr

structure Outcome where
  request_id : Nat := 0
  order_id : OrderId := 0
  accepted : Bool := false
  detail : String := ""
  deriving DecidableEq, Repr

def kMaxFills : Nat := 200
def kMaxOutcomes : Nat := 200

/-- The demonstration strategy, with the inbox of manual requests. The last three
    fields are not the program's: they record which order a request became, how
    many orders were asked for, and every fill with the position right after it.
    Nothing reads them. -/
structure HostStrategy where
  halted : Bool := false
  inbox : List Request := []
  submitted : List OrderId := []
  outcomes : List Outcome := []
  bars : Nat := 0
  fills : List FillRecord := []
  placed : List (Nat × OrderId) := []
  requested : Nat := 0
  booked : List (Fill × Qty) := []

def HostStrategy.enqueue (h : HostStrategy) (request : Request) : HostStrategy :=
  { h with
    inbox := h.inbox ++ [request]
    requested := if request.is_cancel then h.requested else h.requested + 1 }

def HostStrategy.record (h : HostStrategy) (outcome : Outcome) : HostStrategy :=
  { h with outcomes := push_bounded kMaxOutcomes h.outcomes outcome }

/-- The order of a request, as the engine decides it at a bar. -/
def Request.build (request : Request) (id : OrderId) (times : LifecycleTimes) : Result Order :=
  match request.type with
  | .Market => Order.market id request.instrument request.side request.quantity times request.tif
  | .Limit =>
    Order.limit id request.instrument request.side request.quantity request.limit_price times request.tif
  | .Stop =>
    Order.stop id request.instrument request.side request.quantity request.stop_price times request.tif
  | .StopLimit =>
    Order.stop_limit id request.instrument request.side request.quantity request.stop_price
      request.limit_price times request.tif

/-- The answer to a cancel is kept against its request. -/
def HostStrategy.on_cancelled (h : HostStrategy) (request : Request) : Result Bool → HostStrategy
  | .ok _ => h.record { request_id := request.request_id, order_id := request.cancel_target, accepted := true }
  | .error err =>
    h.record { request_id := request.request_id, order_id := request.cancel_target, detail := err.message }

def HostStrategy.on_refused (h : HostStrategy) (request : Request) (err : Error) : HostStrategy :=
  h.record { request_id := request.request_id, detail := err.message }

def HostStrategy.on_submitted (h : HostStrategy) (request : Request) : Result OrderId → HostStrategy
  | .error err => h.on_refused request err
  | .ok id =>
    { h with
      submitted := h.submitted ++ [id]
      placed := h.placed ++ [(request.request_id, id)] }.record
        { request_id := request.request_id, order_id := id, accepted := true }

/-- The loop of `drain`: requests in the order they came, each popped before it is
    served, and what follows when there are none. -/
def HostStrategy.drain (bar : Bar) (k : HostStrategy → SinkProgram HostStrategy) :
    List Request → HostStrategy → SinkProgram HostStrategy
  | [], h => k h
  | request :: rest, h =>
    let h := { h with inbox := rest }
    if request.is_cancel then
      .cancel request.cancel_target fun cancelled =>
        HostStrategy.drain bar k rest (h.on_cancelled request cancelled)
    else
      .next_order_id fun id =>
        match request.build id { decision_time := bar.close_time } with
        | .error err => HostStrategy.drain bar k rest (h.on_refused request err)
        | .ok order =>
          .submit (order.with_arrival_price bar.close) fun submitted =>
            HostStrategy.drain bar k rest (h.on_submitted request submitted)

/-- What the strategy does on its own: a market order of 25 on every fifteenth
    bar, unless it is halted. -/
def HostStrategy.generate (bar : Bar) (h : HostStrategy) : SinkProgram HostStrategy :=
  let h := { h with bars := h.bars + 1 }
  if h.halted then .done h
  else if h.bars % 15 ≠ 0 then .done h
  else
    .context fun ctx =>
      let holding := ctx.portfolio.settledQuantity bar.instrument > 0
      .next_order_id fun id =>
        match Order.market id bar.instrument (if holding then .Sell else .Buy) 25
            { decision_time := bar.close_time } with
        | .error _ => .done h
        | .ok order =>
          .submit (order.with_arrival_price bar.close) fun submitted =>
            .done { h with
              submitted := h.submitted ++ submitted.toOption.toList
              requested := h.requested + 1 }

def HostStrategy.on_bar (bar : Bar) (h : HostStrategy) : SinkProgram HostStrategy :=
  h.drain bar (HostStrategy.generate bar) h.inbox

def HostStrategy.on_fill (fill : Fill) (ctx : StrategyContext) (h : HostStrategy) : HostStrategy :=
  { h with
    fills := push_bounded kMaxFills h.fills {
      ts := fill.fill_time
      order_id := fill.order_id
      instrument := fill.instrument
      side := if fill.side = .Buy then 1 else -1
      quantity := fill.quantity
      price := fill.price
      commission := fill.commission }
    booked := h.booked ++ [(fill, ctx.portfolio.settledQuantity fill.instrument)] }

def hostStrategy : IStrategy HostStrategy where
  on_start _ h := .ok { h with bars := 0, fills := [] }
  on_bar := HostStrategy.on_bar
  on_fill := HostStrategy.on_fill

/-! ### The session and its requests -/

/-- A manually entered order. -/
structure ManualOrder where
  symbol : String := ""
  side : Int := 1
  quantity : Rat := 0
  type : String := "market"
  limit_price : Rat := 0
  stop_price : Rat := 0
  time_in_force : String := "day"
  deriving DecidableEq, Repr

/-- A running session with what the host keeps beside it. -/
structure Impl (R F : Type) where
  session : paper.PaperSession R ReplaySource F
  strategy : HostStrategy := {}
  instruments : InstrumentTable
  next_request_id : Nat := 1

variable {R F : Type}

/-- The single synthetic instrument of a session is instrument 0. -/
def hostInstruments : InstrumentTable := (({} : InstrumentTable).intern "SPY").2

def parse_type (text : String) : Result oms.OrderType :=
  if text = "market" then .ok .Market
  else if text = "limit" then .ok .Limit
  else if text = "stop" then .ok .Stop
  else if text = "stop_limit" then .ok .StopLimit
  else .error (bad ("unknown order type: " ++ text))

def parse_tif (text : String) : Result TimeInForce :=
  if text = "day" then .ok .Day
  else if text = "ioc" then .ok .ImmediateOrCancel
  else if text = "fok" then .ok .FillOrKill
  else if text = "gtc" then .ok .GoodTillCancel
  else .error (bad ("unknown time in force: " ++ text))

/-- A request takes the next id and goes to the end of the inbox. -/
def Impl.enqueue (w : Impl R F) (request : Request) : Impl R F :=
  { w with
    strategy := w.strategy.enqueue { request with request_id := w.next_request_id }
    next_request_id := w.next_request_id + 1 }

/-- The checks an order passes before it is queued, and the request it becomes. -/
def Impl.check_order (w : Impl R F) (request : ManualOrder) : Result Request :=
  match w.instruments.find request.symbol with
  | none => .error (bad ("unknown symbol: " ++ request.symbol))
  | some instrument =>
    if ¬ 0 < request.quantity ∨ ¬ is_finite request.quantity then .error (bad "quantity must be positive")
    else
      match parse_type request.type with
      | .error err => .error err
      | .ok type =>
        match parse_tif request.time_in_force with
        | .error err => .error err
        | .ok tif =>
          if type.needs_limit ∧ ¬ 0 < request.limit_price then
            .error (bad "a limit order needs a positive limit price")
          else if type.needs_stop ∧ ¬ 0 < request.stop_price then
            .error (bad "a stop order needs a positive stop price")
          else
            .ok {
              instrument, type, tif
              side := if 0 ≤ request.side then .Buy else .Sell
              quantity := request.quantity
              limit_price := request.limit_price
              stop_price := request.stop_price }

def Impl.enqueue_order (w : Impl R F) (request : ManualOrder) : Result Nat × Impl R F :=
  match w.check_order request with
  | .error err => (.error err, w)
  | .ok queued => (.ok w.next_request_id, w.enqueue queued)

def Impl.enqueue_cancel (w : Impl R F) (order_id : OrderId) : Result Bool × Impl R F :=
  match w.session.engine.oms.find order_id with
  | none => (.error (bad ("no such order: " ++ toString order_id)), w)
  | some _ => (.ok true, w.enqueue { is_cancel := true, cancel_target := order_id })

/-- A loop that queues and counts what was not refused. -/
def Impl.enqueue_each {A B : Type} (queue : Impl R F → A → Result B × Impl R F) :
    List A → Impl R F → Nat × Impl R F
  | [], w => (0, w)
  | a :: rest, w =>
    match queue w a with
    | (.error _, w) => Impl.enqueue_each queue rest w
    | (.ok _, w) =>
      let (queued, w) := Impl.enqueue_each queue rest w
      (queued + 1, w)

def Impl.enqueue_cancel_all (w : Impl R F) : Nat × Impl R F :=
  Impl.enqueue_each Impl.enqueue_cancel w.session.engine.oms.working w

/-- The opposite side, for the exact quantity held. -/
def Impl.closing (w : Impl R F) (key : InstrumentId) (position : Position) : ManualOrder where
  symbol := w.instruments.symbol key
  side := if 0 < position.quantity then -1 else 1
  quantity := |position.quantity|
  type := "market"

/-- Cancels for what works now, then an order for every position that is not
    flat now. -/
def Impl.enqueue_flatten (w : Impl R F) : Nat × Impl R F :=
  let w := w.enqueue_cancel_all.2
  Impl.enqueue_each (fun w entry => w.enqueue_order (w.closing entry.1 entry.2))
    (w.session.engine.pf.positions.toList.filter fun entry => ¬ entry.2.is_flat) w

def Impl.set_strategy_halted (w : Impl R F) (halted : Bool) : Impl R F :=
  { w with strategy := { w.strategy with halted } }

end ptl_host
