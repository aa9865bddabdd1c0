import TradingLab.Core.Types
import TradingLab.Machine

open ptl

namespace app.engine

/-- The lifecycle the API promises. -/
inductive SessionState where
  | STOPPED
  | STARTING
  | RUNNING
  | STOPPING
  | ERROR
  deriving DecidableEq, Repr

def SessionState.value : SessionState → String
  | .STOPPED => "STOPPED"
  | .STARTING => "STARTING"
  | .RUNNING => "RUNNING"
  | .STOPPING => "STOPPING"
  | .ERROR => "ERROR"

/-- Which transitions are legal. -/
def LEGAL : SessionState → List SessionState
  | .STOPPED => [.STARTING]
  | .STARTING => [.RUNNING, .ERROR]
  | .RUNNING => [.STOPPING]
  | .STOPPING => [.STOPPED, .ERROR]
  | .ERROR => [.STARTING, .STOPPED]

def transition_allowed (current target : SessionState) : Bool := target ∈ LEGAL current

def IllegalTransition (current : SessionState) (requested : String) : Error :=
  bad ("cannot " ++ requested ++ " while the session is " ++ current.value)

/-- What the driver needs from the engine. An exception is an error. -/
structure SessionBackend (B K : Type) where
  session_start : K → B → Result Bool × B
  session_stop : B → Result Bool × B
  session_step : Nat → B → Result Nat × B
  session_submit_order : K → B → Result Nat × B
  session_cancel_order : Nat → B → Result Bool × B
  session_cancel_all : B → Result Nat × B
  session_flatten : B → Result Nat × B
  session_set_halted : Bool → B → Result Bool × B

variable {B K : Type}

inductive Command (K : Type) where
  | start (kwargs : K)
  | stop
  | submit_order (kwargs : K)
  | cancel_order (order_id : Nat)
  | cancel_all
  | flatten
  | set_halted (halted : Bool)
  deriving DecidableEq, Repr

def Command.name : Command K → String
  | .start _ => "start"
  | .stop => "stop"
  | .submit_order _ => "submit_order"
  | .cancel_order _ => "cancel_order"
  | .cancel_all => "cancel_all"
  | .flatten => "flatten"
  | .set_halted _ => "set_halted"

/-! ### Request handlers -/

/-- What a handler has still to do: read the shared state, write RUNNING over
    it, put a command on the queue, or wait. -/
inductive Handler (K : Type) where
  | finished (answer : Result Nat)
  | read (k : SessionState → Handler K)
  | force (k : Handler K)
  | put (command : Command K) (k : Result Nat → Handler K)
  | wait (ticket : Nat) (name : String) (k : Result Nat → Handler K)
  | await (target : SessionState) (k : Result Nat → Handler K)

def Handler.start (kwargs : K) (k : Result Nat → Handler K) : Handler K :=
  .read fun state =>
    if transition_allowed state .STARTING then .put (.start kwargs) k
    else k (.error (IllegalTransition state "start"))

def Handler.stop (k : Result Nat → Handler K) : Handler K :=
  .read fun state =>
    if transition_allowed state .STOPPING then .put .stop k
    else k (.error (IllegalTransition state "stop"))

/-- Stop, then start a new session. -/
def Handler.reset (kwargs : K) (k : Result Nat → Handler K) : Handler K :=
  .read fun state =>
    if state = .RUNNING then
      Handler.stop fun stopped =>
        match stopped with
        | .error err => k (.error err)
        | .ok _ =>
          .await .STOPPED fun awaited =>
            match awaited with
            | .error err => k (.error err)
            | .ok _ => Handler.start kwargs k
    else Handler.start kwargs k

/-- A trading command needs a running session. -/
def Handler.trading (verb : String) (command : Command K) (k : Result Nat → Handler K) : Handler K :=
  .read fun state =>
    if state ≠ .RUNNING then k (.error (IllegalTransition state verb)) else .put command k

def Handler.submit_order (kwargs : K) : (Result Nat → Handler K) → Handler K :=
  Handler.trading "submit an order" (.submit_order kwargs)

def Handler.cancel_order (order_id : Nat) : (Result Nat → Handler K) → Handler K :=
  Handler.trading "cancel an order" (.cancel_order order_id)

def Handler.cancel_all : (Result Nat → Handler K) → Handler K := Handler.trading "cancel orders" .cancel_all

def Handler.flatten : (Result Nat → Handler K) → Handler K := Handler.trading "flatten" .flatten

def Handler.set_halted (halted : Bool) : (Result Nat → Handler K) → Handler K :=
  Handler.trading "halt the strategy" (.set_halted halted)

/-- Stop from ERROR as well as RUNNING: from ERROR by writing RUNNING first.
    Whatever the stop raises is passed over. -/
def Handler.shutdown (k : Result Nat → Handler K) : Handler K :=
  let closing : Handler K := Handler.stop fun stopped =>
    match stopped with
    | .error _ => k (.ok 0)
    | .ok _ => .await .STOPPED fun _ => k (.ok 0)
  .read fun state =>
    if state = .RUNNING ∨ state = .ERROR then
      .read fun state => if state = .ERROR then .force closing else closing
    else k (.ok 0)

inductive Request (K : Type) where
  | start (kwargs : K)
  | stop
  | reset (kwargs : K)
  | shutdown
  | submit_order (kwargs : K)
  | cancel_order (order_id : Nat)
  | cancel_all
  | flatten
  | set_halted (halted : Bool)
  deriving DecidableEq, Repr

def Request.handler : Request K → Handler K
  | .start kwargs => Handler.start kwargs .finished
  | .stop => Handler.stop .finished
  | .reset kwargs => Handler.reset kwargs .finished
  | .shutdown => Handler.shutdown .finished
  | .submit_order kwargs => Handler.submit_order kwargs .finished
  | .cancel_order order_id => Handler.cancel_order order_id .finished
  | .cancel_all => Handler.cancel_all .finished
  | .flatten => Handler.flatten .finished
  | .set_halted halted => Handler.set_halted halted .finished

/-! ### The driver -/

/-- The driver with its backend and the handlers at work. `applying` is the
    lifecycle command whose backend call is under way, and `forced` says that
    the state is as `shutdown` wrote it. -/
structure SessionDriver (B K : Type) where
  state : SessionState := .STOPPED
  commands : List (Nat × Command K) := []
  applying : Option (Nat × Command K) := none
  backend : B
  handlers : List (Handler K) := []
  tickets : Nat := 0
  done : List (Nat × Result Nat) := []
  forced : Bool := false

/-- One step of somebody: a new request, a handler (whose patience may have run
    out), or the driver's thread. -/
inductive Turn (K : Type) where
  | arrive (request : Request K)
  | resume (i : Nat) (timeout : Bool)
  | drain
  | finish
  | advance
  deriving DecidableEq, Repr

/-- The handler of an index goes on with what it has to do next. -/
def SessionDriver.proceed (s : SessionDriver B K) (i : Nat) (next : Handler K) : SessionDriver B K :=
  { s with handlers := s.handlers.set i next }

def SessionDriver.resume (s : SessionDriver B K) (i : Nat) (timeout : Bool) : Option (SessionDriver B K) :=
  match s.handlers[i]? with
  | none => none
  | some (.finished _) => none
  | some (.read k) => some (s.proceed i (k s.state))
  | some (.force k) => some { s.proceed i k with state := .RUNNING, forced := true }
  | some (.put command k) =>
    some { s.proceed i (.wait s.tickets command.name k) with
      commands := s.commands ++ [(s.tickets, command)]
      tickets := s.tickets + 1 }
  | some (.wait ticket name k) =>
    if timeout then some (s.proceed i (k (.error (bad ("the session driver did not apply '" ++ name ++ "'")))))
    else (s.done.lookup ticket).map fun answer => s.proceed i (k answer)
  | some (.await target k) =>
    if timeout then some (s.proceed i (k (.error (bad ("timed out waiting for " ++ target.value)))))
    else if s.state = target then some (s.proceed i (k (.ok 0)))
    else none

/-- A trading command on the backend. -/
def SessionBackend.trade (backend : SessionBackend B K) : Command K → B → Result Nat × B
  | .submit_order kwargs, b => backend.session_submit_order kwargs b
  | .cancel_order order_id, b =>
    ((backend.session_cancel_order order_id b).1.map fun _ => 0, (backend.session_cancel_order order_id b).2)
  | .cancel_all, b => backend.session_cancel_all b
  | .flatten, b => backend.session_flatten b
  | .set_halted halted, b =>
    ((backend.session_set_halted halted b).1.map Bool.toNat, (backend.session_set_halted halted b).2)
  | _, b => (.ok 0, b)

/-- The driver takes a command. A lifecycle command is announced before its
    backend call. -/
def SessionDriver.drain (backend : SessionBackend B K) (s : SessionDriver B K) : Option (SessionDriver B K) :=
  match s.applying, s.commands with
  | none, (ticket, .start kwargs) :: commands =>
    some { s with commands, applying := some (ticket, .start kwargs), state := .STARTING, forced := false }
  | none, (ticket, .stop) :: commands =>
    some { s with commands, applying := some (ticket, .stop), state := .STOPPING, forced := false }
  | none, (ticket, command) :: commands =>
    some { s with
      commands
      backend := (backend.trade command s.backend).2
      done := (ticket, (backend.trade command s.backend).1) :: s.done }
  | _, _ => none

/-- The backend call of a lifecycle command returns or raises. -/
def SessionDriver.finish (backend : SessionBackend B K) (s : SessionDriver B K) : Option (SessionDriver B K) :=
  let close (ticket : Nat) (call : Result Bool × B) (reached : SessionState) : SessionDriver B K :=
    { s with
      applying := none
      forced := false
      backend := call.2
      state := if call.1.toOption.isSome then reached else .ERROR
      done := (ticket, call.1.map Bool.toNat) :: s.done }
  match s.applying with
  | some (ticket, .start kwargs) => some (close ticket (backend.session_start kwargs s.backend) .RUNNING)
  | some (ticket, .stop) => some (close ticket (backend.session_stop s.backend) .STOPPED)
  | _ => none

/-- With no command to take, the session is stepped. -/
def SessionDriver.advance (backend : SessionBackend B K) (step_size : Nat) (s : SessionDriver B K) :
    Option (SessionDriver B K) :=
  if s.applying.isSome then none
  else if s.state ≠ .RUNNING then some s
  else
    match backend.session_step step_size s.backend with
    | (.error _, b) => some { s with backend := b, state := .ERROR, forced := false }
    | (.ok _, b) => some { s with backend := b }

def SessionDriver.step (backend : SessionBackend B K) (step_size : Nat) (s : SessionDriver B K) :
    Turn K → Option (SessionDriver B K)
  | .arrive request => some { s with handlers := s.handlers ++ [request.handler] }
  | .resume i timeout => s.resume i timeout
  | .drain => s.drain backend
  | .finish => s.finish backend
  | .advance => s.advance backend step_size

/-- The interleavings of any handlers with the one driver thread, from a
    backend without a session. -/
def driverMachine (backend : SessionBackend B K) (running : B → Prop) (step_size : Nat) :
    Machine (SessionDriver B K) (Turn K) where
  Init s := ∃ b, s = { backend := b } ∧ ¬ running b
  step s turn := s.step backend step_size turn

end app.engine
