import TradingLab.Core.Numbers
import TradingLab.Core.Json

namespace ptl.paper

inductive AccountStatus where
  | Active
  | MarginCall
  | Liquidation
  | Suspended
  deriving DecidableEq, Repr

def AccountStatus.to_string : AccountStatus → String
  | .Active => "active"
  | .MarginCall => "margin_call"
  | .Liquidation => "liquidation"
  | .Suspended => "suspended"

inductive SessionPhase where
  | Created
  | Starting
  | Running
  | Paused
  | Stopping
  | Stopped
  | Failed
  deriving DecidableEq, Repr

def SessionPhase.to_string : SessionPhase → String
  | .Created => "created"
  | .Starting => "starting"
  | .Running => "running"
  | .Paused => "paused"
  | .Stopping => "stopping"
  | .Stopped => "stopped"
  | .Failed => "failed"

def is_terminal (p : SessionPhase) : Bool := p = .Stopped ∨ p = .Failed

/-- A point-in-time account statement. -/
structure AccountSnapshot (D : Type) [Zero D] where
  ts : Timestamp := kNoTimestamp
  cash : D := 0
  equity : D := 0
  position_value : D := 0
  realized_pnl : D := 0
  unrealized_pnl : D := 0
  total_costs : D := 0
  gross_exposure : D := 0
  net_exposure : D := 0
  maintenance_requirement : D := 0
  margin_excess : D := 0
  available_buying_power : D := 0
  status : AccountStatus := .Active

structure PersistedPosition (D : Type) [Zero D] where
  instrument : InstrumentId := 0
  quantity : D := 0
  average_cost : D := 0
  realized_pnl : D := 0
  deriving DecidableEq

structure PersistedOrder (D : Type) [Zero D] where
  order_id : UInt64 := 0
  instrument : InstrumentId := 0
  side : UInt8 := 0
  quantity : D := 0
  filled : D := 0
  deriving DecidableEq

/-- Persisted session state. -/
structure SessionState (D : Type) [Zero D] where
  session_id : String := ""
  sequence : UInt64 := 0
  saved_at : Timestamp := kNoTimestamp
  phase : SessionPhase := .Running
  config_fingerprint : UInt64 := 0
  events_processed : UInt64 := 0
  last_event_time : Timestamp := kNoTimestamp
  account : AccountSnapshot D := {}
  positions : List (PersistedPosition D) := []
  working_orders : List (PersistedOrder D) := []
  fills_received : UInt64 := 0
  orders_submitted : UInt64 := 0

variable {D : Type} [Zero D] (fmt : DoubleFormat D)

/-! ### Checksum -/

/-- What `checksum()` feeds, in its order, to a hash of bytes. -/
def SessionState.feed (bits : D → UInt64) {H : Type} (hash : H → List UInt8 → H) (h : H) (s : SessionState D) : H :=
  let h := hash h (characters s.session_id)
  let h := hash h (sizeof64 s.sequence)
  let h := hash h (sizeof64 s.config_fingerprint)
  let h := hash h (sizeof64 s.events_processed)
  let h := hash h (sizeof64 (bits s.account.cash))
  let h := hash h (sizeof64 (bits s.account.equity))
  let h := s.positions.foldl (fun h p =>
    let h := hash h (sizeof32 p.instrument)
    let h := hash h (sizeof64 (bits p.quantity))
    hash h (sizeof64 (bits p.average_cost))) h
  s.working_orders.foldl (fun h o =>
    let h := hash h (sizeof64 o.order_id)
    let h := hash h (sizeof64 (bits o.quantity))
    hash h (sizeof64 (bits o.filled))) h

def SessionState.checksum (bits : D → UInt64) (s : SessionState D) : UInt64 :=
  s.feed bits hash_bytes kFnvOffset

/-! ### Writing -/

def AccountSnapshot.to_json (a : AccountSnapshot D) : String :=
  "\x7b\"ts\": \"" ++ iso_or_empty a.ts ++ "\", \"status\": \"" ++ a.status.to_string ++
    "\", \"cash\": " ++ fmt.num a.cash ++
    ", \"equity\": " ++ fmt.num a.equity ++
    ", \"position_value\": " ++ fmt.num a.position_value ++
    ", \"realized_pnl\": " ++ fmt.num a.realized_pnl ++
    ", \"unrealized_pnl\": " ++ fmt.num a.unrealized_pnl ++
    ", \"total_costs\": " ++ fmt.num a.total_costs ++
    ", \"gross_exposure\": " ++ fmt.num a.gross_exposure ++
    ", \"net_exposure\": " ++ fmt.num a.net_exposure ++
    ", \"maintenance_requirement\": " ++ fmt.num a.maintenance_requirement ++
    ", \"margin_excess\": " ++ fmt.num a.margin_excess ++
    ", \"available_buying_power\": " ++ fmt.num a.available_buying_power ++ "\x7d"

def PersistedPosition.to_json (p : PersistedPosition D) : String :=
  "\x7b\"instrument\": " ++ toString p.instrument ++
    ", \"quantity\": " ++ fmt.num p.quantity ++
    ", \"average_cost\": " ++ fmt.num p.average_cost ++
    ", \"realized_pnl\": " ++ fmt.num p.realized_pnl ++ "\x7d"

def PersistedOrder.to_json (o : PersistedOrder D) : String :=
  "\x7b\"order_id\": " ++ toString o.order_id ++
    ", \"instrument\": " ++ toString o.instrument ++
    ", \"side\": " ++ toString o.side ++
    ", \"quantity\": " ++ fmt.num o.quantity ++
    ", \"filled\": " ++ fmt.num o.filled ++ "\x7d"

def SessionState.to_json (s : SessionState D) : String :=
  "\x7b\"session_id\": \"" ++ json_escape s.session_id ++
    "\", \"sequence\": " ++ toString s.sequence ++
    ", \"phase\": \"" ++ s.phase.to_string ++
    "\", \"saved_at\": \"" ++ iso_or_empty s.saved_at ++
    "\", \"config_fingerprint\": \"" ++ hex16 s.config_fingerprint ++
    "\", \"events_processed\": " ++ toString s.events_processed ++
    ", \"last_event_time\": \"" ++ iso_or_empty s.last_event_time ++
    "\", \"fills_received\": " ++ toString s.fills_received ++
    ", \"orders_submitted\": " ++ toString s.orders_submitted ++
    ", \"account\": " ++ s.account.to_json fmt ++
    ", \"positions\": [" ++ ", ".intercalate (s.positions.map (PersistedPosition.to_json fmt)) ++
    "], \"working_orders\": [" ++ ", ".intercalate (s.working_orders.map (PersistedOrder.to_json fmt)) ++
    "], \"checksum\": \"" ++ hex16 (s.checksum fmt.bits) ++ "\"\x7d"

/-! ### Reading -/

/-- A position that throws anywhere is left out. -/
def read_position (object : List Char) : Option (PersistedPosition D) := do
  let instrument ← (object_field object "instrument").bind stoull
  let quantity ← (object_field object "quantity").bind (fmt.stod <| String.ofList ·)
  let average_cost ← (object_field object "average_cost").bind (fmt.stod <| String.ofList ·)
  let realized_pnl ← (object_field object "realized_pnl").bind (fmt.stod <| String.ofList ·)
  some { instrument := instrument.toUInt32, quantity, average_cost, realized_pnl }

def read_order (object : List Char) : Option (PersistedOrder D) := do
  let order_id ← (object_field object "order_id").bind stoull
  let instrument ← (object_field object "instrument").bind stoull
  let side ← (object_field object "side").bind stoi
  let quantity ← (object_field object "quantity").bind (fmt.stod <| String.ofList ·)
  let filled ← (object_field object "filled").bind (fmt.stod <| String.ofList ·)
  some { order_id, instrument := instrument.toUInt32, side := UInt8.ofInt side, quantity, filled }

def SessionState.from_json (text : String) : Result (SessionState D) :=
  let json := text.toList
  match field json "session_id" with
  | none => .error (bad "session state has no session_id")
  | some id =>
    match parse_u64 10 (field json "sequence") with
    | none => .error (bad "session state has an unreadable sequence")
    | some sequence =>
      match parse_u64 16 (field json "config_fingerprint") with
      | none => .error (bad "session state has an unreadable config fingerprint")
      | some config_fingerprint =>
        match parse_u64 10 (field json "events_processed") with
        | none => .error (bad "session state has an unreadable event count")
        | some events_processed =>
          let state : SessionState D :=
            { session_id := String.ofList id
              sequence
              config_fingerprint
              events_processed
              fills_received := (parse_u64 10 (field json "fills_received")).getD 0
              orders_submitted := (parse_u64 10 (field json "orders_submitted")).getD 0
              saved_at := read_time (field json "saved_at")
              last_event_time := read_time (field json "last_event_time")
              account :=
                { cash := read_double fmt (field json "cash")
                  equity := read_double fmt (field json "equity") }
              positions := (read_array json "positions").filterMap (read_position fmt)
              working_orders := (read_array json "working_orders").filterMap (read_order fmt) }
          match parse_u64 16 (field json "checksum") with
          | none => .error (bad "session state has no checksum; it may be truncated")
          | some stored =>
            if stored ≠ state.checksum fmt.bits then
              .error (bad "session state checksum mismatch; the file is corrupt" state.session_id)
            else .ok state

end ptl.paper
