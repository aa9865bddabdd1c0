import TradingLab.Core.Numbers
import TradingLab.Live.Broker

namespace ptl.live

inductive LiveSessionPhase where
  | Created
  | Connecting
  | Reconciling
  | Running
  | Recovering
  | Halted
  | Stopping
  | Stopped
  | Failed
  deriving DecidableEq, Repr

def LiveSessionPhase.to_string : LiveSessionPhase → String
  | .Created => "created"
  | .Connecting => "connecting"
  | .Reconciling => "reconciling"
  | .Running => "running"
  | .Recovering => "recovering"
  | .Halted => "halted"
  | .Stopping => "stopping"
  | .Stopped => "stopped"
  | .Failed => "failed"

def is_terminal (p : LiveSessionPhase) : Bool := p = .Stopped ∨ p = .Failed

structure LiveSessionState (D : Type) [Zero D] where
  session_id : String := ""
  sequence : UInt64 := 0
  saved_at : Timestamp := kNoTimestamp
  phase : LiveSessionPhase := .Running
  config_fingerprint : UInt64 := 0
  events_processed : UInt64 := 0
  last_venue_sequence : UInt64 := 0
  last_sync_point : Timestamp := kNoTimestamp
  account : BrokerAccountSnapshot D := {}
  tracked_orders : List (String × UInt64) := []

variable {D : Type} [Zero D] (fmt : DoubleFormat D)

/-- What `checksum()` feeds, in its order, to a hash of bytes. -/
def LiveSessionState.feed (bits : D → UInt64) {H : Type} (hash : H → List UInt8 → H) (h : H) (s : LiveSessionState D) : H :=
  let h := hash h (characters s.session_id)
  let h := hash h (sizeof64 s.sequence)
  let h := hash h (sizeof64 s.config_fingerprint)
  let h := hash h (sizeof64 s.events_processed)
  let h := hash h (sizeof64 s.last_venue_sequence)
  let h := hash h (sizeof64 (bits s.account.cash))
  let h := hash h (sizeof64 (bits s.account.equity))
  s.tracked_orders.foldl (fun h order =>
    let h := hash h (characters order.1)
    hash h (sizeof64 order.2)) h

def LiveSessionState.checksum (bits : D → UInt64) (s : LiveSessionState D) : UInt64 :=
  s.feed bits hash_bytes kFnvOffset

/-! ### Writing -/

def BrokerAccountSnapshot.to_json (a : BrokerAccountSnapshot D) : String :=
  "\x7b\"ts\": \"" ++ iso_or_empty a.ts ++
    "\", \"cash\": " ++ fmt.num a.cash ++
    ", \"buying_power\": " ++ fmt.num a.buying_power ++
    ", \"equity\": " ++ fmt.num a.equity ++
    ", \"position_value\": " ++ fmt.num a.position_value ++
    ", \"realized_pnl\": " ++ fmt.num a.realized_pnl ++
    ", \"unrealized_pnl\": " ++ fmt.num a.unrealized_pnl ++
    ", \"open_orders\": " ++ toString a.open_order_count ++
    ", \"positions\": \x7b" ++
      ", ".intercalate (a.positions.toList.map fun p =>
        "\"" ++ toString p.1 ++ "\": " ++ fmt.num p.2) ++ "\x7d\x7d"

def tracked_to_json (order : String × UInt64) : String :=
  "\x7b\"client_order_id\": \"" ++ json_escape order.1 ++ "\", \"order_id\": " ++
    toString order.2 ++ "\x7d"

def LiveSessionState.to_json (s : LiveSessionState D) : String :=
  "\x7b\"session_id\": \"" ++ json_escape s.session_id ++
    "\", \"sequence\": " ++ toString s.sequence ++
    ", \"phase\": \"" ++ s.phase.to_string ++
    "\", \"saved_at\": \"" ++ iso_or_empty s.saved_at ++
    "\", \"config_fingerprint\": \"" ++ hex16 s.config_fingerprint ++
    "\", \"events_processed\": " ++ toString s.events_processed ++
    ", \"last_venue_sequence\": " ++ toString s.last_venue_sequence ++
    ", \"last_sync_point\": \"" ++ iso_or_empty s.last_sync_point ++
    "\", \"account\": " ++ s.account.to_json fmt ++
    ", \"tracked_orders\": [" ++ ", ".intercalate (s.tracked_orders.map tracked_to_json) ++
    "], \"checksum\": \"" ++ hex16 (s.checksum fmt.bits) ++ "\"\x7d"

/-! ### Reading -/

/-- The last character of the object, its brace, is no part of the number. -/
def read_tracked (object : List Char) : Option (String × UInt64) :=
  match Scan.after (quoted "client_order_id".toList ++ [' ', '"']) object,
    Scan.after (quoted "order_id".toList ++ [' ']) object with
  | some value, some number =>
    if '"' ∈ value then
      (from_chars 10 number.dropLast).map fun id => (String.ofList (Scan.upTo isQuote value), id)
    else none
  | _, _ => none

def LiveSessionState.from_json (text : String) : Result (LiveSessionState D) :=
  let json := text.toList
  match field json "session_id" with
  | none => .error (bad "live state has no session_id")
  | some id =>
    match parse_u64 10 (field json "sequence") with
    | none => .error (bad "live state has an unreadable sequence")
    | some sequence =>
      match parse_u64 16 (field json "config_fingerprint") with
      | none => .error (bad "live state has an unreadable config fingerprint")
      | some config_fingerprint =>
        match parse_u64 10 (field json "events_processed") with
        | none => .error (bad "live state has an unreadable event count")
        | some events_processed =>
          let state : LiveSessionState D :=
            { session_id := String.ofList id
              sequence
              config_fingerprint
              events_processed
              last_venue_sequence := (parse_u64 10 (field json "last_venue_sequence")).getD 0
              saved_at := read_time (field json "saved_at")
              last_sync_point := read_time (field json "last_sync_point")
              account :=
                { cash := read_double fmt (field json "cash")
                  equity := read_double fmt (field json "equity") }
              tracked_orders := (read_array json "tracked_orders").filterMap read_tracked }
          match parse_u64 16 (field json "checksum") with
          | none => .error (bad "live state has no checksum; it may be truncated")
          | some stored =>
            if stored ≠ state.checksum fmt.bits then
              .error (bad "live state checksum mismatch; the file is corrupt" state.session_id)
            else .ok state

end ptl.live
