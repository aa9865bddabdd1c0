import TradingLab.Execution.Broker

namespace ptl.live

inductive ConnectionState where
  | Disconnected
  | Connecting
  | Connected
  | Synchronizing
  | Ready
  | Degraded
  | Reconnecting
  | Failed
  deriving DecidableEq, Repr

def ConnectionState.to_string : ConnectionState → String
  | .Disconnected => "disconnected"
  | .Connecting => "connecting"
  | .Connected => "connected"
  | .Synchronizing => "synchronizing"
  | .Ready => "ready"
  | .Degraded => "degraded"
  | .Reconnecting => "reconnecting"
  | .Failed => "failed"

def permits_trading (s : ConnectionState) : Bool := s = .Ready

inductive MessageKind where
  | Heartbeat
  | OrderAccepted
  | OrderRejected
  | OrderCancelled
  | OrderReplaced
  | PartialFill
  | Fill
  | AccountUpdate
  | Quote
  | Trade
  | Unknown
  deriving DecidableEq, Repr

/-- A message from the venue. A sequence of zero means the stream is not
    sequenced. -/
structure BrokerMessage where
  kind : MessageKind := .Unknown
  sequence : UInt64 := 0
  venue_time : Timestamp := kNoTimestamp
  received_time : Timestamp := kNoTimestamp
  venue_order_id : String := ""
  venue_fill_id : String := ""
  client_order_id : String := ""
  instrument : InstrumentId := kInvalidInstrument
  side : Side := .Buy
  quantity : Qty := 0
  price : Price := 0
  commission : Notional := 0
  exchange_fee : Notional := 0
  bid : Price := 0
  ask : Price := 0
  bid_size : Qty := 0
  ask_size : Qty := 0
  text : String := ""
  deriving DecidableEq, Repr

/-- The network boundary over its own state `T`. It never blocks: `poll` takes
    what has arrived. -/
structure ILiveTransport (T : Type) where
  open_ : T → Result Bool × T
  close : T → T
  is_open : T → Bool
  send : T → String → Result Bool × T
  poll : T → List BrokerMessage × T

/-- A transport that hands over what it was given and fails when told to. -/
structure ScriptedTransport where
  inbound : List BrokerMessage := []
  sent : List String := []
  opens : Nat := 0
  fail_open : Bool := false
  fail_send : Bool := false
  opened : Bool := false
  deriving DecidableEq, Repr

def scripted : ILiveTransport ScriptedTransport where
  open_ t :=
    if t.fail_open then (.error (make_error .IoError "scripted open failure"), t)
    else (.ok true, { t with opened := true, opens := t.opens + 1 })
  close t := { t with opened := false }
  is_open t := t.opened
  send t payload :=
    if t.fail_send then (.error (make_error .IoError "scripted send failure"), t)
    else (.ok true, { t with sent := t.sent ++ [payload] })
  poll t := (t.inbound, { t with inbound := [] })

/-! ### Heartbeats -/

structure HeartbeatConfig where
  interval : Duration := 10000000000
  degraded_after : Duration := 20000000000
  dead_after : Duration := 45000000000
  deriving DecidableEq, Repr

structure HeartbeatMonitor where
  config : HeartbeatConfig := {}
  last_heartbeat : Timestamp := kNoTimestamp
  last_activity : Timestamp := kNoTimestamp
  beats : Nat := 0
  misses : Nat := 0
  deriving DecidableEq, Repr

def HeartbeatMonitor.record_heartbeat (h : HeartbeatMonitor) (now : Timestamp) : HeartbeatMonitor :=
  { h with last_heartbeat := now, last_activity := now, beats := h.beats + 1 }

/-- Any inbound message proves liveness. -/
def HeartbeatMonitor.record_activity (h : HeartbeatMonitor) (now : Timestamp) : HeartbeatMonitor :=
  { h with
    last_activity := now
    last_heartbeat := if ¬ is_set h.last_heartbeat then now else h.last_heartbeat }

def HeartbeatMonitor.since_last (h : HeartbeatMonitor) (now : Timestamp) : Duration :=
  let reference := if is_set h.last_activity then h.last_activity else h.last_heartbeat
  if ¬ is_set reference ∨ ¬ is_set now ∨ now < reference then 0 else now - reference

def HeartbeatMonitor.degraded (h : HeartbeatMonitor) (now : Timestamp) : Bool :=
  let elapsed := h.since_last now
  elapsed > h.config.degraded_after ∧ elapsed ≤ h.config.dead_after

def HeartbeatMonitor.dead (h : HeartbeatMonitor) (now : Timestamp) : Bool :=
  if ¬ is_set h.last_activity ∧ ¬ is_set h.last_heartbeat then false
  else h.since_last now > h.config.dead_after

def HeartbeatMonitor.note_miss (h : HeartbeatMonitor) : HeartbeatMonitor :=
  { h with misses := h.misses + 1 }

def HeartbeatMonitor.reset (h : HeartbeatMonitor) (now : Timestamp) : HeartbeatMonitor :=
  { h with last_heartbeat := now, last_activity := now }

/-! ### When to reconnect -/

structure SupervisorConfig where
  initial_backoff : Duration := 1000000000
  max_backoff : Duration := 60000000000
  backoff_multiplier : Rat := 2
  max_attempts : Nat := 10
  deriving DecidableEq, Repr

structure ConnectionSupervisor where
  config : SupervisorConfig := {}
  backoff : Duration := config.initial_backoff
  next_attempt : Timestamp := kNoTimestamp
  attempts : Nat := 0
  successes : Nat := 0
  deriving DecidableEq, Repr

def ConnectionSupervisor.exhausted (s : ConnectionSupervisor) : Bool :=
  s.config.max_attempts > 0 ∧ s.attempts ≥ s.config.max_attempts

/-- The first attempt is immediate. -/
def ConnectionSupervisor.should_attempt (s : ConnectionSupervisor) (now : Timestamp) : Bool :=
  if s.exhausted then false
  else if ¬ is_set s.next_attempt then true
  else is_set now ∧ now ≥ s.next_attempt

def ConnectionSupervisor.record_attempt (s : ConnectionSupervisor) (now : Timestamp) :
    ConnectionSupervisor :=
  let next := execution.truncate ((s.backoff : Rat) * s.config.backoff_multiplier)
  { s with
    attempts := s.attempts + 1
    next_attempt := if is_set now then now + s.backoff else s.next_attempt
    backoff := min next s.config.max_backoff }

def ConnectionSupervisor.record_success (s : ConnectionSupervisor) (now : Timestamp) :
    ConnectionSupervisor :=
  { s with
    successes := s.successes + 1
    attempts := 0
    backoff := s.config.initial_backoff
    next_attempt := now }

def ConnectionSupervisor.record_failure (s : ConnectionSupervisor) (now : Timestamp) :
    ConnectionSupervisor :=
  { s with next_attempt := if is_set now then now + s.backoff else s.next_attempt }

/-! ### The connection -/

structure ConnectionStats where
  connects : Nat := 0
  disconnects : Nat := 0
  reconnects : Nat := 0
  messages_received : Nat := 0
  duplicates_dropped : Nat := 0
  out_of_order_dropped : Nat := 0
  unknown_messages : Nat := 0
  deriving DecidableEq, Repr

/-- How many venue ids are remembered. -/
def kRecentIdCapacity : Nat := 4096

/-- How far ahead of the clock a venue may stamp a message. -/
def kSkewTolerance : Duration := 5000000000

structure LiveConnection where
  heartbeat : HeartbeatMonitor := {}
  supervisor : ConnectionSupervisor := {}
  state : ConnectionState := .Disconnected
  stats : ConnectionStats := {}
  last_sequence : UInt64 := 0
  recent_ids : List String := []
  deriving DecidableEq, Repr

def LiveConnection.trading_permitted (c : LiveConnection) : Bool := permits_trading c.state

def LiveConnection.restore_sequence (c : LiveConnection) (sequence : UInt64) : LiveConnection :=
  { c with last_sequence := sequence }

section Transport

variable {T : Type} (transport : ILiveTransport T)

/-- Connected is not ready: synchronisation must complete before any order is
    sent. -/
def LiveConnection.connect (c : LiveConnection) (t : T) (now : Timestamp) :
    Result Bool × LiveConnection × T :=
  if c.state = .Ready ∨ c.state = .Connected then (.ok true, c, t)
  else
    let c := { c with state := .Connecting, supervisor := c.supervisor.record_attempt now }
    match transport.open_ t with
    | (.error e, t) =>
      (.error e, { c with state := .Failed, supervisor := c.supervisor.record_failure now }, t)
    | (.ok _, t) =>
      (.ok true, { c with
        stats := { c.stats with connects := c.stats.connects + 1 }
        supervisor := c.supervisor.record_success now
        heartbeat := c.heartbeat.reset now
        state := .Synchronizing }, t)

def LiveConnection.disconnect (c : LiveConnection) (t : T) : LiveConnection × T :=
  if c.state = .Disconnected then (c, t)
  else
    ({ c with
      stats := { c.stats with disconnects := c.stats.disconnects + 1 }
      state := .Disconnected }, transport.close t)

/-- The sequence is not reset by a reconnect. -/
def LiveConnection.maybe_reconnect (c : LiveConnection) (t : T) (now : Timestamp) :
    Result Bool × LiveConnection × T :=
  if ¬ c.supervisor.should_attempt now then (.ok false, c, t)
  else if c.supervisor.exhausted then
    (.error (bad "reconnect attempts exhausted; manual intervention required"),
      { c with state := .Failed }, t)
  else
    match LiveConnection.connect transport { c with state := .Reconnecting } (transport.close t) now with
    | (.error e, c, t) => (.error e, c, t)
    | (.ok _, c, t) =>
      (.ok true, { c with stats := { c.stats with reconnects := c.stats.reconnects + 1 } }, t)

def LiveConnection.mark_synchronized (c : LiveConnection) : Result Bool × LiveConnection :=
  if c.state ≠ .Synchronizing ∧ c.state ≠ .Degraded then
    (.error (bad ("cannot mark synchronized from state " ++ c.state.to_string)), c)
  else (.ok true, { c with state := .Ready })

def LiveConnection.send (c : LiveConnection) (t : T) (payload : String) : Result Bool × T :=
  if ¬ permits_trading c.state then
    (.error (bad ("refusing to send while connection is " ++ c.state.to_string)), t)
  else transport.send t payload

/-- The state is looked at against the clock, so a silent venue is noticed. -/
def LiveConnection.tick (c : LiveConnection) (now : Timestamp) : LiveConnection :=
  if c.state = .Ready ∨ c.state = .Degraded then
    if c.heartbeat.dead now then
      { c with heartbeat := c.heartbeat.note_miss, state := .Reconnecting }
    else if c.heartbeat.degraded now then { c with state := .Degraded }
    else if c.state = .Degraded then { c with state := .Ready }
    else c
  else c

/-- The window of remembered ids with one more at its end. -/
def remember (ids : List String) (id : String) : List String :=
  let ids := ids ++ [id]
  if ids.length > kRecentIdCapacity then ids.tail else ids

/-- The connection with a message noted as seen, or nothing when it was seen
    before: by its sequence, or on an unsequenced stream by its venue id. -/
def LiveConnection.register (c : LiveConnection) (message : BrokerMessage) : Option LiveConnection :=
  if message.sequence ≠ 0 then
    if message.sequence ≤ c.last_sequence then none
    else some { c with last_sequence := message.sequence }
  else if message.venue_fill_id ≠ "" then
    if message.venue_fill_id ∈ c.recent_ids then none
    else some { c with recent_ids := remember c.recent_ids message.venue_fill_id }
  else some c

/-- A message stamped no further ahead of its receipt than is tolerated. -/
def BrokerMessage.inTime (message : BrokerMessage) (received : Timestamp) : Bool :=
  ¬ (is_set message.venue_time ∧ is_set received ∧ message.venue_time > received + kSkewTolerance)

/-- What `poll` does with a message it has stamped. One stamped too far ahead by
    the venue is dropped after it was noted as seen. -/
def LiveConnection.screen (c : LiveConnection) (message : BrokerMessage) :
    Option BrokerMessage × LiveConnection :=
  if message.kind = .Heartbeat then
    (none, { c with heartbeat := c.heartbeat.record_heartbeat message.received_time })
  else if message.kind = .Unknown then
    (none, { c with stats := { c.stats with unknown_messages := c.stats.unknown_messages + 1 } })
  else
    match c.register message with
    | none =>
      (none, { c with stats := { c.stats with duplicates_dropped := c.stats.duplicates_dropped + 1 } })
    | some c =>
      if ¬ message.inTime message.received_time then
        (none, { c with
          stats := { c.stats with out_of_order_dropped := c.stats.out_of_order_dropped + 1 } })
      else (some message, c)

/-- One message as `poll` takes it off the transport. -/
def LiveConnection.receive (c : LiveConnection) (now : Timestamp) (message : BrokerMessage) :
    Option BrokerMessage × LiveConnection :=
  LiveConnection.screen { c with
    stats := { c.stats with messages_received := c.stats.messages_received + 1 }
    heartbeat := c.heartbeat.record_activity now } { message with received_time := now }

/-- The messages of a batch that are accepted, in order. -/
def LiveConnection.receiveAll (c : LiveConnection) (now : Timestamp) :
    List BrokerMessage → List BrokerMessage × LiveConnection
  | [] => ([], c)
  | message :: rest =>
    let (accepted, c) := c.receive now message
    let (later, c) := c.receiveAll now rest
    (accepted.toList ++ later, c)

/-- Drain the transport. A transport that is closed is left alone. -/
def LiveConnection.poll (c : LiveConnection) (t : T) (now : Timestamp) :
    List BrokerMessage × LiveConnection × T :=
  if ¬ transport.is_open t then ([], c, t)
  else
    let (batch, t) := transport.poll t
    let (accepted, c) := c.receiveAll now batch
    (accepted, c, t)

end Transport

end ptl.live
