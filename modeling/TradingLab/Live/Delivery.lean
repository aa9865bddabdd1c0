import Mathlib.Tactic.Linarith
import TradingLab.Live.Connection
import TradingLab.Machine

namespace ptl.live

def BrokerMessage.is_fill (m : BrokerMessage) : Bool := m.kind = .PartialFill ∨ m.kind = .Fill

/-- What tells one fill message from another. -/
inductive FillId where
  | sequenced (sequence : UInt64)
  | unsequenced (venue_fill_id : String)
  deriving DecidableEq, Repr

def BrokerMessage.fillId (m : BrokerMessage) : FillId :=
  if m.sequence ≠ 0 then .sequenced m.sequence else .unsequenced m.venue_fill_id

/-- A fill message of this identity. -/
def BrokerMessage.Reports (m : BrokerMessage) (id : FillId) : Prop := m.is_fill = true ∧ m.fillId = id

instance (m : BrokerMessage) (id : FillId) : Decidable (m.Reports id) :=
  inferInstanceAs (Decidable (m.is_fill = true ∧ m.fillId = id))

/-- A message the transport hands over, with the clock at its receipt. -/
structure Delivery where
  now : Timestamp
  message : BrokerMessage
  deriving DecidableEq, Repr

def Delivery.inTime (d : Delivery) : Bool := d.message.inTime d.now

/-- A connection over its transport, with the venue sequence of the record its
    session last captured, and the history so far: everything delivered and
    accepted, and what this connection has taken since it was built. -/
structure Line (T : Type) where
  connection : LiveConnection := {}
  transport : T
  now : Timestamp := 0
  captured : UInt64 := 0
  recovered : UInt64 := 0
  delivered : List Delivery := []
  accepted : List BrokerMessage := []
  since : List BrokerMessage := []
  entered : List String := []

variable {T : Type}

/-- Whether a message puts its venue id into the window. -/
def LiveConnection.enters (c : LiveConnection) (m : BrokerMessage) : Bool :=
  m.kind ≠ .Heartbeat ∧ m.kind ≠ .Unknown ∧ m.sequence = 0 ∧ m.venue_fill_id ≠ "" ∧
    m.venue_fill_id ∉ c.recent_ids

open LiveConnection

/-- One message of a poll. -/
def Line.take (s : Line T) (m : BrokerMessage) : Line T :=
  { s with
    connection := (s.connection.receive s.now m).2
    delivered := s.delivered ++ [⟨s.now, m⟩]
    accepted := s.accepted ++ (s.connection.receive s.now m).1.toList
    since := s.since ++ [m]
    entered := s.entered ++ if s.connection.enters m then [m.venue_fill_id] else [] }

inductive LineMove (T : Type) where
  | venue (t : T)
  | clock (now : Timestamp)
  | connect
  | disconnect
  | maybe_reconnect
  | mark_synchronized
  | tick
  | poll
  | capture
  | restart

variable (transport : ILiveTransport T)

/-- What a poll takes off the transport. -/
def Line.batch (s : Line T) : List BrokerMessage :=
  if transport.is_open s.transport then (transport.poll s.transport).1 else []

/-- A restart builds a new connection and gives it the captured sequence. -/
def Line.restarted (s : Line T) : Line T :=
  { s with
    connection := restore_sequence {
      heartbeat := { config := s.connection.heartbeat.config }
      supervisor := { config := s.connection.supervisor.config } } s.captured
    recovered := s.captured
    since := []
    entered := [] }

def Line.step (s : Line T) : LineMove T → Line T
  | .venue t => { s with transport := t }
  | .clock now => { s with now }
  | .connect =>
    let (_, connection, t) := s.connection.connect transport s.transport s.now
    { s with connection, transport := t }
  | .disconnect =>
    let (connection, t) := s.connection.disconnect transport s.transport
    { s with connection, transport := t }
  | .maybe_reconnect =>
    let (_, connection, t) := s.connection.maybe_reconnect transport s.transport s.now
    { s with connection, transport := t }
  | .mark_synchronized => { s with connection := s.connection.mark_synchronized.2 }
  | .tick => { s with connection := s.connection.tick s.now }
  | .poll =>
    let after := (s.batch transport).foldl Line.take s
    { after with transport := (s.connection.poll transport s.transport s.now).2.2 }
  | .capture => { s with captured := s.connection.last_sequence }
  | .restart => s.restarted

/-- Every history of a connection: the venue and the clock move at will, the
    connection is lost and made again, its session is captured and restarted. -/
def lineMachine : Machine (Line T) (LineMove T) where
  Init s := ∃ heartbeat supervisor t now, s = {
    connection := { heartbeat := { config := heartbeat }, supervisor := { config := supervisor } }
    transport := t, now }
  step s l := some (s.step transport l)

/-- The history of a poll is what the connection's own `poll` does. -/
theorem Line.poll_eq (s : Line T) :
    (s.step transport .poll).connection = (s.connection.poll transport s.transport s.now).2.1 ∧
      (s.step transport .poll).accepted =
        s.accepted ++ (s.connection.poll transport s.transport s.now).1 := by
  have hfold : ∀ (batch : List BrokerMessage) (s : Line T),
      (batch.foldl Line.take s).connection = (s.connection.receiveAll s.now batch).2 ∧
        (batch.foldl Line.take s).accepted = s.accepted ++ (s.connection.receiveAll s.now batch).1 := by
    intro batch
    induction batch with
    | nil => simp [receiveAll]
    | cons m rest ih =>
      intro s
      obtain ⟨hconnection, haccepted⟩ := ih (s.take m)
      rw [List.foldl_cons, hconnection, haccepted]
      exact ⟨rfl, by simp [Line.take, receiveAll]⟩
  by_cases hopen : transport.is_open s.transport = true
  · obtain ⟨hconnection, haccepted⟩ := hfold (transport.poll s.transport).1 s
    simp only [Line.step, Line.batch, poll, hopen, if_true, not_true_eq_false, if_false,
      hconnection, haccepted, and_self]
  · simp [Line.step, Line.batch, poll, hopen]

/-! ### Exactly once -/

/-- First deliveries of sequenced messages come in increasing order. -/
def Line.InOrder (s : Line T) (m : BrokerMessage) : Prop :=
  m.sequence ≠ 0 →
    (∃ d ∈ s.delivered, d.message.sequence = m.sequence ∧ d.message.kind = m.kind) ∨
      ∀ d ∈ s.delivered, d.message.sequence < m.sequence

/-- What a fill message has to be for the connection to tell it from the others
    it has seen and to know it again. -/
structure Line.Knows (s : Line T) (m : BrokerMessage) : Prop where
  /-- An unsequenced fill carries an id, and no other kind of message has used it. -/
  named : m.sequence = 0 → m.venue_fill_id ≠ "" ∧
    ∀ d ∈ s.delivered, d.message.sequence = 0 → d.message.venue_fill_id = m.venue_fill_id →
      d.message.is_fill = true
  /-- A fill delivered in time was in time when it first came. -/
  first_in_time : m.inTime s.now = true →
    ∀ d ∈ s.delivered.find? fun d => d.message.Reports m.fillId, d.inTime = true
  /-- A sequenced fill that was accepted was captured before the last restart,
      or has come again since. -/
  captured : m.sequence ≠ 0 → (∃ a ∈ s.accepted, a.Reports m.fillId) →
    m.sequence ≤ s.recovered ∨ ∃ a ∈ s.since, a.Reports m.fillId
  /-- An unsequenced fill that was accepted is among the last ids to have come
      since the last restart, as many as the capacity. -/
  recent : m.sequence = 0 → (∃ a ∈ s.accepted, a.Reports m.fillId) →
    m.venue_fill_id ∈ s.entered.drop (s.entered.length - kRecentIdCapacity)

/-- A batch whose messages all meet a condition when their turn comes. -/
def Line.Every (P : Line T → BrokerMessage → Prop) : Line T → List BrokerMessage → Prop
  | _, [] => True
  | s, m :: rest => P s m ∧ Line.Every P (s.take m) rest

/-- A guard on what polls take. -/
def polls (P : Line T → BrokerMessage → Prop) (s : Line T) : LineMove T → Prop
  | .poll => s.Every P (s.batch transport)
  | _ => True

/-- Each fill is accepted at most once, and at least once if it ever came in
    time. -/
structure Line.ExactlyOnce (s : Line T) : Prop where
  at_most_once : ∀ id, (s.accepted.filter fun m => m.Reports id).length ≤ 1
  at_least_once : ∀ d ∈ s.delivered, d.message.is_fill = true → d.inTime = true →
    ∃ m ∈ s.accepted, m.Reports d.message.fillId

/-! ### What one message does -/

/-- The ways a message is screened. -/
inductive LiveConnection.Screened (c : LiveConnection) (m : BrokerMessage) :
    Option BrokerMessage → UInt64 → List String → Prop where
  | other (hkind : m.is_fill = false) (hnone : m.kind = .Heartbeat ∨ m.kind = .Unknown) :
      Screened c m none c.last_sequence c.recent_ids
  | repeated (hsequence : m.sequence ≠ 0) (hold : m.sequence ≤ c.last_sequence) :
      Screened c m none c.last_sequence c.recent_ids
  | next (hsequence : m.sequence ≠ 0) (hnew : ¬ m.sequence ≤ c.last_sequence) :
      Screened c m (if m.inTime m.received_time then some m else none) m.sequence c.recent_ids
  | known (hsequence : m.sequence = 0) (hid : m.venue_fill_id ≠ "") (hseen : m.venue_fill_id ∈ c.recent_ids) :
      Screened c m none c.last_sequence c.recent_ids
  | named (henters : c.enters m = true) :
      Screened c m (if m.inTime m.received_time then some m else none) c.last_sequence
        (remember c.recent_ids m.venue_fill_id)
  | unnamed (hsequence : m.sequence = 0) (hid : m.venue_fill_id = "") :
      Screened c m (if m.inTime m.received_time then some m else none) c.last_sequence c.recent_ids

theorem LiveConnection.screen_screened (c : LiveConnection) (m : BrokerMessage) :
    c.Screened m (c.screen m).1 (c.screen m).2.last_sequence (c.screen m).2.recent_ids := by
  by_cases hbeat : m.kind = .Heartbeat
  · rw [screen, if_pos hbeat]
    exact .other (by simp [BrokerMessage.is_fill, hbeat]) (.inl hbeat)
  by_cases hunknown : m.kind = .Unknown
  · rw [screen, if_neg hbeat, if_pos hunknown]
    exact .other (by simp [BrokerMessage.is_fill, hunknown]) (.inr hunknown)
  rw [screen, if_neg hbeat, if_neg hunknown]
  by_cases hsequence : m.sequence ≠ 0
  · by_cases hold : m.sequence ≤ c.last_sequence
    · rw [register, if_pos hsequence, if_pos hold]
      exact .repeated hsequence hold
    · rw [register, if_pos hsequence, if_neg hold]
      have hnext := LiveConnection.Screened.next hsequence hold
      by_cases hin : m.inTime m.received_time = true <;> simpa [hin] using hnext
  have hzero : m.sequence = 0 := not_not.mp hsequence
  by_cases hid : m.venue_fill_id ≠ ""
  · by_cases hseen : m.venue_fill_id ∈ c.recent_ids
    · rw [register, if_neg hsequence, if_pos hid, if_pos hseen]
      exact .known hzero hid hseen
    · rw [register, if_neg hsequence, if_pos hid, if_neg hseen]
      have henters : c.enters m = true := by
        simp [enters, hbeat, hunknown, hzero, hid, hseen]
      have hnamed := LiveConnection.Screened.named henters
      by_cases hin : m.inTime m.received_time = true <;> simpa [hin] using hnamed
  · rw [register, if_neg hsequence, if_neg hid]
    have hunnamed := LiveConnection.Screened.unnamed (c := c) hzero (not_not.mp hid)
    by_cases hin : m.inTime m.received_time = true <;> simpa [hin] using hunnamed

/-- The window holds the last ids that entered. -/
theorem remember_window (entered : List String) (id : String) :
    remember (entered.drop (entered.length - kRecentIdCapacity)) id =
      (entered ++ [id]).drop ((entered ++ [id]).length - kRecentIdCapacity) := by
  simp only [remember, List.length_append, List.length_drop, List.length_singleton]
  by_cases hroom : entered.length < kRecentIdCapacity
  · have hnone : entered.length - kRecentIdCapacity = 0 := by omega
    have hnone' : entered.length + 1 - kRecentIdCapacity = 0 := by omega
    rw [hnone, hnone', if_neg (by omega)]
    simp
  · have hfull : entered.length + 1 - kRecentIdCapacity = (entered.length - kRecentIdCapacity) + 1 := by
      omega
    rw [if_pos (by omega), hfull, ← List.drop_drop, List.drop_append_of_le_length (by omega),
      ← List.drop_one]

/-! ### What every history keeps -/

structure Line.Sound (s : Line T) : Prop where
  window : s.connection.recent_ids = s.entered.drop (s.entered.length - kRecentIdCapacity)
  recovered_le : s.recovered ≤ s.connection.last_sequence
  since_le : ∀ m ∈ s.since, m.is_fill = true → m.sequence ≤ s.connection.last_sequence
  high : s.connection.last_sequence = 0 ∨
    ∃ d ∈ s.delivered, d.message.sequence = s.connection.last_sequence
  captured : s.captured = 0 ∨ ∃ d ∈ s.delivered, d.message.sequence = s.captured
  entered : ∀ id ∈ s.entered, ∃ d ∈ s.delivered, d.message.sequence = 0 ∧ d.message.venue_fill_id = id
  at_most_once : ∀ id, (s.accepted.filter fun m => m.Reports id).length ≤ 1
  first_accepted : ∀ id, ∀ d ∈ s.delivered.find? fun d => d.message.Reports id, d.inTime = true →
    ∃ m ∈ s.accepted, m.Reports id
  first_in_time : ∀ d ∈ s.delivered, d.message.is_fill = true → d.inTime = true →
    ∀ e ∈ s.delivered.find? fun e => e.message.Reports d.message.fillId, e.inTime = true

theorem Line.Sound.exactlyOnce {s : Line T} (hsound : s.Sound) : s.ExactlyOnce where
  at_most_once := hsound.at_most_once
  at_least_once := by
    intro d hd hfill hin
    cases hfirst : s.delivered.find? fun e => e.message.Reports d.message.fillId with
    | none =>
      have hnot := List.find?_eq_none.mp hfirst d hd
      exact absurd (show d.message.Reports d.message.fillId from ⟨hfill, rfl⟩) (by simpa using hnot)
    | some e =>
      exact hsound.first_accepted _ e hfirst (hsound.first_in_time d hd hfill hin e hfirst)

/-- A message no fill before it shares its identity with is not taken for a
repetition. -/
theorem Line.Sound.fresh {s : Line T} {m : BrokerMessage} (hsound : s.Sound) (horder : s.InOrder m)
    (hknows : s.Knows m) (hfill : m.is_fill = true)
    (hfirst : ∀ d ∈ s.delivered, ¬ d.message.Reports m.fillId) :
    (m.sequence ≠ 0 → ¬ m.sequence ≤ s.connection.last_sequence) ∧
      (m.sequence = 0 → m.venue_fill_id ∉ s.connection.recent_ids) := by
  constructor
  · intro hsequence hold
    have hbelow : ∀ d ∈ s.delivered, d.message.sequence < m.sequence := by
      refine (horder hsequence).resolve_left ?_
      rintro ⟨d, hd, hsame, hkind⟩
      refine hfirst d hd ⟨?_, ?_⟩
      · simpa [BrokerMessage.is_fill, hkind] using hfill
      · simp [BrokerMessage.fillId, hsame, hsequence]
    rcases hsound.high with hzero | ⟨d, hd, hhigh⟩
    · rw [hzero, UInt64.le_zero_iff] at hold
      exact hsequence hold
    · have hlt := hbelow d hd
      rw [hhigh] at hlt
      exact absurd hold (UInt64.not_le.mpr hlt)
  · intro hsequence hseen
    rw [hsound.window] at hseen
    obtain ⟨d, hd, hzero, hid⟩ := hsound.entered _ (List.mem_of_mem_drop hseen)
    obtain ⟨-, hfills⟩ := hknows.named hsequence
    refine hfirst d hd ⟨hfills d hd hzero hid, ?_⟩
    simp [BrokerMessage.fillId, hsequence, hzero, hid]

/-- A fill that was accepted is taken for a repetition. -/
theorem Line.Sound.known {s : Line T} {m : BrokerMessage} (hsound : s.Sound) (hknows : s.Knows m)
    (haccepted : ∃ a ∈ s.accepted, a.Reports m.fillId) :
    (m.sequence ≠ 0 → m.sequence ≤ s.connection.last_sequence) ∧
      (m.sequence = 0 → m.venue_fill_id ∈ s.connection.recent_ids) := by
  constructor
  · intro hsequence
    rcases hknows.captured hsequence haccepted with hrecovered | ⟨a, ha, hfill, hid⟩
    · exact UInt64.le_trans hrecovered hsound.recovered_le
    · have hle := hsound.since_le a ha hfill
      have hsame : a.sequence = m.sequence := by
        simp only [BrokerMessage.fillId, if_pos hsequence] at hid
        split at hid
        · simpa using hid
        · cases hid
      rwa [hsame] at hle
  · intro hsequence
    rw [hsound.window]
    exact hknows.recent hsequence haccepted

@[simp] theorem reports_received (m : BrokerMessage) (now : Timestamp) (id : FillId) :
    ({ m with received_time := now } : BrokerMessage).Reports id ↔ m.Reports id :=
  Iff.rfl

theorem LiveConnection.Screened.congr {c c' : LiveConnection} {m : BrokerMessage}
    {accepted : Option BrokerMessage} {sequence : UInt64} {ids : List String}
    (hsequence : c.last_sequence = c'.last_sequence) (hids : c.recent_ids = c'.recent_ids)
    (hscreened : c.Screened m accepted sequence ids) : c'.Screened m accepted sequence ids := by
  have henters : c.enters m = c'.enters m := by rw [enters, hids, enters]
  cases hscreened with
  | other hkind hnone => rw [hsequence, hids]; exact .other hkind hnone
  | repeated hnonzero hold => rw [hids, hsequence]; exact .repeated hnonzero (hsequence ▸ hold)
  | next hnonzero hnew => rw [hids]; exact .next hnonzero (hsequence ▸ hnew)
  | known hzero hid hseen => rw [hsequence, hids]; exact .known hzero hid (hids ▸ hseen)
  | named hnamed => rw [hsequence, hids]; exact .named (henters ▸ hnamed)
  | unnamed hzero hid => rw [hsequence, hids]; exact .unnamed hzero hid

/-- What one message does to the history. -/
theorem Line.take_screened (s : Line T) (m : BrokerMessage) :
    ∃ accepted, s.connection.Screened { m with received_time := s.now } accepted
        (s.take m).connection.last_sequence (s.take m).connection.recent_ids ∧
      (s.take m).accepted = s.accepted ++ accepted.toList := by
  refine ⟨(s.connection.receive s.now m).1, ?_, rfl⟩
  have hscreened := screen_screened { s.connection with
    stats := { s.connection.stats with messages_received := s.connection.stats.messages_received + 1 }
    heartbeat := s.connection.heartbeat.record_activity s.now } { m with received_time := s.now }
  refine LiveConnection.Screened.congr ?_ ?_ hscreened <;> rfl

/-- A message that is no repetition is accepted if it comes in time, and at
least noted. -/
theorem LiveConnection.Screened.of_fresh {c : LiveConnection} {m : BrokerMessage}
    {accepted : Option BrokerMessage} {sequence : UInt64} {ids : List String}
    (hscreened : c.Screened m accepted sequence ids) (hfill : m.is_fill = true)
    (hhigh : m.sequence ≠ 0 → ¬ m.sequence ≤ c.last_sequence)
    (hwindow : m.sequence = 0 → m.venue_fill_id ∉ c.recent_ids) (hin : m.inTime m.received_time = true) :
    accepted = some m := by
  cases hscreened with
  | other hkind => rw [hkind] at hfill; cases hfill
  | repeated hsequence hold => exact absurd hold (hhigh hsequence)
  | next => rw [if_pos hin]
  | known hsequence _ hseen => exact absurd hseen (hwindow hsequence)
  | named => rw [if_pos hin]
  | unnamed => rw [if_pos hin]

/-- A repetition is not accepted. -/
theorem LiveConnection.Screened.of_known {c : LiveConnection} {m : BrokerMessage}
    {accepted : Option BrokerMessage} {sequence : UInt64} {ids : List String}
    (hscreened : c.Screened m accepted sequence ids) (hnamed : m.sequence = 0 → m.venue_fill_id ≠ "")
    (hhigh : m.sequence ≠ 0 → m.sequence ≤ c.last_sequence)
    (hwindow : m.sequence = 0 → m.venue_fill_id ∈ c.recent_ids) : accepted = none := by
  cases hscreened with
  | other => rfl
  | repeated => rfl
  | next hsequence hnew => exact absurd (hhigh hsequence) hnew
  | known => rfl
  | named henters =>
    simp only [enters, decide_eq_true_eq] at henters
    exact absurd (hwindow henters.2.2.1) henters.2.2.2.2
  | unnamed hsequence hid => exact absurd hid (hnamed hsequence)

theorem LiveConnection.Screened.accepted_eq {c : LiveConnection} {m a : BrokerMessage}
    {accepted : Option BrokerMessage} {sequence : UInt64} {ids : List String}
    (hscreened : c.Screened m accepted sequence ids) (hsome : accepted = some a) : a = m := by
  have hite : ∀ {b : Bool}, (if b then some m else none) = some a → a = m := by
    intro b hb
    cases b
    · cases hb
    · exact (Option.some.inj hb).symm
  cases hscreened with
  | other => cases hsome
  | repeated => cases hsome
  | next => exact hite hsome
  | known => cases hsome
  | named => exact hite hsome
  | unnamed => exact hite hsome

theorem LiveConnection.Screened.sequence_le {c : LiveConnection} {m : BrokerMessage}
    {accepted : Option BrokerMessage} {sequence : UInt64} {ids : List String}
    (hscreened : c.Screened m accepted sequence ids) :
    c.last_sequence ≤ sequence ∧ (m.is_fill = true → m.sequence ≤ sequence) ∧
      (sequence = c.last_sequence ∨ sequence = m.sequence) := by
  cases hscreened with
  | other hkind => exact ⟨UInt64.le_refl _, by simp [hkind], .inl rfl⟩
  | repeated _ hold => exact ⟨UInt64.le_refl _, fun _ => hold, .inl rfl⟩
  | next _ hnew => exact ⟨UInt64.le_of_lt (UInt64.not_le.mp hnew), fun _ => UInt64.le_refl _, .inr rfl⟩
  | known hsequence => exact ⟨UInt64.le_refl _, fun _ => by simp [hsequence], .inl rfl⟩
  | named henters =>
    simp only [enters, decide_eq_true_eq] at henters
    exact ⟨UInt64.le_refl _, fun _ => by simp [henters.2.2.1], .inl rfl⟩
  | unnamed hsequence => exact ⟨UInt64.le_refl _, fun _ => by simp [hsequence], .inl rfl⟩

/-- The window moves when the message enters it. -/
theorem LiveConnection.Screened.ids_eq {c : LiveConnection} {m : BrokerMessage}
    {accepted : Option BrokerMessage} {sequence : UInt64} {ids : List String}
    (hscreened : c.Screened m accepted sequence ids) :
    ids = if c.enters m then remember c.recent_ids m.venue_fill_id else c.recent_ids := by
  cases hscreened with
  | other _ hnone => rcases hnone with hkind | hkind <;> simp [enters, hkind]
  | repeated hsequence => simp [enters, hsequence]
  | next hsequence => simp [enters, hsequence]
  | known _ _ hseen => simp [enters, hseen]
  | named henters => rw [if_pos henters]
  | unnamed _ hid => simp [enters, hid]

/-- The first match in a list with one more entry. -/
theorem find_snoc {A : Type} {p : A → Bool} {l : List A} {a e : A} (hfirst : e ∈ (l ++ [a]).find? p) :
    e ∈ l.find? p ∨ l.find? p = none ∧ p a = true ∧ e = a := by
  rw [List.find?_append] at hfirst
  cases hold : l.find? p with
  | some e' =>
    rw [hold] at hfirst
    exact .inl hfirst
  | none =>
    rw [hold, Option.none_or] at hfirst
    simp only [List.find?_singleton, Option.mem_def, Option.ite_none_right_eq_some] at hfirst
    exact .inr ⟨rfl, hfirst.1, (Option.some.inj hfirst.2).symm⟩

section Take

variable {s : Line T} {m : BrokerMessage}

theorem Line.Sound.window_take (hsound : s.Sound) :
    (s.take m).connection.recent_ids = (s.take m).entered.drop ((s.take m).entered.length - kRecentIdCapacity) := by
  obtain ⟨accepted, hscreened, -⟩ := s.take_screened m
  have henters : s.connection.enters { m with received_time := s.now } = s.connection.enters m := rfl
  rw [hscreened.ids_eq, henters, hsound.window, Line.take]
  by_cases hnew : s.connection.enters m = true
  · simp only [hnew, if_true]
    exact remember_window s.entered m.venue_fill_id
  · simp only [hnew, Bool.false_eq_true, if_false, List.append_nil]

theorem Line.Sound.entered_take (hsound : s.Sound) :
    ∀ id ∈ (s.take m).entered, ∃ d ∈ (s.take m).delivered,
      d.message.sequence = 0 ∧ d.message.venue_fill_id = id := by
  intro id hid
  rcases List.mem_append.mp hid with hold | hnew
  · obtain ⟨d, hd, heq⟩ := hsound.entered id hold
    exact ⟨d, List.mem_append_left _ hd, heq⟩
  · by_cases henters : s.connection.enters m = true
    · rw [if_pos henters] at hnew
      cases List.mem_singleton.mp hnew
      simp only [enters, decide_eq_true_eq] at henters
      exact ⟨⟨s.now, m⟩, List.mem_append_right _ List.mem_cons_self, henters.2.2.1, rfl⟩
    · rw [if_neg henters] at hnew
      cases hnew

/-- A fill that was accepted is not accepted again. -/
theorem Line.Sound.at_most_once_take (hsound : s.Sound) (hknows : m.is_fill = true → s.Knows m) :
    ∀ id, ((s.take m).accepted.filter fun a => a.Reports id).length ≤ 1 := by
  obtain ⟨accepted, hscreened, haccepted⟩ := s.take_screened m
  intro id
  rw [haccepted, List.filter_append, List.length_append]
  cases hnew : accepted with
  | none => simpa using hsound.at_most_once id
  | some a =>
    by_cases hreports : a.Reports id
    · have hm : m.Reports id := by
        rw [hscreened.accepted_eq hnew] at hreports
        exact (reports_received m s.now id).mp hreports
      have hnone : s.accepted.filter (fun b => b.Reports id) = [] := by
        rw [List.filter_eq_nil_iff]
        intro b hb hsame
        obtain ⟨hfill, hid⟩ := hm
        have hknown := hsound.known (hknows hfill) ⟨b, hb, by simpa [hid] using hsame⟩
        have hrefused := hscreened.of_known (fun hzero => ((hknows hfill).named hzero).1) hknown.1 hknown.2
        rw [hrefused] at hnew
        cases hnew
      rw [hnone]
      simp [hreports]
    · have hfiltered : [a].filter (fun b => b.Reports id) = [] := by simp [hreports]
      rw [Option.toList_some, hfiltered]
      simpa using hsound.at_most_once id

/-- A fill that comes in time and for the first time is accepted. -/
theorem Line.Sound.first_accepted_take (hsound : s.Sound) (horder : s.InOrder m)
    (hknows : m.is_fill = true → s.Knows m) :
    ∀ id, ∀ d ∈ (s.take m).delivered.find? fun d => d.message.Reports id, d.inTime = true →
      ∃ a ∈ (s.take m).accepted, a.Reports id := by
  obtain ⟨accepted, hscreened, haccepted⟩ := s.take_screened m
  intro id d hd hin
  rw [haccepted]
  obtain hfirst | ⟨hfirst, hreports, rfl⟩ := find_snoc hd
  · obtain ⟨a, ha, hreports⟩ := hsound.first_accepted id d hfirst hin
    exact ⟨a, List.mem_append_left _ ha, hreports⟩
  · obtain ⟨hfill, hid⟩ : m.Reports id := of_decide_eq_true hreports
    have hnone : ∀ d ∈ s.delivered, ¬ d.message.Reports m.fillId := by
      intro d hd
      rw [hid]
      simpa using List.find?_eq_none.mp hfirst d hd
    have hfresh := hsound.fresh horder (hknows hfill) hfill hnone
    have hsome := hscreened.of_fresh hfill hfresh.1 hfresh.2 hin
    refine ⟨{ m with received_time := s.now }, List.mem_append_right _ ?_, hfill, hid⟩
    rw [hsome]
    exact List.mem_cons_self

/-- A fill that comes in time was in time when it first came. -/
theorem Line.Sound.first_in_time_take (hsound : s.Sound) (hknows : m.is_fill = true → s.Knows m) :
    ∀ d ∈ (s.take m).delivered, d.message.is_fill = true → d.inTime = true →
      ∀ e ∈ (s.take m).delivered.find? fun e => e.message.Reports d.message.fillId, e.inTime = true := by
  intro d hd hfill hin e he
  have hself : d.message.Reports d.message.fillId := ⟨hfill, rfl⟩
  obtain hfirst | ⟨hfirst, -, rfl⟩ := find_snoc he
  · rcases List.mem_append.mp hd with hold | hnew
    · exact hsound.first_in_time d hold hfill hin e hfirst
    · cases List.mem_singleton.mp hnew
      exact (hknows hfill).first_in_time hin e hfirst
  · rcases List.mem_append.mp hd with hold | hnew
    · exact absurd hself (by simpa using List.find?_eq_none.mp hfirst d hold)
    · cases List.mem_singleton.mp hnew
      exact hin

/-- Every message whose order the venue keeps and whose identity the connection
knows leaves a sound history. -/
theorem Line.Sound.take (hsound : s.Sound) (horder : s.InOrder m) (hknows : m.is_fill = true → s.Knows m) :
    (s.take m).Sound := by
  obtain ⟨accepted, hscreened, -⟩ := s.take_screened m
  obtain ⟨hgrows, hnoted, hhigh⟩ := hscreened.sequence_le
  refine {
    window := hsound.window_take
    recovered_le := UInt64.le_trans hsound.recovered_le hgrows
    since_le := ?since_le, high := ?high, captured := ?captured
    entered := hsound.entered_take
    at_most_once := hsound.at_most_once_take hknows
    first_accepted := hsound.first_accepted_take horder hknows
    first_in_time := hsound.first_in_time_take hknows }
  case since_le =>
    intro a ha hfill
    rcases List.mem_append.mp ha with hold | hnew
    · exact UInt64.le_trans (hsound.since_le a hold hfill) hgrows
    · cases List.mem_singleton.mp hnew
      exact hnoted hfill
  case high =>
    rcases hhigh with hsame | hnew
    · rw [hsame]
      refine hsound.high.imp_right ?_
      rintro ⟨d, hd, heq⟩
      exact ⟨d, List.mem_append_left _ hd, heq⟩
    · exact .inr ⟨⟨s.now, m⟩, List.mem_append_right _ List.mem_cons_self, hnew.symm⟩
  case captured =>
    refine hsound.captured.imp_right ?_
    rintro ⟨d, hd, heq⟩
    exact ⟨d, List.mem_append_left _ hd, heq⟩

end Take

/-- A history changed in nothing the accounting of fills reads is as sound. -/
theorem Line.Sound.congr {s t : Line T} (hsound : s.Sound)
    (hsequence : t.connection.last_sequence = s.connection.last_sequence)
    (hids : t.connection.recent_ids = s.connection.recent_ids) (hcaptured : t.captured = s.captured)
    (hrecovered : t.recovered = s.recovered) (hdelivered : t.delivered = s.delivered)
    (haccepted : t.accepted = s.accepted) (hsince : t.since = s.since) (hentered : t.entered = s.entered) :
    t.Sound := by
  obtain ⟨h₁, h₂, h₃, h₄, h₅, h₆, h₇, h₈, h₉⟩ := hsound
  constructor <;> simp only [hsequence, hids, hcaptured, hrecovered, hdelivered, haccepted, hsince, hentered] <;>
    assumption

variable {transport}

variable (transport) in
theorem LiveConnection.connect_memory (c : LiveConnection) (t : T) (now : Timestamp) :
    (c.connect transport t now).2.1.last_sequence = c.last_sequence ∧
      (c.connect transport t now).2.1.recent_ids = c.recent_ids := by
  unfold connect
  split
  · exact ⟨rfl, rfl⟩
  · dsimp only
    split <;> exact ⟨rfl, rfl⟩

variable (transport) in
theorem LiveConnection.maybe_reconnect_memory (c : LiveConnection) (t : T) (now : Timestamp) :
    (c.maybe_reconnect transport t now).2.1.last_sequence = c.last_sequence ∧
      (c.maybe_reconnect transport t now).2.1.recent_ids = c.recent_ids := by
  unfold maybe_reconnect
  split
  · exact ⟨rfl, rfl⟩
  · split
    · exact ⟨rfl, rfl⟩
    · have hconnect := connect_memory transport
        { c with state := .Reconnecting } (transport.close t) now
      split <;> rename_i heq <;> rw [heq] at hconnect <;> exact hconnect

variable (transport) in
theorem LiveConnection.disconnect_memory (c : LiveConnection) (t : T) :
    (c.disconnect transport t).1.last_sequence = c.last_sequence ∧
      (c.disconnect transport t).1.recent_ids = c.recent_ids := by
  unfold disconnect
  split <;> exact ⟨rfl, rfl⟩

theorem LiveConnection.mark_synchronized_memory (c : LiveConnection) :
    c.mark_synchronized.2.last_sequence = c.last_sequence ∧
      c.mark_synchronized.2.recent_ids = c.recent_ids := by
  unfold mark_synchronized
  split <;> exact ⟨rfl, rfl⟩

theorem LiveConnection.tick_memory (c : LiveConnection) (now : Timestamp) :
    (c.tick now).last_sequence = c.last_sequence ∧ (c.tick now).recent_ids = c.recent_ids := by
  unfold tick
  split
  · split
    · exact ⟨rfl, rfl⟩
    · split
      · exact ⟨rfl, rfl⟩
      · split <;> exact ⟨rfl, rfl⟩
  · exact ⟨rfl, rfl⟩

/-- Deliveries in the venue's order of messages the connection can tell apart
and has not forgotten. -/
def Line.Orderly (s : Line T) (m : BrokerMessage) : Prop :=
  s.InOrder m ∧ (m.is_fill = true → s.Knows m)

theorem Line.Sound.takeAll {s : Line T} {batch : List BrokerMessage} (hsound : s.Sound)
    (hevery : s.Every Line.Orderly batch) : (batch.foldl Line.take s).Sound := by
  induction batch generalizing s with
  | nil => exact hsound
  | cons m rest ih =>
    obtain ⟨⟨horder, hknows⟩, hrest⟩ := hevery
    exact ih (hsound.take horder hknows) hrest

/-- A restart forgets the window and goes back to the captured sequence. -/
theorem Line.Sound.restarted {s : Line T} (hsound : s.Sound) : s.restarted.Sound where
  window := by simp [Line.restarted, restore_sequence]
  recovered_le := UInt64.le_refl _
  since_le := by simp [Line.restarted]
  high := hsound.captured
  captured := hsound.captured
  entered := by simp [Line.restarted]
  at_most_once := hsound.at_most_once
  first_accepted := hsound.first_accepted
  first_in_time := hsound.first_in_time

theorem lineMachine_sound {s : Line T}
    (hreach : (lineMachine transport).Reaches (polls transport Line.Orderly) s) : s.Sound := by
  refine hreach.invariant ?_ ?_
  · rintro s ⟨heartbeat, supervisor, t, now, rfl⟩
    constructor <;> simp
  · intro s l t _ hsound hguard hstep
    cases hstep
    cases l with
    | venue t => exact hsound.congr rfl rfl rfl rfl rfl rfl rfl rfl
    | clock now => exact hsound.congr rfl rfl rfl rfl rfl rfl rfl rfl
    | connect =>
      obtain ⟨hsequence, hids⟩ := connect_memory transport
        s.connection s.transport s.now
      exact hsound.congr hsequence hids rfl rfl rfl rfl rfl rfl
    | disconnect =>
      obtain ⟨hsequence, hids⟩ := disconnect_memory transport
        s.connection s.transport
      exact hsound.congr hsequence hids rfl rfl rfl rfl rfl rfl
    | maybe_reconnect =>
      obtain ⟨hsequence, hids⟩ := maybe_reconnect_memory transport
        s.connection s.transport s.now
      exact hsound.congr hsequence hids rfl rfl rfl rfl rfl rfl
    | mark_synchronized =>
      obtain ⟨hsequence, hids⟩ := s.connection.mark_synchronized_memory
      exact hsound.congr hsequence hids rfl rfl rfl rfl rfl rfl
    | tick =>
      obtain ⟨hsequence, hids⟩ := s.connection.tick_memory s.now
      exact hsound.congr hsequence hids rfl rfl rfl rfl rfl rfl
    | poll => exact (hsound.takeAll hguard).congr rfl rfl rfl rfl rfl rfl rfl rfl
    | capture => exact { hsound with captured := hsound.high }
    | restart => exact hsound.restarted

/-- Each fill is accepted exactly once in every history, with any reconnects and
restarts, whose deliveries come in the venue's order, whose fills were in time
when they first came, and which repeats no fill the connection has forgotten: by
a restart after it was last captured, or by a full window of other ids. -/
theorem lineMachine_exactly_once {s : Line T}
    (hreach : (lineMachine transport).Reaches (polls transport Line.Orderly) s) : s.ExactlyOnce :=
  (lineMachine_sound hreach).exactlyOnce

/-! ### Concrete histories -/

instance (s : Line T) (m : BrokerMessage) : Decidable (s.InOrder m) :=
  inferInstanceAs (Decidable (m.sequence ≠ 0 →
    (∃ d ∈ s.delivered, d.message.sequence = m.sequence ∧ d.message.kind = m.kind) ∨
      ∀ d ∈ s.delivered, d.message.sequence < m.sequence))

instance (s : Line T) (m : BrokerMessage) : Decidable (s.Knows m) :=
  decidable_of_iff
    ((m.sequence = 0 → m.venue_fill_id ≠ "" ∧
        ∀ d ∈ s.delivered, d.message.sequence = 0 → d.message.venue_fill_id = m.venue_fill_id →
          d.message.is_fill = true) ∧
      (m.inTime s.now = true →
        ∀ d ∈ s.delivered.find? fun d => d.message.Reports m.fillId, d.inTime = true) ∧
      (m.sequence ≠ 0 → (∃ a ∈ s.accepted, a.Reports m.fillId) →
        m.sequence ≤ s.recovered ∨ ∃ a ∈ s.since, a.Reports m.fillId) ∧
      (m.sequence = 0 → (∃ a ∈ s.accepted, a.Reports m.fillId) →
        m.venue_fill_id ∈ s.entered.drop (s.entered.length - kRecentIdCapacity)))
    ⟨fun ⟨h₁, h₂, h₃, h₄⟩ => ⟨h₁, h₂, h₃, h₄⟩, fun ⟨h₁, h₂, h₃, h₄⟩ => ⟨h₁, h₂, h₃, h₄⟩⟩

instance (s : Line T) (m : BrokerMessage) : Decidable (s.Orderly m) :=
  inferInstanceAs (Decidable (s.InOrder m ∧ (m.is_fill = true → s.Knows m)))

instance decidableEvery (P : Line T → BrokerMessage → Prop) [hdecidable : ∀ s m, Decidable (P s m)] :
    (s : Line T) → (batch : List BrokerMessage) → Decidable (s.Every P batch)
  | _, [] => isTrue trivial
  | s, m :: rest =>
    have := decidableEvery P (s.take m) rest
    inferInstanceAs (Decidable (P s m ∧ Line.Every P (s.take m) rest))

instance (P : Line T → BrokerMessage → Prop) [∀ s m, Decidable (P s m)] (s : Line T) (l : LineMove T) :
    Decidable (polls transport P s l) :=
  match l with
  | .poll => inferInstanceAs (Decidable (s.Every P (s.batch transport)))
  | .venue _ | .clock _ | .connect | .disconnect | .maybe_reconnect | .mark_synchronized | .tick
  | .capture | .restart => inferInstanceAs (Decidable True)

def quietLine : Line ScriptedTransport := { transport := {} }

theorem quietLine_reaches {G : Line ScriptedTransport → LineMove ScriptedTransport → Prop} :
    (lineMachine scripted).Reaches G quietLine :=
  .init ⟨{}, {}, {}, 0, rfl⟩

/-- The venue hands over one message, and the connection polls. -/
def hand (m : BrokerMessage) : List (LineMove ScriptedTransport) :=
  [.venue { opened := true, inbound := [m] }, .poll]

/-- A fill on an unsequenced stream. -/
def namedFill : BrokerMessage :=
  { kind := .Fill, venue_fill_id := "vf-1", client_order_id := "ptl-1", quantity := 10, price := 100 }

/-- A fill its venue stamped ten seconds ahead. -/
def earlyFill : BrokerMessage := { namedFill with sequence := 1, venue_time := 10000000000 }

/-- A sequenced fill is taken, captured and delivered again after a restart, and
an unsequenced one is delivered twice. -/
theorem lineMachine_exactly_once_restart :
    ∃ s, s.delivered.length = 4 ∧ s.accepted.length = 2 ∧ Line.ExactlyOnce (T := ScriptedTransport) s := by
  obtain ⟨s, hreach, hlengths⟩ := quietLine_reaches.exec_map (G := polls scripted Line.Orderly)
    (hand { namedFill with sequence := 1 } ++ [.capture, .restart, .connect] ++
      hand { namedFill with sequence := 1 } ++ hand { namedFill with venue_fill_id := "vf-2" } ++
      hand { namedFill with venue_fill_id := "vf-2" })
    (fun s => (s.delivered.length, s.accepted.length)) (b := (4, 2))
    (by decide +kernel) (by decide +kernel)
  simp only [Prod.mk.injEq] at hlengths
  exact ⟨s, hlengths.1, hlengths.2, lineMachine_exactly_once hreach⟩

/-- A session that restarts takes an unsequenced fill a second time, and a fill
that was first stamped too far ahead is never taken. -/
theorem lineMachine_repeats_and_loses :
    (∃ s, (lineMachine scripted).Reaches (polls scripted Line.InOrder) s ∧
      1 < (s.accepted.filter fun m => m.Reports namedFill.fillId).length) ∧
    ∃ s, (lineMachine scripted).Reaches (polls scripted Line.InOrder) s ∧
      ∃ d ∈ s.delivered, d.message.is_fill = true ∧ d.inTime = true ∧
        ∀ m ∈ s.accepted, ¬ m.Reports d.message.fillId := by
  constructor
  · obtain ⟨s, hreach, htwice⟩ := quietLine_reaches.exec_map (G := polls scripted Line.InOrder)
      (hand namedFill ++ [.capture, .restart, .connect] ++ hand namedFill)
      (fun s => (s.accepted.filter fun m => m.Reports namedFill.fillId).length) (b := 2)
      (by decide +kernel) (by decide +kernel)
    exact ⟨s, hreach, by rw [htwice]; decide⟩
  · obtain ⟨s, hreach, hlost⟩ := quietLine_reaches.exec_map (G := polls scripted Line.InOrder)
      (hand earlyFill ++ [.clock 10000000000] ++ hand earlyFill)
      (fun s => (s.delivered, s.accepted)) (b := ([⟨0, earlyFill⟩, ⟨10000000000, earlyFill⟩], []))
      (by decide +kernel) (by decide +kernel)
    simp only [Prod.mk.injEq] at hlost
    exact ⟨s, hreach, ⟨10000000000, earlyFill⟩, by simp [hlost.1], by decide +kernel, by decide +kernel,
      by simp [hlost.2]⟩

end ptl.live
