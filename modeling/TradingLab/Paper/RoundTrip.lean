import TradingLab.Core.Json.Reading
import TradingLab.Paper.State

/-! What is read back of a written session record. -/

namespace ptl.paper

variable {D : Type} [Zero D] (fmt : DoubleFormat D)

/-! ### The written text as tokens -/

def AccountSnapshot.tokens (a : AccountSnapshot D) : List Token :=
  [.raw ['{'], .key "ts", .raw [' '], .str (iso_or_empty a.ts).toList ',', .raw [' '],
    .key "status", .raw [' '], .str a.status.to_string.toList ',', .raw [' '],
    .key "cash", .bare (fmt.num a.cash) [',', ' '],
    .key "equity", .bare (fmt.num a.equity) [',', ' '],
    .key "position_value", .bare (fmt.num a.position_value) [',', ' '],
    .key "realized_pnl", .bare (fmt.num a.realized_pnl) [',', ' '],
    .key "unrealized_pnl", .bare (fmt.num a.unrealized_pnl) [',', ' '],
    .key "total_costs", .bare (fmt.num a.total_costs) [',', ' '],
    .key "gross_exposure", .bare (fmt.num a.gross_exposure) [',', ' '],
    .key "net_exposure", .bare (fmt.num a.net_exposure) [',', ' '],
    .key "maintenance_requirement", .bare (fmt.num a.maintenance_requirement) [',', ' '],
    .key "margin_excess", .bare (fmt.num a.margin_excess) [',', ' '],
    .key "available_buying_power", .bare (fmt.num a.available_buying_power) ['}']]

def PersistedPosition.tokens (p : PersistedPosition D) : List Token :=
  [.raw ['{'], .key "instrument", .bare (toString p.instrument) [',', ' '],
    .key "quantity", .bare (fmt.num p.quantity) [',', ' '],
    .key "average_cost", .bare (fmt.num p.average_cost) [',', ' '],
    .key "realized_pnl", .bare (fmt.num p.realized_pnl) ['}']]

def PersistedOrder.tokens (o : PersistedOrder D) : List Token :=
  [.raw ['{'], .key "order_id", .bare (toString o.order_id) [',', ' '],
    .key "instrument", .bare (toString o.instrument) [',', ' '],
    .key "side", .bare (toString o.side) [',', ' '],
    .key "quantity", .bare (fmt.num o.quantity) [',', ' '],
    .key "filled", .bare (fmt.num o.filled) ['}']]

def SessionState.header (s : SessionState D) : List Token :=
  [.raw ['{'], .key "session_id", .raw [' '], .str (escape s.session_id.toList) ',', .raw [' '],
    .key "sequence", .bare (toString s.sequence) [',', ' '],
    .key "phase", .raw [' '], .str s.phase.to_string.toList ',', .raw [' '],
    .key "saved_at", .raw [' '], .str (iso_or_empty s.saved_at).toList ',', .raw [' '],
    .key "config_fingerprint", .raw [' '], .str (hex16 s.config_fingerprint).toList ',', .raw [' '],
    .key "events_processed", .bare (toString s.events_processed) [',', ' '],
    .key "last_event_time", .raw [' '], .str (iso_or_empty s.last_event_time).toList ',', .raw [' '],
    .key "fills_received", .bare (toString s.fills_received) [',', ' '],
    .key "orders_submitted", .bare (toString s.orders_submitted) [',', ' '],
    .key "account", .raw [' ']]

def SessionState.tail (s : SessionState D) : List Token :=
  [.raw [']', ',', ' '], .key "checksum", .raw [' '], .str (hex16 (s.checksum fmt.bits)).toList '}']

def SessionState.orders (s : SessionState D) : List Token :=
  [.raw [',', ' ']].intercalate (s.working_orders.map (PersistedOrder.tokens fmt))

def SessionState.held (s : SessionState D) : List Token :=
  [.raw [',', ' ']].intercalate (s.positions.map (PersistedPosition.tokens fmt))

def SessionState.tokens (s : SessionState D) : List Token :=
  s.header ++ (s.account.tokens fmt ++ (.raw [',', ' '] :: .key "positions" :: .raw [' ', '['] ::
    (s.held fmt ++ (.raw [']', ',', ' '] :: .key "working_orders" :: .raw [' ', '['] ::
      (s.orders fmt ++ s.tail fmt)))))

section Text

set_option maxRecDepth 8000 in
theorem AccountSnapshot.toList_to_json (a : AccountSnapshot D) :
    (a.to_json fmt).toList = render (a.tokens fmt) := by
  unfold AccountSnapshot.to_json AccountSnapshot.tokens
  simp only [String.toList_append, String.reduceToList, render_cons, render_nil, Token.text, Token.bare,
    quoted]
  simp only [List.append_assoc, List.cons_append, List.nil_append, List.append_nil]

theorem PersistedPosition.toList_to_json (p : PersistedPosition D) :
    (p.to_json fmt).toList = render (p.tokens fmt) := by
  unfold PersistedPosition.to_json PersistedPosition.tokens
  simp only [String.toList_append, String.reduceToList, render_cons, render_nil, Token.text, Token.bare,
    quoted]
  simp only [List.append_assoc, List.cons_append, List.nil_append, List.append_nil]

theorem PersistedOrder.toList_to_json (o : PersistedOrder D) :
    (o.to_json fmt).toList = render (o.tokens fmt) := by
  unfold PersistedOrder.to_json PersistedOrder.tokens
  simp only [String.toList_append, String.reduceToList, render_cons, render_nil, Token.text, Token.bare,
    quoted]
  simp only [List.append_assoc, List.cons_append, List.nil_append, List.append_nil]

set_option maxRecDepth 8000 in
theorem SessionState.toList_to_json (s : SessionState D) :
    (s.to_json fmt).toList = render (s.tokens fmt) := by
  unfold SessionState.to_json SessionState.tokens SessionState.header SessionState.tail
  simp only [String.toList_append, AccountSnapshot.toList_to_json,
    toList_intercalate_written (PersistedPosition.toList_to_json fmt),
    toList_intercalate_written (PersistedOrder.toList_to_json fmt), json_escape, String.toList_ofList,
    render_append, render_cons, render_nil, Token.text, Token.bare, quoted]
  simp only [String.reduceToList]
  simp only [List.append_assoc, List.cons_append, List.nil_append, List.append_nil, SessionState.held,
    SessionState.orders]

end Text

/-! ### The text is well formed -/

section Formed

variable {fmt} (hexact : fmt.Exact)
include hexact

theorem AccountSnapshot.formed (a : AccountSnapshot D) : Formed (a.tokens fmt) := by
  have hnum := hexact.bare
  have hstatus : Unescaped a.status.to_string.toList := by cases a.status <;> decide
  exact .raw (by decide) <| .text (by decide) (unescaped_iso _) (.inl rfl) <| .raw (by decide) <|
    .text (by decide) hstatus (.inl rfl) <| .raw (by decide) <|
    .bare (by decide) (hnum _) (by decide) <| .bare (by decide) (hnum _) (by decide) <|
    .bare (by decide) (hnum _) (by decide) <| .bare (by decide) (hnum _) (by decide) <|
    .bare (by decide) (hnum _) (by decide) <| .bare (by decide) (hnum _) (by decide) <|
    .bare (by decide) (hnum _) (by decide) <| .bare (by decide) (hnum _) (by decide) <|
    .bare (by decide) (hnum _) (by decide) <| .bare (by decide) (hnum _) (by decide) <|
    .bare (by decide) (hnum _) (by decide) .nil

theorem PersistedPosition.formed (p : PersistedPosition D) : Formed (p.tokens fmt) := by
  have hnum := hexact.bare
  exact .raw (by decide) <| .bare (by decide) (bare_toString p.instrument.toNat) (by decide) <|
    .bare (by decide) (hnum _) (by decide) <| .bare (by decide) (hnum _) (by decide) <|
    .bare (by decide) (hnum _) (by decide) .nil

theorem PersistedOrder.formed (o : PersistedOrder D) : Formed (o.tokens fmt) := by
  have hnum := hexact.bare
  exact .raw (by decide) <| .bare (by decide) (bare_toString o.order_id.toNat) (by decide) <|
    .bare (by decide) (bare_toString o.instrument.toNat) (by decide) <|
    .bare (by decide) (bare_toString o.side.toNat) (by decide) <|
    .bare (by decide) (hnum _) (by decide) <| .bare (by decide) (hnum _) (by decide) .nil

omit hexact in
theorem SessionState.formed_header (s : SessionState D) : Formed s.header := by
  have hphase : Unescaped s.phase.to_string.toList := by cases s.phase <;> decide
  exact .raw (by decide) <| .escaped (by decide) (.inl rfl) <| .raw (by decide) <|
    .bare (by decide) (bare_toString s.sequence.toNat) (by decide) <|
    .text (by decide) hphase (.inl rfl) <| .raw (by decide) <|
    .text (by decide) (unescaped_iso _) (.inl rfl) <| .raw (by decide) <|
    .text (by decide) (unescaped_hex16 _) (.inl rfl) <| .raw (by decide) <|
    .bare (by decide) (bare_toString s.events_processed.toNat) (by decide) <|
    .text (by decide) (unescaped_iso _) (.inl rfl) <| .raw (by decide) <|
    .bare (by decide) (bare_toString s.fills_received.toNat) (by decide) <|
    .bare (by decide) (bare_toString s.orders_submitted.toNat) (by decide) <|
    .key (by decide) <| .raw (by decide) .nil

theorem SessionState.formed (s : SessionState D) : Formed (s.tokens fmt) :=
  s.formed_header.append <| (s.account.formed hexact).append <| .raw (by decide) <| .key (by decide) <|
    .raw (by decide) <| (Formed.intercalate fun p _ => p.formed hexact).append <| .raw (by decide) <|
    .key (by decide) <| .raw (by decide) <| (Formed.intercalate fun o _ => o.formed hexact).append <|
    .raw (by decide) <| .text (by decide) (unescaped_hex16 _) (.inr rfl) .nil

end Formed

/-! ### What is read -/

/-- What a record keeps of a state: all but the phase and the account figures
other than cash and equity. -/
def SessionState.restored (s : SessionState D) : SessionState D :=
  { s with
    phase := .Running
    account := { cash := s.account.cash, equity := s.account.equity } }

/-- Finite doubles, and timestamps of 64 bits. -/
structure SessionState.Storable (s : SessionState D) : Prop where
  cash : fmt.is_finite s.account.cash = true
  equity : fmt.is_finite s.account.equity = true
  positions : ∀ p ∈ s.positions, fmt.is_finite p.quantity = true ∧
    fmt.is_finite p.average_cost = true ∧ fmt.is_finite p.realized_pnl = true
  working_orders : ∀ o ∈ s.working_orders, fmt.is_finite o.quantity = true ∧
    fmt.is_finite o.filled = true
  saved_at : -2 ^ 63 ≤ s.saved_at ∧ s.saved_at < 2 ^ 63
  last_event_time : -2 ^ 63 ≤ s.last_event_time ∧ s.last_event_time < 2 ^ 63

section Reading

variable {fmt} (hexact : fmt.Exact)
include hexact

theorem read_position_to_json {p : PersistedPosition D} (hquantity : fmt.is_finite p.quantity = true)
    (hcost : fmt.is_finite p.average_cost = true) (hrealized : fmt.is_finite p.realized_pnl = true) :
    read_position fmt (p.to_json fmt).toList = some p := by
  have hformed := p.formed hexact
  have hinstrument := hformed.object_nat "instrument" (n := p.instrument.toNat) (by decide)
    (by have hlt := p.instrument.toNat_lt; omega) (d := ',') (by decide) rfl
  have hquantity := hformed.object_double "quantity" (by decide) hexact hquantity (d := ',')
    (by decide) rfl
  have hcost := hformed.object_double "average_cost" (by decide) hexact hcost (d := ',')
    (by decide) rfl
  have hrealized := hformed.object_double "realized_pnl" (by decide) hexact hrealized (d := '}')
    (by decide) rfl
  rw [read_position, PersistedPosition.toList_to_json, hinstrument, hquantity, hcost, hrealized]
  simp

theorem read_order_to_json {o : PersistedOrder D} (hquantity : fmt.is_finite o.quantity = true)
    (hfilled : fmt.is_finite o.filled = true) : read_order fmt (o.to_json fmt).toList = some o := by
  have hformed := o.formed hexact
  have hid := hformed.object_nat "order_id" (n := o.order_id.toNat) (by decide)
    o.order_id.toNat_lt (d := ',') (by decide) rfl
  have hinstrument := hformed.object_nat "instrument" (n := o.instrument.toNat) (by decide)
    (by have hlt := o.instrument.toNat_lt; omega) (d := ',') (by decide) rfl
  have hside : (object_field (render (o.tokens fmt)) "side").bind stoi = some (o.side.toNat : Int) := by
    rw [object_field_bare (by decide) hformed (show Bare (toString o.side).toList from
      bare_toString o.side.toNat) (d := ',') (by decide) rfl, Option.bind_some]
    exact stoi_toString (by have hlt := o.side.toNat_lt; omega)
  have hquantity := hformed.object_double "quantity" (by decide) hexact hquantity (d := ',')
    (by decide) rfl
  have hfilled := hformed.object_double "filled" (by decide) hexact hfilled (d := '}')
    (by decide) rfl
  rw [read_order, PersistedOrder.toList_to_json, hid, hinstrument, hside, hquantity, hfilled]
  have hcast : UInt8.ofInt (o.side.toNat : Int) = o.side := by
    have hlt := o.side.toNat_lt
    rw [UInt8.ofInt, Int.emod_eq_of_lt (by omega) (by omega), Int.toNat_natCast, UInt8.ofNat_toNat]
  simp [hcast]

theorem isObject_position (p : PersistedPosition D) : IsObject (p.to_json fmt).toList := by
  rw [PersistedPosition.toList_to_json]
  refine isObject_entries [("instrument", toString p.instrument),
    ("quantity", fmt.num p.quantity), ("average_cost", fmt.num p.average_cost)] ?_ (by decide)
    (hexact.bare p.realized_pnl)
  simp only [List.forall_mem_cons, hexact.bare, List.not_mem_nil, false_imp_iff, implies_true, and_true]
  exact ⟨⟨by decide, bare_toString p.instrument.toNat⟩, by decide, by decide⟩

theorem isObject_order (o : PersistedOrder D) : IsObject (o.to_json fmt).toList := by
  rw [PersistedOrder.toList_to_json]
  refine isObject_entries [("order_id", toString o.order_id),
    ("instrument", toString o.instrument), ("side", toString o.side),
    ("quantity", fmt.num o.quantity)] ?_ (by decide) (hexact.bare o.filled)
  simp only [List.forall_mem_cons, hexact.bare, List.not_mem_nil, false_imp_iff, implies_true, and_true]
  exact ⟨⟨by decide, bare_toString o.order_id.toNat⟩, ⟨by decide, bare_toString o.instrument.toNat⟩,
    ⟨by decide, bare_toString o.side.toNat⟩, by decide⟩

theorem read_positions (s : SessionState D) (hstorable : s.Storable fmt) :
    (read_array (render (s.tokens fmt)) "positions").filterMap (read_position fmt) = s.positions := by
  have hseek : seek "positions" (s.tokens fmt) = some (.raw [' ', '['] :: (s.held fmt ++
      (.raw [']', ',', ' '] :: .key "working_orders" :: .raw [' ', '['] ::
        (s.orders fmt ++ s.tail fmt)))) := rfl
  refine ((s.formed hexact).array (f := PersistedPosition.tokens fmt) (g := id) (by decide) hseek
    (fun p _ => ?_) fun p hp => ?_).trans (List.map_id _)
  · rw [← PersistedPosition.toList_to_json]
    exact isObject_position hexact p
  · obtain ⟨hquantity, hcost, hrealized⟩ := hstorable.positions p hp
    rw [← PersistedPosition.toList_to_json]
    exact read_position_to_json hexact hquantity hcost hrealized

omit hexact in
theorem not_key_position {key : String} (hkey : key ∉ ["instrument", "quantity", "average_cost", "realized_pnl"])
    (p : PersistedPosition D) : ∀ t ∈ p.tokens fmt, t ≠ .key key := by
  simp only [List.mem_cons, List.not_mem_nil, or_false, not_or] at hkey
  simp [PersistedPosition.tokens, Token.bare, eq_comm, hkey]

omit hexact in
theorem not_key_order {key : String} (hkey : key ∉ ["order_id", "instrument", "side", "quantity", "filled"])
    (o : PersistedOrder D) : ∀ t ∈ o.tokens fmt, t ≠ .key key := by
  simp only [List.mem_cons, List.not_mem_nil, or_false, not_or] at hkey
  simp [PersistedOrder.tokens, Token.bare, eq_comm, hkey]

omit hexact in
/-- Past the positions. -/
theorem SessionState.seek_orders (s : SessionState D) : seek "working_orders" (s.tokens fmt) =
    some (.raw [' ', '['] :: (s.orders fmt ++ s.tail fmt)) :=
  seek_intercalate (fun p _ => not_key_position (by decide) p)
    (.raw [']', ',', ' '] :: .key "working_orders" :: .raw [' ', '['] :: (s.orders fmt ++ s.tail fmt))

omit hexact in
/-- Past the positions and the orders. -/
theorem SessionState.seek_checksum (s : SessionState D) : seek "checksum" (s.tokens fmt) =
    some [.raw [' '], .str (hex16 (s.checksum fmt.bits)).toList '}'] :=
  (seek_intercalate (fun p _ => not_key_position (by decide) p)
    (.raw [']', ',', ' '] :: .key "working_orders" :: .raw [' ', '['] ::
      (s.orders fmt ++ s.tail fmt))).trans
    (seek_intercalate (fun o _ => not_key_order (by decide) o) (s.tail fmt))

theorem read_orders (s : SessionState D) (hstorable : s.Storable fmt) :
    (read_array (render (s.tokens fmt)) "working_orders").filterMap (read_order fmt) =
      s.working_orders := by
  refine ((s.formed hexact).array (f := PersistedOrder.tokens fmt) (g := id) (by decide) s.seek_orders
    (fun o _ => ?_) fun o ho => ?_).trans (List.map_id _)
  · rw [← PersistedOrder.toList_to_json]
    exact isObject_order hexact o
  · obtain ⟨hquantity, hfilled⟩ := hstorable.working_orders o ho
    rw [← PersistedOrder.toList_to_json]
    exact read_order_to_json hexact hquantity hfilled

/-- The state as it is read: its id is what the reader makes of the escaped one. -/
def SessionState.reread (s : SessionState D) : SessionState D :=
  { s.restored with session_id := String.ofList (readBack s.session_id.toList) }

omit hexact in
variable (fmt) in
/-- The state as its fields are scanned: the counters as they were, the rest as
far as it can be read. -/
def SessionState.scanned (s : SessionState D) : SessionState D :=
  let json := render (s.tokens fmt)
  { s.reread with
    saved_at := read_time (field json "saved_at")
    last_event_time := read_time (field json "last_event_time")
    account :=
      { cash := read_double fmt (field json "cash")
        equity := read_double fmt (field json "equity") }
    positions := (read_array json "positions").filterMap (read_position fmt)
    working_orders := (read_array json "working_orders").filterMap (read_order fmt) }

theorem SessionState.from_json_scanned (s : SessionState D) :
    SessionState.from_json fmt (s.to_json fmt) =
      if s.checksum fmt.bits ≠ (s.scanned fmt).checksum fmt.bits then
        .error (bad "session state checksum mismatch; the file is corrupt" s.reread.session_id)
      else .ok (s.scanned fmt) := by
  have hformed := s.formed hexact
  have hid : field (render (s.tokens fmt)) "session_id" = some (readBack s.session_id.toList) :=
    field_escaped (by decide) hformed rfl
  have hsequence := hformed.u64 "sequence" (x := s.sequence) (by decide) (d := ',') (by decide) rfl
  have hfingerprint := hformed.hex "config_fingerprint" (x := s.config_fingerprint) (by decide) rfl
  have hevents := hformed.u64 "events_processed" (x := s.events_processed) (by decide) (d := ',')
    (by decide) rfl
  have hfills := hformed.u64 "fills_received" (x := s.fills_received) (by decide) (d := ',')
    (by decide) rfl
  have horders := hformed.u64 "orders_submitted" (x := s.orders_submitted) (by decide) (d := ',')
    (by decide) rfl
  have hchecksum := hformed.hex "checksum" (x := s.checksum fmt.bits) (by decide) s.seek_checksum
  rw [SessionState.from_json, SessionState.toList_to_json]
  simp only [hid, hsequence, hfingerprint, hevents, hfills, horders, hchecksum, Option.getD_some]
  rfl

theorem SessionState.scanned_eq (s : SessionState D) (hstorable : s.Storable fmt) :
    s.scanned fmt = s.reread := by
  have hformed := s.formed hexact
  have hsaved := hformed.time "saved_at" (by decide) hstorable.saved_at rfl
  have hlast := hformed.time "last_event_time" (by decide) hstorable.last_event_time rfl
  have hcash := hformed.double "cash" (by decide) hexact hstorable.cash (d := ',') (by decide) rfl
  have hequity := hformed.double "equity" (by decide) hexact hstorable.equity (d := ',')
    (by decide) rfl
  simp only [SessionState.scanned, hsaved, hlast, hcash, hequity, read_positions hexact s hstorable,
    read_orders hexact s hstorable]
  rfl

theorem SessionState.from_json_to_json (s : SessionState D) (hstorable : s.Storable fmt) :
    SessionState.from_json fmt (s.to_json fmt) =
      if s.checksum fmt.bits ≠ s.reread.checksum fmt.bits then
        .error (bad "session state checksum mismatch; the file is corrupt" s.reread.session_id)
      else .ok s.reread := by
  rw [s.from_json_scanned hexact, s.scanned_eq hexact hstorable]

/-- A record is read back as it was written just when its session id has
nothing the reader would have to unescape. -/
theorem SessionState.round_trip_iff {s : SessionState D} (hstorable : s.Storable fmt) :
    SessionState.from_json fmt (s.to_json fmt) = .ok s.restored ↔ Unescaped s.session_id.toList := by
  rw [s.from_json_to_json hexact hstorable]
  have hreread : s.reread = s.restored ↔ Unescaped s.session_id.toList := by
    rw [← readBack_eq_iff]
    constructor
    · intro heq
      have hid := congrArg (fun t => t.session_id.toList) heq
      simpa [SessionState.reread, SessionState.restored] using hid
    · intro heq
      rw [SessionState.reread, heq, String.ofList_toList]
      rfl
  have hchecksum : s.restored.checksum fmt.bits = s.checksum fmt.bits := rfl
  constructor
  · intro hok
    split at hok
    · cases hok
    · exact hreread.mp (Except.ok.inj hok)
  · intro hlegible
    rw [hreread.mpr hlegible, hchecksum, if_neg (not_not.mpr rfl)]

/-- Whatever else is read of a record that is not refused, the counters and the
fingerprint are the written ones. -/
theorem SessionState.from_json_counts {s t : SessionState D}
    (hread : SessionState.from_json fmt (s.to_json fmt) = .ok t) :
    t.config_fingerprint = s.config_fingerprint ∧ t.events_processed = s.events_processed ∧
      t.fills_received = s.fills_received ∧ t.orders_submitted = s.orders_submitted := by
  rw [s.from_json_scanned hexact] at hread
  split at hread
  · cases hread
  · cases hread
    exact ⟨rfl, rfl, rfl, rfl⟩

end Reading

end ptl.paper
