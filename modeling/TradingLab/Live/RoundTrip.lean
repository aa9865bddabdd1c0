import TradingLab.Core.Numbers
import TradingLab.Live.State
import TradingLab.Paper.RoundTrip

/-! What is read back of a written live record. -/

namespace ptl.live

variable {D : Type} [Zero D] (fmt : DoubleFormat D)

/-! ### The written text as tokens -/

def positionTokens (p : InstrumentId × D) : List Token :=
  [.key (toString p.1), .raw (' ' :: (fmt.num p.2).toList)]

def BrokerAccountSnapshot.tokens (a : BrokerAccountSnapshot D) : List Token :=
  [.raw ['{'], .key "ts", .raw [' '], .str (iso_or_empty a.ts).toList ',', .raw [' '],
    .key "cash", .bare (fmt.num a.cash) [',', ' '],
    .key "buying_power", .bare (fmt.num a.buying_power) [',', ' '],
    .key "equity", .bare (fmt.num a.equity) [',', ' '],
    .key "position_value", .bare (fmt.num a.position_value) [',', ' '],
    .key "realized_pnl", .bare (fmt.num a.realized_pnl) [',', ' '],
    .key "unrealized_pnl", .bare (fmt.num a.unrealized_pnl) [',', ' '],
    .key "open_orders", .bare (toString a.open_order_count) [',', ' '],
    .key "positions", .raw [' ', '{']] ++
  ([.raw [',', ' ']].intercalate (a.positions.toList.map (positionTokens fmt)) ++ [.raw ['}', '}']])

def trackedTokens (order : String × UInt64) : List Token :=
  [.raw ['{'], .key "client_order_id", .raw [' '], .str (escape order.1.toList) ',', .raw [' '],
    .key "order_id", .bare (toString order.2) ['}']]

def LiveSessionState.header (s : LiveSessionState D) : List Token :=
  [.raw ['{'], .key "session_id", .raw [' '], .str (escape s.session_id.toList) ',', .raw [' '],
    .key "sequence", .bare (toString s.sequence) [',', ' '],
    .key "phase", .raw [' '], .str s.phase.to_string.toList ',', .raw [' '],
    .key "saved_at", .raw [' '], .str (iso_or_empty s.saved_at).toList ',', .raw [' '],
    .key "config_fingerprint", .raw [' '], .str (hex16 s.config_fingerprint).toList ',', .raw [' '],
    .key "events_processed", .bare (toString s.events_processed) [',', ' '],
    .key "last_venue_sequence", .bare (toString s.last_venue_sequence) [',', ' '],
    .key "last_sync_point", .raw [' '], .str (iso_or_empty s.last_sync_point).toList ',', .raw [' '],
    .key "account", .raw [' ']]

open LiveSessionState

def LiveSessionState.tail (s : LiveSessionState D) : List Token :=
  [.raw [']', ',', ' '], .key "checksum", .raw [' '], .str (hex16 (s.checksum fmt.bits)).toList '}']

def LiveSessionState.tokens (s : LiveSessionState D) : List Token :=
  s.header ++ (s.account.tokens fmt ++ (.raw [',', ' '] :: .key "tracked_orders" :: .raw [' ', '['] ::
    ([.raw [',', ' ']].intercalate (s.tracked_orders.map trackedTokens) ++ s.tail fmt)))

section Text

omit [Zero D] in
theorem toList_position (p : InstrumentId × D) :
    ("\"" ++ toString p.1 ++ "\": " ++ fmt.num p.2).toList = render (positionTokens fmt p) := by
  unfold positionTokens
  simp only [String.toList_append, String.reduceToList, render_cons, render_nil, Token.text, quoted]
  simp only [List.append_assoc, List.cons_append, List.nil_append, List.append_nil]

theorem toList_tracked_to_json (order : String × UInt64) :
    (tracked_to_json order).toList = render (trackedTokens order) := by
  unfold tracked_to_json trackedTokens
  simp only [String.toList_append, String.reduceToList, render_cons, render_nil, Token.text, Token.bare,
    quoted, json_escape, String.toList_ofList]
  simp only [List.append_assoc, List.cons_append, List.nil_append, List.append_nil]

set_option maxRecDepth 8000 in
theorem BrokerAccountSnapshot.toList_to_json (a : BrokerAccountSnapshot D) :
    (a.to_json fmt).toList = render (a.tokens fmt) := by
  unfold BrokerAccountSnapshot.to_json BrokerAccountSnapshot.tokens
  simp only [String.toList_append, toList_intercalate_written (toList_position fmt), render_append,
    render_cons, render_nil, Token.text, Token.bare, quoted]
  simp only [String.reduceToList]
  simp only [List.append_assoc, List.cons_append, List.nil_append, List.append_nil]

set_option maxRecDepth 8000 in
theorem LiveSessionState.toList_to_json (s : LiveSessionState D) :
    (s.to_json fmt).toList = render (s.tokens fmt) := by
  unfold to_json tokens header tail
  simp only [String.toList_append, BrokerAccountSnapshot.toList_to_json,
    toList_intercalate_written toList_tracked_to_json, json_escape, String.toList_ofList, render_append,
    render_cons, render_nil, Token.text, Token.bare, quoted]
  simp only [String.reduceToList]
  simp only [List.append_assoc, List.cons_append, List.nil_append, List.append_nil]

end Text

/-! ### The text is well formed -/

section Formed

variable {fmt} (hexact : fmt.Exact)
include hexact

omit [Zero D] in
theorem formed_position (p : InstrumentId × D) : Formed (positionTokens fmt p) := by
  refine .key (plain_toString p.1.toNat) (.raw ?_ .nil)
  rw [List.mem_cons, not_or]
  exact ⟨by decide, (hexact.bare p.2).not_mem_quote⟩

theorem BrokerAccountSnapshot.formed (a : BrokerAccountSnapshot D) : Formed (a.tokens fmt) := by
  have hnum := hexact.bare
  unfold BrokerAccountSnapshot.tokens
  refine .append (.raw (by decide) <| .text (by decide) (unescaped_iso a.ts) (.inl rfl) <|
    .raw (by decide) <| .bare (by decide) (hnum a.cash) (by decide) <|
    .bare (by decide) (hnum a.buying_power) (by decide) <|
    .bare (by decide) (hnum a.equity) (by decide) <|
    .bare (by decide) (hnum a.position_value) (by decide) <|
    .bare (by decide) (hnum a.realized_pnl) (by decide) <|
    .bare (by decide) (hnum a.unrealized_pnl) (by decide) <|
    .bare (by decide) (bare_toString a.open_order_count) (by decide) <|
    .key (by decide) <| .raw (by decide) .nil) ?_
  exact (Formed.intercalate fun p _ => formed_position hexact p).append (.raw (by decide) .nil)

omit hexact in
theorem formed_tracked (order : String × UInt64) : Formed (trackedTokens order) :=
  .raw (by decide) <| .escaped (by decide) (.inl rfl) <| .raw (by decide) <|
    .bare (by decide) (bare_toString order.2.toNat) (by decide) .nil

omit hexact in
theorem LiveSessionState.formed_header (s : LiveSessionState D) : Formed s.header := by
  have hphase : Unescaped s.phase.to_string.toList := by cases s.phase <;> decide
  exact .raw (by decide) <| .escaped (by decide) (.inl rfl) <| .raw (by decide) <|
    .bare (by decide) (bare_toString s.sequence.toNat) (by decide) <|
    .text (by decide) hphase (.inl rfl) <| .raw (by decide) <|
    .text (by decide) (unescaped_iso _) (.inl rfl) <| .raw (by decide) <|
    .text (by decide) (unescaped_hex16 _) (.inl rfl) <| .raw (by decide) <|
    .bare (by decide) (bare_toString s.events_processed.toNat) (by decide) <|
    .bare (by decide) (bare_toString s.last_venue_sequence.toNat) (by decide) <|
    .text (by decide) (unescaped_iso _) (.inl rfl) <| .raw (by decide) <|
    .key (by decide) <| .raw (by decide) .nil

theorem LiveSessionState.formed (s : LiveSessionState D) : Formed (s.tokens fmt) :=
  s.formed_header.append <| (s.account.formed hexact).append <| .raw (by decide) <| .key (by decide) <|
    .raw (by decide) <| (Formed.intercalate fun t _ => formed_tracked t).append <| .raw (by decide) <|
    .text (by decide) (unescaped_hex16 _) (.inr rfl) .nil

end Formed

/-! ### What is read -/

/-- What a record keeps of a state: all but the phase and the account figures
other than cash and equity. -/
def LiveSessionState.restored (s : LiveSessionState D) : LiveSessionState D :=
  { s with
    phase := .Running
    account := { cash := s.account.cash, equity := s.account.equity } }

/-- Finite doubles, and timestamps of 64 bits. -/
structure LiveSessionState.Storable (s : LiveSessionState D) : Prop where
  cash : fmt.is_finite s.account.cash = true
  equity : fmt.is_finite s.account.equity = true
  saved_at : -2 ^ 63 ≤ s.saved_at ∧ s.saved_at < 2 ^ 63
  last_sync_point : -2 ^ 63 ≤ s.last_sync_point ∧ s.last_sync_point < 2 ^ 63

/-- The tracked orders the reader finds. -/
def LiveSessionState.retracked (s : LiveSessionState D) : List (String × UInt64) :=
  (read_array (render (s.tokens fmt)) "tracked_orders").filterMap read_tracked

def LiveSessionState.reread (s : LiveSessionState D) : LiveSessionState D :=
  { s.restored with
    session_id := String.ofList (readBack s.session_id.toList)
    tracked_orders := s.retracked fmt }

omit [Zero D] in
theorem not_key_positions {key : String} (hkey : ∃ c ∈ key.toList, c.isDigit = false)
    (p : InstrumentId × D) : ∀ t ∈ positionTokens fmt p, t ≠ .key key := by
  obtain ⟨c, hmem, hc⟩ := hkey
  intro t ht
  simp only [positionTokens, List.mem_cons, List.not_mem_nil, or_false] at ht
  rcases ht with rfl | rfl
  · intro heq
    injection heq with hname
    rw [← hname] at hmem
    rw [isDigit_of_mem_toString (n := p.1.toNat) hmem] at hc
    cases hc
  · exact Token.noConfusion

theorem not_key_tracked {key : String} (hkey : key ∉ ["client_order_id", "order_id"])
    (order : String × UInt64) : ∀ t ∈ trackedTokens order, t ≠ .key key := by
  simp only [List.mem_cons, List.not_mem_nil, or_false, not_or] at hkey
  simp [trackedTokens, Token.bare, eq_comm, hkey]

section Reading

variable {fmt} (hexact : fmt.Exact)
include hexact

omit hexact in
/-- Past the positions of the account. -/
theorem LiveSessionState.seek_positions {key : String}
    (hkey : ∃ c ∈ key.toList, c.isDigit = false) (s : LiveSessionState D)
    (hfront : seek key (s.tokens fmt) = seek key
      (([.raw [',', ' ']].intercalate (s.account.positions.toList.map (positionTokens fmt)) ++
        [.raw ['}', '}']]) ++ (.raw [',', ' '] :: .key "tracked_orders" :: .raw [' ', '['] ::
          ([.raw [',', ' ']].intercalate (s.tracked_orders.map trackedTokens) ++ s.tail fmt)))) :
    seek key (s.tokens fmt) = seek key (.key "tracked_orders" :: .raw [' ', '['] ::
      ([.raw [',', ' ']].intercalate (s.tracked_orders.map trackedTokens) ++ s.tail fmt)) := by
  rw [hfront, List.append_assoc, seek_intercalate fun p _ => not_key_positions fmt hkey p]
  rfl

omit hexact in
theorem LiveSessionState.seek_tracked (s : LiveSessionState D) :
    seek "tracked_orders" (s.tokens fmt) = some (.raw [' ', '['] ::
      ([.raw [',', ' ']].intercalate (s.tracked_orders.map trackedTokens) ++ s.tail fmt)) :=
  s.seek_positions ⟨'t', by decide, by decide⟩ rfl

omit hexact in
theorem LiveSessionState.seek_checksum (s : LiveSessionState D) :
    seek "checksum" (s.tokens fmt) =
      some [.raw [' '], .str (hex16 (s.checksum fmt.bits)).toList '}'] :=
  (s.seek_positions ⟨'c', by decide, by decide⟩ rfl).trans
    (seek_intercalate (fun t _ => not_key_tracked (by decide) t) (s.tail fmt))

theorem LiveSessionState.from_json_to_json (s : LiveSessionState D) (hstorable : s.Storable fmt) :
    from_json fmt (s.to_json fmt) =
      if s.checksum fmt.bits ≠ (s.reread fmt).checksum fmt.bits then
        .error (bad "live state checksum mismatch; the file is corrupt" (s.reread fmt).session_id)
      else .ok (s.reread fmt) := by
  have hformed := s.formed hexact
  have hid : field (render (s.tokens fmt)) "session_id" = some (readBack s.session_id.toList) :=
    field_escaped (by decide) hformed rfl
  have hsequence := hformed.u64 "sequence" (x := s.sequence) (by decide) (d := ',') (by decide) rfl
  have hfingerprint := hformed.hex "config_fingerprint" (x := s.config_fingerprint) (by decide) rfl
  have hevents := hformed.u64 "events_processed" (x := s.events_processed) (by decide) (d := ',')
    (by decide) rfl
  have hvenue := hformed.u64 "last_venue_sequence" (x := s.last_venue_sequence) (by decide)
    (d := ',') (by decide) rfl
  have hsaved := hformed.time "saved_at" (by decide) hstorable.saved_at rfl
  have hsync := hformed.time "last_sync_point" (by decide) hstorable.last_sync_point rfl
  have hcash := hformed.double "cash" (by decide) hexact hstorable.cash (d := ',') (by decide) rfl
  have hequity := hformed.double "equity" (by decide) hexact hstorable.equity (d := ',')
    (by decide) rfl
  have hchecksum := hformed.hex "checksum" (x := s.checksum fmt.bits) (by decide) s.seek_checksum
  rw [from_json, toList_to_json]
  simp only [hid, hsequence, hfingerprint, hevents, hvenue, hsaved, hsync, hcash, hequity, hchecksum,
    Option.getD_some]
  rfl

omit hexact in
theorem isObject_tracked {order : String × UInt64} (hbrace : '}' ∉ order.1.toList) :
    IsObject (render (trackedTokens order)) := by
  refine ⟨render [.key "client_order_id", .raw [' '], .str (escape order.1.toList) ',', .raw [' '],
    .key "order_id"] ++ ' ' :: (toString order.2).toList, by simp [trackedTokens, Token.text, Token.bare],
    ?_⟩
  have hdigits : '}' ∉ (toString order.2).toList := fun hmem =>
    absurd (isDigit_of_mem_toString (n := order.2.toNat) hmem) (by decide)
  have hescape : '}' ∉ escape order.1.toList := by
    intro hmem
    obtain ⟨c, hin, hc⟩ := List.mem_flatMap.mp hmem
    unfold escapeChar at hc
    split_ifs at hc
    · exact absurd hc (by decide)
    · exact absurd hc (by decide)
    · exact absurd hc (by decide)
    · exact hbrace (List.mem_singleton.mp hc ▸ hin)
  simp only [render_cons, render_nil, Token.text, List.mem_append, List.mem_cons, not_or]
  refine ⟨⟨by decide, ⟨by decide, by decide⟩, ⟨by decide, hescape, by decide⟩, ⟨by decide, by decide⟩, by decide,
    by decide⟩, by decide, hdigits⟩

omit hexact in
theorem read_tracked_written (order : String × UInt64) :
    read_tracked (render (trackedTokens order)) =
      some (String.ofList (readBack order.1.toList), order.2) := by
  have hformed := formed_tracked order
  have hid : Scan.after (quoted "client_order_id".toList ++ [' ', '"']) (render (trackedTokens order)) =
      some (escape order.1.toList ++ '"' :: ',' :: render [.raw [' '], .key "order_id",
        .bare (toString order.2) ['}']]) :=
    after_render (by decide) hformed rfl (by simp [Token.text])
  have hnumber : Scan.after (quoted "order_id".toList ++ [' ']) (render (trackedTokens order)) =
      some ((toString order.2).toList ++ ['}']) :=
    after_render (by decide) hformed rfl (by simp [Token.text, Token.bare])
  rw [read_tracked, hid, hnumber]
  simp only
  rw [if_pos (by simp), List.dropLast_concat, from_chars_printed, upTo_quote]
  rfl

theorem LiveSessionState.retracked_eq (s : LiveSessionState D)
    (hbrace : ∀ t ∈ s.tracked_orders, '}' ∉ t.1.toList) :
    s.retracked fmt = s.tracked_orders.map fun t => (String.ofList (readBack t.1.toList), t.2) :=
  (s.formed hexact).array (by decide) s.seek_tracked (fun t ht => isObject_tracked (hbrace t ht))
    fun t _ => read_tracked_written t

omit hexact in
/-- A tracked order is cut at the first quote and the first brace. -/
theorem read_tracked_free {object : List Char} (hobject : ∃ front, object = front ++ ['}'] ∧ '}' ∉ front)
    {order : String × UInt64} (hread : read_tracked object = some order) : '}' ∉ order.1.toList := by
  obtain ⟨front, rfl, hfree⟩ := hobject
  unfold read_tracked at hread
  split at hread
  · rename_i value number hvalue _
    split_ifs at hread with hquote
    obtain ⟨id, -, rfl⟩ := Option.map_eq_some_iff.mp hread
    rw [String.toList_ofList]
    intro hmem
    -- something follows the quote, so the brace is not the last of the object
    have hrest : Scan.fromStop isQuote value ≠ [] := by
      intro hnil
      have hsplit := Scan.upTo_append_fromStop isQuote value
      rw [hnil, List.append_nil] at hsplit
      rw [← hsplit] at hquote
      exact absurd (Scan.upTo_free _ hquote) (by decide)
    obtain ⟨pre, hpre⟩ := Scan.after_suffix hvalue
    have hfront : front = pre ++ (Scan.upTo isQuote value ++ (Scan.fromStop isQuote value).dropLast) := by
      rw [← List.dropLast_append_of_ne_nil hrest, Scan.upTo_append_fromStop,
        ← List.dropLast_append_of_ne_nil (by rintro rfl; exact absurd hquote List.not_mem_nil), hpre,
        List.dropLast_concat]
    rw [hfront] at hfree
    exact hfree (List.mem_append_right _ (List.mem_append_left _ hmem))
  · cases hread

omit hexact in
theorem LiveSessionState.retracked_free (s : LiveSessionState D) :
    ∀ t ∈ s.retracked fmt, '}' ∉ t.1.toList := by
  intro t hmem
  obtain ⟨object, hobject, hread⟩ := List.mem_filterMap.mp hmem
  unfold read_array at hobject
  split at hobject
  · cases hobject
  · exact read_tracked_free (isObject_of_mem_objects hobject) hread

end Reading

/-! ### The records round trip -/

/-- A session id and client ids that no escape changes, and no brace in a client id. -/
def LiveSessionState.Legible (s : LiveSessionState D) : Prop :=
  Unescaped s.session_id.toList ∧
    ∀ t ∈ s.tracked_orders, Unescaped t.1.toList ∧ '}' ∉ t.1.toList

section RoundTrip

variable {fmt} (hexact : fmt.Exact)
include hexact

theorem live_round_trip_iff {s : LiveSessionState D} (hstorable : s.Storable fmt) :
    from_json fmt (s.to_json fmt) = .ok s.restored ↔ s.Legible := by
  rw [s.from_json_to_json hexact hstorable]
  have hreread : s.reread fmt = s.restored ↔ s.Legible := by
    constructor
    · intro heq
      have hid := congrArg (fun t => t.session_id.toList) heq
      have htracked : s.retracked fmt = s.tracked_orders := congrArg (fun t => t.tracked_orders) heq
      have hbrace : ∀ t ∈ s.tracked_orders, '}' ∉ t.1.toList := by
        rw [← htracked]
        exact s.retracked_free
      rw [s.retracked_eq hexact hbrace] at htracked
      refine ⟨readBack_eq_iff.mp (by simpa [reread, restored] using hid), fun t ht => ⟨?_, hbrace t ht⟩⟩
      have hsame := List.map_inj_left.mp (htracked.trans (List.map_id _).symm) t ht
      rw [← readBack_eq_iff, ← String.toList_ofList (l := readBack t.1.toList)]
      exact congrArg (fun t => t.1.toList) hsame
    · rintro ⟨hid, horders⟩
      have htracked : s.retracked fmt = s.tracked_orders := by
        rw [s.retracked_eq hexact fun t ht => (horders t ht).2]
        refine (List.map_inj_left.mpr fun t ht => ?_).trans (List.map_id _)
        rw [readBack_eq_iff.mpr (horders t ht).1, String.ofList_toList]
        rfl
      rw [reread, htracked, readBack_eq_iff.mpr hid, String.ofList_toList]
      rfl
  have hchecksum : s.restored.checksum fmt.bits = s.checksum fmt.bits := rfl
  constructor
  · intro hok
    split at hok
    · cases hok
    · exact hreread.mp (Except.ok.inj hok)
  · intro hlegible
    rw [hreread.mpr hlegible, hchecksum, if_neg (not_not.mpr rfl)]

/-- A record is read back as it was written just when its texts have nothing the
reader would have to unescape, and no client id a brace. -/
theorem records_round_trip :
    (∀ s : paper.SessionState D, s.Storable fmt →
      (paper.SessionState.from_json fmt (s.to_json fmt) = .ok s.restored ↔
        Unescaped s.session_id.toList)) ∧
    ∀ s : LiveSessionState D, s.Storable fmt →
      (from_json fmt (s.to_json fmt) = .ok s.restored ↔ s.Legible) :=
  ⟨fun _ hstorable => paper.SessionState.round_trip_iff hexact hstorable,
    fun _ hstorable => live_round_trip_iff hexact hstorable⟩

end RoundTrip

/-- A book of ten shares and a resting order. -/
def paperRecord (session_id : String) : paper.SessionState Rat :=
  { session_id
    sequence := 3
    saved_at := 1700000000000000000
    events_processed := 7
    account := { cash := 9000, equity := 10000 }
    positions := [{ instrument := 7, quantity := 10, average_cost := 100 }]
    working_orders := [{ order_id := 2, instrument := 7, quantity := 5 }]
    fills_received := 1
    orders_submitted := 2 }

/-- One order tracked at the venue. -/
def liveRecord (client : String) : LiveSessionState Rat :=
  { session_id := "live"
    sequence := 3
    saved_at := 1700000000000000000
    last_venue_sequence := 12
    account := { cash := 9000, equity := 10000 }
    tracked_orders := [(client, 2)] }

theorem paperRecord_storable (session_id : String) : (paperRecord session_id).Storable wholeDoubles := by
  constructor <;> simp [paperRecord, wholeDoubles, kNoTimestamp]

theorem liveRecord_storable (client : String) : (liveRecord client).Storable wholeDoubles := by
  constructor <;> simp [liveRecord, wholeDoubles, kNoTimestamp]

theorem records_round_trip_plain :
    paper.SessionState.from_json wholeDoubles ((paperRecord "paper-1").to_json wholeDoubles) =
        .ok (paperRecord "paper-1").restored ∧
      from_json wholeDoubles ((liveRecord "ptl-2").to_json wholeDoubles) =
        .ok (liveRecord "ptl-2").restored :=
  ⟨((records_round_trip wholeDoubles_exact).1 _ (paperRecord_storable _)).mpr (by decide),
    ((records_round_trip wholeDoubles_exact).2 _ (liveRecord_storable _)).mpr (by
      refine ⟨by decide, ?_⟩
      simp only [liveRecord, List.mem_singleton, forall_eq]
      decide)⟩

/-- A quote in the session id, or a brace in a client id: the record that was
written is refused as corrupt. -/
theorem records_do_not_round_trip :
    (paperRecord "a\"b").Storable wholeDoubles ∧ (liveRecord "x\x7d").Storable wholeDoubles ∧
      paper.SessionState.from_json wholeDoubles ((paperRecord "a\"b").to_json wholeDoubles) =
        .error (bad "session state checksum mismatch; the file is corrupt" "a\\") ∧
      from_json wholeDoubles ((liveRecord "x\x7d").to_json wholeDoubles) =
        .error (bad "live state checksum mismatch; the file is corrupt" "live") := by
  have hid : (paperRecord "a\"b").reread.session_id = "a\\" := by decide
  have hlive : ((liveRecord "x\x7d").reread wholeDoubles).session_id = "live" := by decide
  refine ⟨paperRecord_storable _, liveRecord_storable _, ?_, ?_⟩
  · rw [paper.SessionState.from_json_to_json wholeDoubles_exact _ (paperRecord_storable _), hid,
      if_pos (by decide +kernel)]
  · rw [from_json_to_json wholeDoubles_exact _ (liveRecord_storable _), hlive,
      if_pos (by decide +kernel)]

end ptl.live
