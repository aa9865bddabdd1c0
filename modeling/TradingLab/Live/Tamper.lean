import Mathlib.Data.UInt
import TradingLab.Live.RoundTrip
import TradingLab.Paper.Tamper

/-! What the checksum of a live record tells apart. -/

namespace ptl.live

variable {D : Type} [Zero D] (bits : D → UInt64)

/-- The bytes that the checksum is computed over. -/
def LiveSessionState.stream (s : LiveSessionState D) : List UInt8 := s.feed bits (· ++ ·) []

def trackedBytes (order : String × UInt64) : List UInt8 := characters order.1 ++ sizeof64 order.2

/-- What follows the session id in the stream. -/
def LiveSessionState.body (s : LiveSessionState D) : List UInt8 :=
  sizeof64 s.sequence ++ (sizeof64 s.config_fingerprint ++ (sizeof64 s.events_processed ++
    (sizeof64 s.last_venue_sequence ++ (sizeof64 (bits s.account.cash) ++
      (sizeof64 (bits s.account.equity) ++ s.tracked_orders.flatMap trackedBytes)))))

/-- The fields that the checksum covers, with the others at their defaults. -/
def LiveSessionState.covered (s : LiveSessionState D) : LiveSessionState D :=
  { session_id := s.session_id
    sequence := s.sequence
    config_fingerprint := s.config_fingerprint
    events_processed := s.events_processed
    last_venue_sequence := s.last_venue_sequence
    account := { cash := s.account.cash, equity := s.account.equity }
    tracked_orders := s.tracked_orders }

/-- The lengths of the parts that vary. -/
def LiveSessionState.shape (s : LiveSessionState D) : Nat × List Nat :=
  ((characters s.session_id).length, s.tracked_orders.map fun t => (characters t.1).length)

/-- The session id of the second goes on with bytes that follow that of the
first, and the rest of the first stands where the body of the second does. -/
def LiveSessionState.Slides (s t : LiveSessionState D) : Prop :=
  s.shape ≠ t.shape ∧ ∃ bytes, characters t.session_id = characters s.session_id ++ bytes ∧
    s.body bits = bytes ++ t.body bits

theorem LiveSessionState.feed_eq {H : Type} {hash : H → List UInt8 → H}
    (happend : ∀ h a b, hash h (a ++ b) = hash (hash h a) b) (hnil : ∀ h, hash h [] = h) (h : H)
    (s : LiveSessionState D) : s.feed bits hash h = hash h (characters s.session_id ++ s.body bits) := by
  have htracked := fun h => foldl_feed hash trackedBytes happend hnil h s.tracked_orders
  simp only [trackedBytes, happend] at htracked
  simp only [LiveSessionState.feed, LiveSessionState.body, happend]
  rw [htracked]

theorem LiveSessionState.stream_eq (s : LiveSessionState D) :
    s.stream bits = characters s.session_id ++ s.body bits :=
  s.feed_eq bits (fun h a b => (List.append_assoc h a b).symm) List.append_nil []

/-- The checksum is the hash of the stream. -/
theorem LiveSessionState.checksum_eq (s : LiveSessionState D) :
    s.checksum bits = hash_bytes kFnvOffset (s.stream bits) := by
  rw [LiveSessionState.checksum, s.feed_eq bits hash_bytes_append (fun _ => rfl), s.stream_eq]

section Injective

variable {bits} (hbits : Function.Injective bits)
include hbits

omit hbits [Zero D] in
theorem trackedBytes_eq_iff {a b : String × UInt64} : trackedBytes a = trackedBytes b ↔ id a = id b := by
  constructor
  · intro heq
    have hlength : (characters a.1).length = (characters b.1).length := by
      have hlengths := congrArg List.length heq
      simpa [trackedBytes] using hlengths
    obtain ⟨hclient, hid⟩ := List.append_inj heq hlength
    exact Prod.ext (characters_inj hclient) (sizeof64_inj hid)
  · intro heq
    rw [show a = b from heq]

/-- With texts of the same lengths the bodies tell every covered field apart. -/
theorem LiveSessionState.body_eq_iff {s t : LiveSessionState D} (hid : s.session_id = t.session_id)
    (hlengths : (s.tracked_orders.map fun t => (characters t.1).length) =
      t.tracked_orders.map fun t => (characters t.1).length) :
    s.body bits = t.body bits ↔ s.covered = t.covered := by
  have htrackedLengths : (s.tracked_orders.map fun t => (trackedBytes t).length) =
      t.tracked_orders.map fun t => (trackedBytes t).length := by
    have hplus := congrArg (List.map (· + 8)) hlengths
    simpa [trackedBytes, Function.comp_def] using hplus
  constructor
  · intro heq
    obtain ⟨hsequence, heq⟩ := List.append_inj heq (by simp)
    obtain ⟨hfingerprint, heq⟩ := List.append_inj heq (by simp)
    obtain ⟨hevents, heq⟩ := List.append_inj heq (by simp)
    obtain ⟨hvenue, heq⟩ := List.append_inj heq (by simp)
    obtain ⟨hcash, heq⟩ := List.append_inj heq (by simp)
    obtain ⟨hequity, heq⟩ := List.append_inj heq (by simp)
    obtain ⟨htracked, -⟩ := flatMap_append_inj (x := []) (y := []) htrackedLengths (by
      rw [List.append_nil, List.append_nil, heq])
    have htracked := (map_eq_map_iff fun _ _ => trackedBytes_eq_iff).mp htracked
    rw [List.map_id, List.map_id] at htracked
    rw [LiveSessionState.covered, LiveSessionState.covered, hid, sizeof64_inj hsequence,
      sizeof64_inj hfingerprint, sizeof64_inj hevents, sizeof64_inj hvenue,
      hbits (sizeof64_inj hcash), hbits (sizeof64_inj hequity), htracked]
  · intro heq
    simp only [LiveSessionState.covered, LiveSessionState.mk.injEq, BrokerAccountSnapshot.mk.injEq] at heq
    obtain ⟨-, hsequence, -, -, hfingerprint, hevents, hvenue, -, haccount, htracked⟩ := heq
    rw [LiveSessionState.body, LiveSessionState.body, hsequence, hfingerprint, hevents, hvenue,
      haccount.2.1, haccount.2.2.2.1, htracked]

theorem LiveSessionState.stream_eq_iff {s t : LiveSessionState D} : s.stream bits = t.stream bits ↔
    s.covered = t.covered ∨ s.Slides bits t ∨ t.Slides bits s := by
  rw [s.stream_eq, t.stream_eq]
  constructor
  · intro heq
    by_cases hshape : s.shape = t.shape
    · left
      simp only [LiveSessionState.shape, Prod.mk.injEq] at hshape
      obtain ⟨hid, hbody⟩ := List.append_inj heq hshape.1
      exact (LiveSessionState.body_eq_iff hbits (characters_inj hid) hshape.2).mp hbody
    · right
      rcases List.append_eq_append_iff.mp heq with ⟨bytes, hid, hbody⟩ | ⟨bytes, hid, hbody⟩
      · exact .inl ⟨hshape, bytes, hid, hbody⟩
      · exact .inr ⟨Ne.symm hshape, bytes, hid, hbody⟩
  · rintro (hcovered | ⟨-, bytes, hid, hbody⟩ | ⟨-, bytes, hid, hbody⟩)
    · have hid : s.session_id = t.session_id := congrArg (fun u => u.session_id) hcovered
      have htracked : s.tracked_orders = t.tracked_orders := congrArg (fun u => u.tracked_orders) hcovered
      rw [(LiveSessionState.body_eq_iff hbits hid (by rw [htracked])).mpr hcovered, hid]
    · rw [hid, hbody, List.append_assoc]
    · rw [hid, hbody, List.append_assoc]

omit hbits in
theorem LiveSessionState.restored_ne_of_slides {s t : LiveSessionState D} (hslides : s.Slides bits t) :
    s.restored ≠ t.restored := by
  intro heq
  have hshape : s.restored.shape = t.restored.shape := by rw [heq]
  exact hslides.1 hshape

/-- Records that differ in what is read back have different streams just when a
covered field is among what differs, and neither slides into the other. -/
theorem tampering_shows :
    (∀ s t : paper.SessionState D, (s.restored ≠ t.restored → s.stream bits ≠ t.stream bits) ↔
      (s.covered = t.covered → s.restored = t.restored) ∧ ¬ s.Slides bits t ∧ ¬ t.Slides bits s) ∧
    ∀ s t : LiveSessionState D, (s.restored ≠ t.restored → s.stream bits ≠ t.stream bits) ↔
      (s.covered = t.covered → s.restored = t.restored) ∧ ¬ s.Slides bits t ∧ ¬ t.Slides bits s :=
  ⟨fun _ _ => tells_apart_iff (fun _ _ => paper.SessionState.restored_ne_of_slides)
      (paper.SessionState.stream_eq_iff hbits),
    fun _ _ => tells_apart_iff (fun _ _ => LiveSessionState.restored_ne_of_slides)
      (LiveSessionState.stream_eq_iff hbits)⟩

end Injective

/-- A double as its bits. -/
def paperCash (cash : UInt64) : paper.SessionState UInt64 := { session_id := "paper", account := { cash } }

def liveCash (cash : UInt64) : LiveSessionState UInt64 := { session_id := "live", account := { cash } }

theorem tampering_shows_cash :
    (paperCash 1).stream id ≠ (paperCash 2).stream id ∧ (liveCash 1).stream id ≠ (liveCash 2).stream id := by
  have hpaper : (paperCash 1).account.cash ≠ (paperCash 2).account.cash := by decide
  have hlive : (liveCash 1).account.cash ≠ (liveCash 2).account.cash := by decide
  refine ⟨((tampering_shows Function.injective_id).1 (paperCash 1) (paperCash 2)).mpr ⟨?_, ?_, ?_⟩ ?_,
    ((tampering_shows Function.injective_id).2 (liveCash 1) (liveCash 2)).mpr ⟨?_, ?_, ?_⟩ ?_⟩
  · exact fun hcovered => absurd (congrArg (fun s => s.account.cash) hcovered) hpaper
  · exact fun hslides => hslides.1 rfl
  · exact fun hslides => hslides.1 rfl
  · exact fun hrestored => hpaper (congrArg (fun s => s.account.cash) hrestored)
  · exact fun hcovered => absurd (congrArg (fun s => s.account.cash) hcovered) hlive
  · exact fun hslides => hslides.1 rfl
  · exact fun hslides => hslides.1 rfl
  · exact fun hrestored => hlive (congrArg (fun s => s.account.cash) hrestored)

/-- A working order to sell in place of one to buy. -/
def soldRecord : paper.SessionState Rat :=
  { paperRecord "paper-1" with
    working_orders := [{ order_id := 2, instrument := 7, side := 1, quantity := 5 }] }

/-- Two tracked orders, and one whose client id has the bytes of both. -/
def trackedRecord (orders : List (String × UInt64)) : LiveSessionState Rat :=
  { liveRecord "" with tracked_orders := orders }

/-- The side of an order is not in the stream, and texts are not delimited. -/
theorem tampering_hides :
    soldRecord.restored ≠ (paperRecord "paper-1").restored ∧
      soldRecord.stream wholeDoubles.bits = (paperRecord "paper-1").stream wholeDoubles.bits ∧
      (trackedRecord [("a", 0x4141414141414141), ("b", 2)]).restored ≠
        (trackedRecord [("aAAAAAAAAb", 2)]).restored ∧
      (trackedRecord [("a", 0x4141414141414141), ("b", 2)]).stream wholeDoubles.bits =
        (trackedRecord [("aAAAAAAAAb", 2)]).stream wholeDoubles.bits := by
  refine ⟨fun heq => ?_, rfl, fun heq => ?_, by decide +kernel⟩
  · exact absurd (congrArg (fun s => s.working_orders.map fun o => o.side) heq) (by decide)
  · exact absurd (congrArg (fun s => s.tracked_orders.length) heq) (by decide)

end ptl.live
