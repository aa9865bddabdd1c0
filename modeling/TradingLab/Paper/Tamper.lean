import TradingLab.Paper.RoundTrip

/-! What the checksum of a session record tells apart. -/

namespace ptl.paper

variable {D : Type} [Zero D] (bits : D → UInt64)

/-- The bytes that the checksum is computed over. -/
def SessionState.stream (s : SessionState D) : List UInt8 := s.feed bits (· ++ ·) []

def positionBytes (p : PersistedPosition D) : List UInt8 :=
  sizeof32 p.instrument ++ (sizeof64 (bits p.quantity) ++ sizeof64 (bits p.average_cost))

def orderBytes (o : PersistedOrder D) : List UInt8 :=
  sizeof64 o.order_id ++ (sizeof64 (bits o.quantity) ++ sizeof64 (bits o.filled))

/-- What follows the session id in the stream. -/
def SessionState.body (s : SessionState D) : List UInt8 :=
  sizeof64 s.sequence ++ (sizeof64 s.config_fingerprint ++ (sizeof64 s.events_processed ++
    (sizeof64 (bits s.account.cash) ++ (sizeof64 (bits s.account.equity) ++
      (s.positions.flatMap (positionBytes bits) ++ s.working_orders.flatMap (orderBytes bits))))))

/-- The fields that the checksum covers, with the others at their defaults. -/
def SessionState.covered (s : SessionState D) : SessionState D :=
  { session_id := s.session_id
    sequence := s.sequence
    config_fingerprint := s.config_fingerprint
    events_processed := s.events_processed
    account := { cash := s.account.cash, equity := s.account.equity }
    positions := s.positions.map fun p =>
      { instrument := p.instrument, quantity := p.quantity, average_cost := p.average_cost }
    working_orders := s.working_orders.map fun o =>
      { order_id := o.order_id, quantity := o.quantity, filled := o.filled } }

/-- The lengths of the parts that vary. -/
def SessionState.shape (s : SessionState D) : Nat × Nat × Nat :=
  ((characters s.session_id).length, s.positions.length, s.working_orders.length)

/-- The session id of the second goes on with bytes that follow that of the
first, and the rest of the first stands where the body of the second does. -/
def SessionState.Slides (s t : SessionState D) : Prop :=
  s.shape ≠ t.shape ∧ ∃ bytes, characters t.session_id = characters s.session_id ++ bytes ∧
    s.body bits = bytes ++ t.body bits

theorem SessionState.feed_eq {H : Type} {hash : H → List UInt8 → H}
    (happend : ∀ h a b, hash h (a ++ b) = hash (hash h a) b) (hnil : ∀ h, hash h [] = h) (h : H)
    (s : SessionState D) : s.feed bits hash h = hash h (characters s.session_id ++ s.body bits) := by
  have hpositions := fun h => foldl_feed hash (positionBytes bits) happend hnil h s.positions
  have horders := fun h => foldl_feed hash (orderBytes bits) happend hnil h s.working_orders
  simp only [positionBytes, orderBytes, happend] at hpositions horders
  simp only [SessionState.feed, SessionState.body, happend]
  rw [hpositions, horders]

theorem SessionState.stream_eq (s : SessionState D) :
    s.stream bits = characters s.session_id ++ s.body bits :=
  s.feed_eq bits (fun h a b => (List.append_assoc h a b).symm) List.append_nil []

/-- The checksum is the hash of the stream. -/
theorem SessionState.checksum_eq (s : SessionState D) :
    s.checksum bits = hash_bytes kFnvOffset (s.stream bits) := by
  rw [SessionState.checksum, s.feed_eq bits hash_bytes_append (fun _ => rfl), s.stream_eq]

section Injective

variable {bits} (hbits : Function.Injective bits)
include hbits

omit [Zero D] in
theorem bits_bytes_iff {x y : D} : sizeof64 (bits x) = sizeof64 (bits y) ↔ x = y :=
  ⟨fun heq => hbits (sizeof64_inj heq), fun heq => heq ▸ rfl⟩

theorem positionBytes_eq_iff {p q : PersistedPosition D} : positionBytes bits p = positionBytes bits q ↔
    ({ instrument := p.instrument, quantity := p.quantity, average_cost := p.average_cost } :
      PersistedPosition D) =
    { instrument := q.instrument, quantity := q.quantity, average_cost := q.average_cost } := by
  rw [PersistedPosition.mk.injEq]
  constructor
  · intro heq
    obtain ⟨hinstrument, hrest⟩ := List.append_inj heq (by simp)
    obtain ⟨hquantity, hcost⟩ := List.append_inj hrest (by simp)
    exact ⟨sizeof32_inj hinstrument, (bits_bytes_iff hbits).mp hquantity, (bits_bytes_iff hbits).mp hcost,
      rfl⟩
  · rintro ⟨hinstrument, hquantity, hcost, -⟩
    rw [positionBytes, positionBytes, hinstrument, hquantity, hcost]

theorem orderBytes_eq_iff {o q : PersistedOrder D} : orderBytes bits o = orderBytes bits q ↔
    ({ order_id := o.order_id, quantity := o.quantity, filled := o.filled } : PersistedOrder D) =
    { order_id := q.order_id, quantity := q.quantity, filled := q.filled } := by
  rw [PersistedOrder.mk.injEq]
  constructor
  · intro heq
    obtain ⟨hid, hrest⟩ := List.append_inj heq (by simp)
    obtain ⟨hquantity, hfilled⟩ := List.append_inj hrest (by simp)
    exact ⟨sizeof64_inj hid, rfl, rfl, (bits_bytes_iff hbits).mp hquantity,
      (bits_bytes_iff hbits).mp hfilled⟩
  · rintro ⟨hid, -, -, hquantity, hfilled⟩
    rw [orderBytes, orderBytes, hid, hquantity, hfilled]

/-- With lists of the same lengths the bodies tell every covered field apart. -/
theorem SessionState.body_eq_iff {s t : SessionState D} (hid : s.session_id = t.session_id)
    (hpositions : s.positions.length = t.positions.length)
    (horders : s.working_orders.length = t.working_orders.length) :
    s.body bits = t.body bits ↔ s.covered = t.covered := by
  have hpositionLengths : (s.positions.map fun p => (positionBytes bits p).length) =
      t.positions.map fun p => (positionBytes bits p).length := by
    simp [positionBytes, List.map_const', hpositions]
  have horderLengths : (s.working_orders.map fun o => (orderBytes bits o).length) =
      t.working_orders.map fun o => (orderBytes bits o).length := by
    simp [orderBytes, List.map_const', horders]
  constructor
  · intro heq
    obtain ⟨hsequence, heq⟩ := List.append_inj heq (by simp)
    obtain ⟨hfingerprint, heq⟩ := List.append_inj heq (by simp)
    obtain ⟨hevents, heq⟩ := List.append_inj heq (by simp)
    obtain ⟨hcash, heq⟩ := List.append_inj heq (by simp)
    obtain ⟨hequity, heq⟩ := List.append_inj heq (by simp)
    obtain ⟨hheld, heq⟩ := flatMap_append_inj hpositionLengths heq
    obtain ⟨hworking, -⟩ := flatMap_append_inj (x := []) (y := []) horderLengths (by
      rw [List.append_nil, List.append_nil, heq])
    rw [SessionState.covered, SessionState.covered, hid, sizeof64_inj hsequence,
      sizeof64_inj hfingerprint, sizeof64_inj hevents, (bits_bytes_iff hbits).mp hcash,
      (bits_bytes_iff hbits).mp hequity,
      (map_eq_map_iff fun _ _ => positionBytes_eq_iff hbits).mp hheld,
      (map_eq_map_iff fun _ _ => orderBytes_eq_iff hbits).mp hworking]
  · intro heq
    simp only [SessionState.covered, SessionState.mk.injEq, AccountSnapshot.mk.injEq] at heq
    obtain ⟨-, hsequence, -, -, hfingerprint, hevents, -, haccount, hheld, hworking, -, -⟩ := heq
    have hheld := (map_eq_map_iff fun _ _ => positionBytes_eq_iff hbits).mpr hheld
    have hworking := (map_eq_map_iff fun _ _ => orderBytes_eq_iff hbits).mpr hworking
    rw [SessionState.body, SessionState.body, hsequence, hfingerprint, hevents, haccount.2.1,
      haccount.2.2.1, List.flatMap_def, List.flatMap_def, List.flatMap_def, List.flatMap_def, hheld,
      hworking]

theorem SessionState.stream_eq_iff {s t : SessionState D} : s.stream bits = t.stream bits ↔
    s.covered = t.covered ∨ s.Slides bits t ∨ t.Slides bits s := by
  rw [s.stream_eq, t.stream_eq]
  constructor
  · intro heq
    by_cases hshape : s.shape = t.shape
    · left
      simp only [SessionState.shape, Prod.mk.injEq] at hshape
      obtain ⟨hid, hbody⟩ := List.append_inj heq hshape.1
      exact (SessionState.body_eq_iff hbits (characters_inj hid) hshape.2.1 hshape.2.2).mp hbody
    · right
      rcases List.append_eq_append_iff.mp heq with ⟨bytes, hid, hbody⟩ | ⟨bytes, hid, hbody⟩
      · exact .inl ⟨hshape, bytes, hid, hbody⟩
      · exact .inr ⟨Ne.symm hshape, bytes, hid, hbody⟩
  · rintro (hcovered | ⟨-, bytes, hid, hbody⟩ | ⟨-, bytes, hid, hbody⟩)
    · have hid : s.session_id = t.session_id := congrArg (fun u => u.session_id) hcovered
      have hpositions := congrArg (fun u => u.positions.length) hcovered
      have horders := congrArg (fun u => u.working_orders.length) hcovered
      simp only [SessionState.covered, List.length_map] at hpositions horders
      rw [(SessionState.body_eq_iff hbits hid hpositions horders).mpr hcovered, hid]
    · rw [hid, hbody, List.append_assoc]
    · rw [hid, hbody, List.append_assoc]

omit hbits in
theorem SessionState.restored_ne_of_slides {s t : SessionState D} (hslides : s.Slides bits t) :
    s.restored ≠ t.restored := by
  intro heq
  have hshape : s.restored.shape = t.restored.shape := by rw [heq]
  exact hslides.1 hshape

end Injective

end ptl.paper
