import Mathlib.Data.List.Chain
import TradingLab.Market.Merge

namespace ptl.market

/-- Up to `n` calls of `next`, until the source is exhausted or the clock throws:
the events handed over, each with what the clock showed then. -/
def ReplaySource.drain : Nat → ReplaySource → Timestamp → Except String (List (MarketEvent × Timestamp))
  | 0, _, _ => .ok []
  | n + 1, s, clock =>
    match s.next_event clock with
    | .error what => .error what
    | .ok none => .ok []
    | .ok (some (e, q, now)) => (ReplaySource.drain n q now).map ((e, now) :: ·)

/-- However often `next` is called, the events still to come are handed over in
order, none of them ahead of the clock. -/
def ReplaySource.Drains (s : ReplaySource) (clock : Timestamp) : Prop :=
  ∃ delivered, (∀ n, s.events.length < n → s.drain n clock = .ok delivered) ∧
    delivered.map Prod.fst = s.events.drop s.next ∧ ∀ d ∈ delivered, receive_time_of d.1 ≤ d.2

/-- No event is received before this time, or before the event ahead of it. -/
def ReceivedInOrder (clock : Timestamp) (events : List MarketEvent) : Prop :=
  (clock :: events.map receive_time_of).IsChain (· ≤ ·)

instance (clock : Timestamp) (events : List MarketEvent) : Decidable (ReceivedInOrder clock events) :=
  inferInstanceAs (Decidable ((clock :: events.map receive_time_of).IsChain (· ≤ ·)))

@[simp] theorem receivedInOrder_nil (clock : Timestamp) : ReceivedInOrder clock [] := .singleton _

@[simp] theorem receivedInOrder_cons {clock : Timestamp} {e : MarketEvent} {rest : List MarketEvent} :
    ReceivedInOrder clock (e :: rest) ↔
      clock ≤ receive_time_of e ∧ ReceivedInOrder (receive_time_of e) rest := by
  unfold ReceivedInOrder
  rw [List.map_cons]
  exact List.isChain_cons_cons

/-- What a call of `next` does when an event is left. -/
theorem ReplaySource.next_event_cons {s : ReplaySource} (clock : Timestamp) {e : MarketEvent}
    {rest : List MarketEvent} (hleft : s.events.drop s.next = e :: rest) :
    s.next_event clock =
        (if receive_time_of e < clock then
          .error ("SimulatedClock::advance_to moved backwards: from " ++ to_iso8601 clock ++ " to " ++
            to_iso8601 (receive_time_of e))
        else .ok (some (e, { s with next := s.next + 1 }, receive_time_of e))) ∧
      s.events.drop (s.next + 1) = rest := by
  have hevent : s.events[s.next]? = some e := by
    rw [← List.head?_drop, hleft]
    rfl
  refine ⟨?_, ?_⟩
  · unfold ReplaySource.next_event SimulatedClock.advance_to
    rw [hevent]
    by_cases hbackwards : receive_time_of e < clock
    · simp only [if_pos hbackwards]
    · simp only [if_neg hbackwards]
  · rw [← List.tail_drop, hleft]
    rfl

/-- Events received in order are all handed over, the clock following them;
where they are not, the clock throws. -/
theorem ReplaySource.drain_eq {s : ReplaySource} (clock : Timestamp) {n : Nat} {left : List MarketEvent}
    (hleft : s.events.drop s.next = left) (henough : left.length < n) :
    (ReceivedInOrder clock left → s.drain n clock = .ok (left.map fun e => (e, receive_time_of e))) ∧
      (¬ ReceivedInOrder clock left → ∃ what, s.drain n clock = .error what) := by
  induction left generalizing s clock n with
  | nil =>
    obtain ⟨n, rfl⟩ := Nat.exists_eq_succ_of_ne_zero (Nat.ne_of_gt henough)
    have hevent : s.events[s.next]? = none := by
      rw [← List.head?_drop, hleft]
      rfl
    refine ⟨fun _ => ?_, fun hnot => absurd (receivedInOrder_nil clock) hnot⟩
    rw [ReplaySource.drain, ReplaySource.next_event, hevent]
    rfl
  | cons e rest ih =>
    obtain ⟨n, rfl⟩ := Nat.exists_eq_succ_of_ne_zero (Nat.ne_of_gt (Nat.zero_lt_of_lt henough))
    obtain ⟨hnext, hlater⟩ := s.next_event_cons clock hleft
    have hrest := @ih { s with next := s.next + 1 } (receive_time_of e) n hlater (by simpa using henough)
    rw [ReplaySource.drain, hnext]
    by_cases hbackwards : receive_time_of e < clock
    · rw [if_pos hbackwards]
      refine ⟨fun hordered => ?_, fun _ => ⟨_, rfl⟩⟩
      exact absurd (receivedInOrder_cons.mp hordered).1 (not_le.mpr hbackwards)
    · rw [if_neg hbackwards]
      refine ⟨fun hordered => ?_, fun hnot => ?_⟩
      · dsimp only
        rw [hrest.1 (receivedInOrder_cons.mp hordered).2]
        rfl
      · obtain ⟨what, hthrown⟩ := hrest.2 fun hordered =>
          hnot (receivedInOrder_cons.mpr ⟨not_lt.mp hbackwards, hordered⟩)
        dsimp only
        rw [hthrown]
        exact ⟨what, rfl⟩

/-- A source drains exactly when its remaining events are received in order from
now on. -/
theorem ReplaySource.drains_iff_receivedInOrder {s : ReplaySource} {clock : Timestamp} :
    s.Drains clock ↔ ReceivedInOrder clock (s.events.drop s.next) := by
  have hfits : (s.events.drop s.next).length < s.events.length + 1 := by
    rw [List.length_drop]
    omega
  constructor
  · rintro ⟨delivered, hdrained, -⟩
    by_contra hnot
    obtain ⟨what, hthrown⟩ := (s.drain_eq clock rfl hfits).2 hnot
    rw [hdrained _ (Nat.lt_succ_self _)] at hthrown
    cases hthrown
  · intro hordered
    refine ⟨_, fun n hn => (s.drain_eq _ rfl ?_).1 hordered, ?_, fun d hd => ?_⟩
    · rw [List.length_drop]
      omega
    · rw [List.map_map]
      exact List.map_id _
    · obtain ⟨e, -, rfl⟩ := List.mem_map.mp hd
      exact le_refl _

/-- A chronological stream of events that are received after they happened can be replayed. -/
theorem ReplaySource.create_of_chronological {events : List MarketEvent} (hchron : Chronological events)
    (hcausal : ∀ e ∈ events, exchange_time_of e ≤ receive_time_of e) (clock : Timestamp) :
    ∃ r now, ReplaySource.create events (some clock) = .ok (r, now) := by
  unfold ReplaySource.create
  dsimp only
  split
  · rename_i hunordered
    cases (firstUnordered_none_iff.mpr hchron).symm.trans hunordered
  · split
    · rename_i i hearly
      have hnone : (events.findIdx? fun e => receive_time_of e < exchange_time_of e) = none := by
        simpa [List.findIdx?_eq_none_iff] using hcausal
      cases hnone.symm.trans hearly
    · exact ⟨_, _, rfl⟩

/-- What a created replay holds, and where it leaves the clock. -/
theorem ReplaySource.create_ok {events : List MarketEvent} {clock now : Timestamp} {s : ReplaySource}
    (hcreate : ReplaySource.create events (some clock) = .ok (s, now)) :
    s.events = events ∧ s.next = 0 ∧
      now = if is_set (events.head?.elim kNoTimestamp receive_time_of) then
        events.head?.elim kNoTimestamp receive_time_of else clock := by
  unfold ReplaySource.create at hcreate
  dsimp only at hcreate
  split at hcreate
  · cases hcreate
  · split at hcreate
    · cases hcreate
    · cases hcreate
      exact ⟨rfl, rfl, rfl⟩

/-- A replay that was created drains exactly when no event is received before
the one ahead of it, and the first not before the clock where its time is
unset. -/
theorem ReplaySource.created_drains_iff {events : List MarketEvent} {clock now : Timestamp} {s : ReplaySource}
    (hcreate : ReplaySource.create events (some clock) = .ok (s, now)) :
    s.Drains now ↔ (events.IsChain fun e e' => receive_time_of e ≤ receive_time_of e') ∧
      ∀ e ∈ events.head?, is_set (receive_time_of e) ∨ clock ≤ receive_time_of e := by
  obtain ⟨hevents, hnext, hclock⟩ := ReplaySource.create_ok hcreate
  rw [ReplaySource.drains_iff_receivedInOrder, hevents, hnext, List.drop_zero]
  cases events with
  | nil => simp
  | cons e rest =>
    have hchain : ReceivedInOrder (receive_time_of e) rest ↔
        (e :: rest).IsChain fun e e' => receive_time_of e ≤ receive_time_of e' := by
      rw [ReceivedInOrder, ← List.map_cons, List.isChain_map]
    rw [receivedInOrder_cons, hchain, and_comm]
    refine and_congr_right fun _ => ?_
    have hstart : now = if is_set (receive_time_of e) then receive_time_of e else clock := hclock
    simp only [List.head?_cons, Option.mem_some_iff, forall_eq']
    by_cases hset : is_set (receive_time_of e) = true
    · rw [hstart, if_pos hset]
      exact iff_of_true (le_refl _) (.inl hset)
    · rw [hstart, if_neg hset]
      exact ⟨.inr, fun hor => hor.resolve_left hset⟩

/-- Quotes of the first instrument, each with its exchange time and its
latency. -/
def delayedQuotes (times : List (Timestamp × Duration)) : List MarketEvent :=
  times.filterMap fun time => (Quote.create 0 time.1 99 100 101 100 time.2).toOption.map .quote

/-- A replay of such quotes is created. -/
theorem ReplaySource.created_of_delayedQuotes (times : List (Timestamp × Duration))
    (hmade : (ReplaySource.create (delayedQuotes times) (some 0)).toOption.isSome = true) :
    ∃ s now, ReplaySource.create (delayedQuotes times) (some 0) = .ok (s, now) := by
  obtain ⟨⟨s, now⟩, hmade⟩ := Option.isSome_iff_exists.mp hmade
  exact ⟨s, now, Result.toOption_eq_some.mp hmade⟩

/-- With one latency for all, the events drain. -/
theorem ReplaySource.created_drains_iff_steady :
    ∃ s now, ReplaySource.create (delayedQuotes [(1000, 5), (1001, 5)]) (some 0) = .ok (s, now) ∧
      s.Drains now := by
  obtain ⟨s, now, hcreate⟩ := ReplaySource.created_of_delayedQuotes [(1000, 5), (1001, 5)]
    (by decide +kernel)
  exact ⟨s, now, hcreate, (ReplaySource.created_drains_iff hcreate).mpr (by decide +kernel)⟩

/-- A slow event is overtaken by one sent after it, and the clock throws. -/
theorem ReplaySource.created_not_drains :
    ¬ ∀ events clock s now, ReplaySource.create events (some clock) = .ok (s, now) → s.Drains now := by
  intro hdrains
  obtain ⟨s, now, hcreate⟩ := ReplaySource.created_of_delayedQuotes [(1000, 500), (1100, 0)]
    (by decide +kernel)
  have hordered := (ReplaySource.created_drains_iff hcreate).mp (hdrains _ _ _ _ hcreate)
  exact absurd hordered.1 (by decide +kernel)

end ptl.market
