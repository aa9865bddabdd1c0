import Mathlib.Data.Prod.Lex
import TradingLab.Core.Time
import TradingLab.StreamMerge

open StreamMerge

namespace ptl.market

def sane_price (p : Price) : Bool := is_finite p && decide (0 < p)

@[simp] theorem sane_price_iff (p : Price) : sane_price p = true ↔ 0 < p := by
  simp [sane_price]

/-- An interval of trading. It comes into existence at its close, so the close
    is its exchange time. -/
structure Bar where
  instrument : InstrumentId
  open_time : Timestamp
  close_time : Timestamp
  time : EventTime
  open_ : Price
  high : Price
  low : Price
  close : Price
  volume : Volume
  instrument_valid : instrument ≠ kInvalidInstrument
  opens_first : open_time < close_time
  exchange_time_eq : time.exchange_time = close_time
  causal : time.exchange_time ≤ time.receive_time
  low_pos : 0 < low
  open_in_range : low ≤ open_ ∧ open_ ≤ high
  close_in_range : low ≤ close ∧ close ≤ high
  volume_nonneg : 0 ≤ volume

def Bar.make (instrument : InstrumentId) (open_time close_time : Timestamp)
    (open_ high low close : Price) (volume : Volume) (feed_latency : Duration) : Result Bar :=
  if hinstrument : instrument = kInvalidInstrument then .error (bad "bar has no instrument")
  else if ¬ is_set open_time ∨ ¬ is_set close_time then .error (bad "bar timestamp unset")
  else if htimes : close_time ≤ open_time then
    .error (bad "bar close_time must be after open_time"
      (to_iso8601 open_time ++ " .. " ++ to_iso8601 close_time))
  else if hlatency : feed_latency < 0 then .error (bad "bar feed latency cannot be negative")
  else if hprices : ¬ (sane_price open_ ∧ sane_price high ∧ sane_price low ∧ sane_price close) then
    .error (bad "bar has a non-positive or non-finite price")
  else if hvolume : ¬ is_finite volume ∨ volume < 0 then
    .error (bad "bar has a negative or non-finite volume")
  else if high < low then .error (bad "bar low exceeds high")
  else if hopen : open_ < low ∨ high < open_ then .error (bad "bar open outside the low-high range")
  else if hclose : close < low ∨ high < close then
    .error (bad "bar close outside the low-high range")
  else
    .ok {
      instrument, open_time, close_time, open_, high, low, close, volume
      time := { exchange_time := close_time, receive_time := close_time + feed_latency }
      instrument_valid := hinstrument
      opens_first := not_le.mp htimes
      exchange_time_eq := rfl
      causal := by simpa using hlatency
      low_pos := by simp only [sane_price_iff, not_not] at hprices; exact hprices.2.2.1
      open_in_range := by simpa [not_or] using hopen
      close_in_range := by simpa [not_or] using hclose
      volume_nonneg := by simpa using hvolume }

/-- A bar without a range, one nanosecond long. -/
def flatBar (instrument : InstrumentId) (close_time : Timestamp) (price : Price) (volume : Volume)
    (feed_latency : Duration := 0) : Result Bar :=
  Bar.make instrument (close_time - 1) close_time price price price price volume feed_latency

/-- `open_time` is the start of the interval. -/
def Bar.from_left_edge (instrument : InstrumentId) (open_time : Timestamp) (timeframe : Duration)
    (open_ high low close : Price) (volume : Volume) (feed_latency : Duration := 0) : Result Bar :=
  if timeframe ≤ 0 then .error (bad "bar timeframe must be positive")
  else Bar.make instrument open_time (open_time + timeframe) open_ high low close volume feed_latency

structure Quote where
  instrument : InstrumentId
  time : EventTime
  bid : Price
  ask : Price
  bid_size : Qty
  ask_size : Qty
  instrument_valid : instrument ≠ kInvalidInstrument
  causal : time.exchange_time ≤ time.receive_time
  bid_pos : 0 < bid
  uncrossed : bid ≤ ask
  sizes_nonneg : 0 ≤ bid_size ∧ 0 ≤ ask_size
  deriving DecidableEq, Repr

def Quote.create (instrument : InstrumentId) (exchange_time : Timestamp) (bid : Price)
    (bid_size : Qty) (ask : Price) (ask_size : Qty) (feed_latency : Duration := 0) : Result Quote :=
  if hinstrument : instrument = kInvalidInstrument then .error (bad "quote has no instrument")
  else if ¬ is_set exchange_time then .error (bad "quote timestamp unset")
  else if hlatency : feed_latency < 0 then .error (bad "quote feed latency cannot be negative")
  else if hprices : ¬ (sane_price bid ∧ sane_price ask) then
    .error (bad "quote has a non-positive or non-finite price")
  else if hcrossed : ask < bid then
    .error (bad "quote is crossed: ask below bid" (to_iso8601 exchange_time))
  else if hsizes : ¬ is_finite bid_size ∨ ¬ is_finite ask_size ∨ bid_size < 0 ∨ ask_size < 0 then
    .error (bad "quote has a negative or non-finite size")
  else
    .ok {
      instrument, bid, ask, bid_size, ask_size
      time := { exchange_time, receive_time := exchange_time + feed_latency }
      instrument_valid := hinstrument
      causal := by simpa using hlatency
      bid_pos := by simp only [sane_price_iff, not_not] at hprices; exact hprices.1
      uncrossed := not_lt.mp hcrossed
      sizes_nonneg := by simpa [not_or] using hsizes }

structure Trade where
  instrument : InstrumentId
  time : EventTime
  price : Price
  size : Qty
  aggressor : Option Side
  instrument_valid : instrument ≠ kInvalidInstrument
  causal : time.exchange_time ≤ time.receive_time
  price_pos : 0 < price
  size_pos : 0 < size

def Trade.create (instrument : InstrumentId) (exchange_time : Timestamp) (price : Price)
    (size : Qty) (aggressor : Option Side) (feed_latency : Duration := 0) : Result Trade :=
  if hinstrument : instrument = kInvalidInstrument then .error (bad "trade has no instrument")
  else if ¬ is_set exchange_time then .error (bad "trade timestamp unset")
  else if hlatency : feed_latency < 0 then .error (bad "trade feed latency cannot be negative")
  else if hprice : ¬ sane_price price then
    .error (bad "trade has a non-positive or non-finite price")
  else if hsize : ¬ is_finite size ∨ size ≤ 0 then
    .error (bad "trade size must be positive and finite")
  else
    .ok {
      instrument, price, size, aggressor
      time := { exchange_time, receive_time := exchange_time + feed_latency }
      instrument_valid := hinstrument
      causal := by simpa using hlatency
      price_pos := by simpa using hprice
      size_pos := pos_of_checked hsize }

inductive CorporateActionKind where
  | Split
  | CashDividend
  deriving DecidableEq, Repr

structure CorporateAction where
  instrument : InstrumentId
  time : EventTime
  kind : CorporateActionKind
  split_ratio : Rat := 1
  dividend_amount : Notional := 0
  instrument_valid : instrument ≠ kInvalidInstrument
  causal : time.exchange_time ≤ time.receive_time
  ratio_pos : kind = .Split → 0 < split_ratio
  amount_pos : kind = .CashDividend → 0 < dividend_amount

def CorporateAction.split (instrument : InstrumentId) (effective : Timestamp) (ratio : Rat) :
    Result CorporateAction :=
  if hinstrument : instrument = kInvalidInstrument then .error (bad "split has no instrument")
  else if ¬ is_set effective then .error (bad "split timestamp unset")
  else if hratio : ¬ is_finite ratio ∨ ratio ≤ 0 then
    .error (bad "split ratio must be positive and finite")
  else
    .ok {
      instrument, split_ratio := ratio, kind := .Split
      time := { exchange_time := effective, receive_time := effective }
      instrument_valid := hinstrument
      causal := le_refl _
      ratio_pos := fun _ => pos_of_checked hratio
      amount_pos := nofun }

def CorporateAction.cash_dividend (instrument : InstrumentId) (ex_date : Timestamp)
    (amount : Notional) : Result CorporateAction :=
  if hinstrument : instrument = kInvalidInstrument then .error (bad "dividend has no instrument")
  else if ¬ is_set ex_date then .error (bad "dividend timestamp unset")
  else if hamount : ¬ is_finite amount ∨ amount ≤ 0 then
    .error (bad "dividend amount must be positive and finite")
  else
    .ok {
      instrument, dividend_amount := amount, kind := .CashDividend
      time := { exchange_time := ex_date, receive_time := ex_date }
      instrument_valid := hinstrument
      causal := le_refl _
      ratio_pos := nofun
      amount_pos := fun _ => pos_of_checked hamount }

inductive SessionEventKind where
  | Open
  | Close
  deriving DecidableEq, Repr

structure SessionEvent where
  time : EventTime
  kind : SessionEventKind
  deriving DecidableEq, Repr

structure TimerEvent where
  time : EventTime
  id : UInt64
  deriving DecidableEq, Repr

inductive MarketEvent where
  | bar (e : Bar)
  | quote (e : Quote)
  | trade (e : Trade)
  | corporateAction (e : CorporateAction)
  | session (e : SessionEvent)
  | timer (e : TimerEvent)

def time_of : MarketEvent → EventTime
  | .bar e => e.time
  | .quote e => e.time
  | .trade e => e.time
  | .corporateAction e => e.time
  | .session e => e.time
  | .timer e => e.time

def exchange_time_of (e : MarketEvent) : Timestamp := (time_of e).exchange_time

def receive_time_of (e : MarketEvent) : Timestamp := (time_of e).receive_time

inductive SessionKind where
  | Closed
  | Regular
  | HalfDay
  deriving DecidableEq, Repr

/-- A trading session in absolute instants, under the midnight of its date. -/
structure Session where
  date : Timestamp := kNoTimestamp
  open_ : Timestamp := kNoTimestamp
  close : Timestamp := kNoTimestamp
  kind : SessionKind := .Closed
  deriving DecidableEq, Repr

def Session.is_open (s : Session) : Bool := s.kind ≠ .Closed

/-- Half-open, so the close is no longer in the session. -/
def Session.contains (s : Session) (ts : Timestamp) : Bool := s.is_open ∧ s.open_ ≤ ts ∧ ts < s.close

def Session.length (s : Session) : Duration := s.close - s.open_

end ptl.market

namespace ptl

/-- The simulated clock refuses to move backwards by throwing, which no caller
    on the engine's path catches; the error here is the text thrown. -/
def SimulatedClock.advance_to (now ts : Timestamp) : Except String Timestamp :=
  if ts < now then
    .error ("SimulatedClock::advance_to moved backwards: from " ++ to_iso8601 now ++ " to " ++
      to_iso8601 ts)
  else .ok ts

end ptl

namespace ptl.market

/-- A replay over events that were checked when it was created. -/
structure ReplaySource where
  events : List MarketEvent
  next : Nat
  first : Timestamp
  chronological : events.IsChain fun e e' => exchange_time_of e ≤ exchange_time_of e'
  causal : ∀ e ∈ events, exchange_time_of e ≤ receive_time_of e

/-- The first index at which an event is stamped before its predecessor. -/
def firstUnordered (i : Nat) : List MarketEvent → Option (Nat × MarketEvent × MarketEvent)
  | prev :: cur :: rest =>
    if exchange_time_of cur < exchange_time_of prev then some (i, prev, cur)
    else firstUnordered (i + 1) (cur :: rest)
  | _ => none

theorem isChain_of_firstUnordered_none {events : List MarketEvent} {i : Nat}
    (hnone : firstUnordered i events = none) :
    events.IsChain fun e e' => exchange_time_of e ≤ exchange_time_of e' := by
  induction events generalizing i with
  | nil => exact .nil
  | cons prev rest ih =>
    cases rest with
    | nil => exact .singleton _
    | cons cur rest =>
      simp only [firstUnordered] at hnone
      split at hnone
      · cases hnone
      · rename_i horder
        exact .cons_cons (not_lt.mp horder) (ih hnone)

/-- The source is built and the clock set to its first receive time. -/
def ReplaySource.create (events : List MarketEvent) (clock : Option Timestamp) :
    Result (ReplaySource × Timestamp) :=
  match clock with
  | none => .error (make_error .InvalidArgument "replay source requires a clock")
  | some now =>
    match hchain : firstUnordered 1 events with
    | some (i, prev, cur) =>
      .error (make_error .ValidationFailed
        ("replay events are not chronological at index " ++ toString i)
        (to_iso8601 (exchange_time_of prev) ++ " followed by " ++ to_iso8601 (exchange_time_of cur)))
    | none =>
      match hcausal : events.findIdx? fun e => receive_time_of e < exchange_time_of e with
      | some i =>
        .error (make_error .ValidationFailed
          ("event " ++ toString i ++ " has receive_time before exchange_time"))
      | none =>
        let first := events.head?.elim kNoTimestamp receive_time_of
        .ok ({
          events, next := 0, first
          chronological := isChain_of_firstUnordered_none hchain
          causal := by simpa using hcausal }, if is_set first then first else now)

/-- The next event, with the clock advanced to its receive time. -/
def ReplaySource.next_event (s : ReplaySource) (clock : Timestamp) :
    Except String (Option (MarketEvent × ReplaySource × Timestamp)) :=
  match s.events[s.next]? with
  | none => .ok none
  | some e =>
    match SimulatedClock.advance_to clock (receive_time_of e) with
    | .error what => .error what
    | .ok now => .ok (some (e, { s with next := s.next + 1 }, now))

/-- A replay never turns the clock back, and shows no event before it
happened. -/
theorem ReplaySource.next_event_ok {s q : ReplaySource} {clock now : Timestamp} {e : MarketEvent}
    (hnext : s.next_event clock = .ok (some (e, q, now))) : clock ≤ now ∧ exchange_time_of e ≤ now := by
  unfold ReplaySource.next_event at hnext
  split at hnext
  · cases hnext
  · rename_i hevent
    split at hnext
    · cases hnext
    · rename_i hadvance
      cases hnext
      unfold SimulatedClock.advance_to at hadvance
      split at hadvance
      · cases hadvance
      · rename_i hforward
        cases hadvance
        exact ⟨not_lt.mp hforward, s.causal e (List.mem_of_getElem? hevent)⟩

/-- Session and timer events belong to no instrument. -/
def instrument_of : MarketEvent → InstrumentId
  | .bar e => e.instrument
  | .quote e => e.instrument
  | .trade e => e.instrument
  | .corporateAction e => e.instrument
  | .session _ => kInvalidInstrument
  | .timer _ => kInvalidInstrument

/-- Which of two heads is taken: the earlier, or at one time the one of the
smaller instrument. -/
def taken_before (e e' : MarketEvent) : Bool :=
  exchange_time_of e < exchange_time_of e' ∨
    (exchange_time_of e = exchange_time_of e' ∧ instrument_of e < instrument_of e')

/-- Merge several streams that are already sorted. The merged events are
checked, as an unsorted stream shows in them. -/
def merge_sorted (streams : List (List MarketEvent)) : Result (List MarketEvent) :=
  let out := merge taken_before (total streams) streams
  match firstUnordered 1 out with
  | some _ =>
    .error (make_error .ValidationFailed "merge produced an unordered stream; an input was unsorted")
  | none => .ok out

/-- Each event is stamped no earlier than the one before it. -/
def Chronological (events : List MarketEvent) : Prop :=
  events.IsChain fun e e' => exchange_time_of e ≤ exchange_time_of e'

theorem chronological_iff_pairwise {events : List MarketEvent} :
    Chronological events ↔ events.Pairwise fun e e' => exchange_time_of e ≤ exchange_time_of e' :=
  haveI : IsTrans MarketEvent fun e e' => exchange_time_of e ≤ exchange_time_of e' := ⟨fun _ _ _ => le_trans⟩
  List.isChain_iff_pairwise

theorem firstUnordered_none_iff {events : List MarketEvent} {i : Nat} :
    firstUnordered i events = none ↔ Chronological events := by
  refine ⟨isChain_of_firstUnordered_none, fun hchain => ?_⟩
  induction events generalizing i with
  | nil => rfl
  | cons e rest ih =>
    cases rest with
    | nil => rfl
    | cons e' rest =>
      obtain ⟨horder, hrest⟩ := List.isChain_cons_cons.mp hchain
      rw [firstUnordered, if_neg (not_lt.mpr horder)]
      exact ih hrest

/-- What decides between two heads. -/
def mergeKey (e : MarketEvent) : Int ×ₗ Nat := toLex (exchange_time_of e, (instrument_of e).toNat)

theorem taken_before_iff (e e' : MarketEvent) : taken_before e e' = true ↔ mergeKey e < mergeKey e' := by
  simp only [taken_before, mergeKey, decide_eq_true_eq, Prod.Lex.toLex_lt_toLex, UInt32.lt_iff_toNat_lt]

theorem exchange_time_le_of_mergeKey {e e' : MarketEvent} (hkey : mergeKey e ≤ mergeKey e') :
    exchange_time_of e ≤ exchange_time_of e' := by
  rcases Prod.Lex.toLex_le_toLex.mp hkey with hless | ⟨hsame, -⟩
  · exact le_of_lt hless
  · exact le_of_eq hsame

/-- No two of the streams hold events of one exchange time and one
instrument. -/
def Untied (streams : List (List MarketEvent)) : Prop :=
  streams.Pairwise fun s t => ∀ e ∈ s, ∀ e' ∈ t,
    ¬ (exchange_time_of e = exchange_time_of e' ∧ instrument_of e = instrument_of e')

theorem Untied.apart {streams : List (List MarketEvent)} (huntied : Untied streams) : Apart mergeKey streams := by
  refine huntied.imp fun hties e he e' he' hkey => hties e he e' he' ?_
  obtain ⟨htime, hinstrument⟩ := Prod.ext_iff.mp (toLex.injective hkey)
  exact ⟨htime, UInt32.toNat_inj.mp hinstrument⟩

theorem merged (streams : List (List MarketEvent)) :
    Merges mergeKey streams (merge taken_before (total streams) streams) :=
  merges_merge taken_before_iff (le_refl _)

theorem merge_sorted_eq_ok_iff {streams : List (List MarketEvent)} {out : List MarketEvent} :
    merge_sorted streams = .ok out ↔
      out = merge taken_before (total streams) streams ∧ Chronological out := by
  unfold merge_sorted
  dsimp only
  split
  · rename_i hunordered
    refine ⟨fun hok => (by cases hok), fun ⟨hout, hchain⟩ => ?_⟩
    rw [hout, ← firstUnordered_none_iff (i := 1), hunordered] at hchain
    cases hchain
  · rename_i hordered
    constructor
    · rintro hok
      cases hok
      exact ⟨rfl, firstUnordered_none_iff.mp hordered⟩
    · rintro ⟨rfl, -⟩
      rfl

/-- The merged events are chronological exactly when every stream is. -/
theorem merge_chronological_iff (streams : List (List MarketEvent)) :
    Chronological (merge taken_before (total streams) streams) ↔ ∀ s ∈ streams, Chronological s := by
  have hmerges := merged streams
  constructor
  · intro hchain s hs
    rw [chronological_iff_pairwise] at hchain ⊢
    exact hchain.sublist (hmerges.interleaves.sublist s hs)
  · intro hall
    rw [chronological_iff_pairwise]
    exact hmerges.sorted (fun _ _ => exchange_time_le_of_mergeKey) fun s hs =>
      chronological_iff_pairwise.mp (hall s hs)

/-- A merge succeeds on chronological streams and no others. It holds their
events, those of each stream in its order, in the order of time, and the same
ones in whatever order streams without ties are given. -/
theorem merge_sorted_sound (streams : List (List MarketEvent)) :
    ((∃ out, merge_sorted streams = .ok out) ↔ ∀ s ∈ streams, Chronological s) ∧
      ∀ out, merge_sorted streams = .ok out →
        Chronological out ∧ out.Perm streams.flatten ∧ Interleaves streams out ∧
          (Untied streams → ∀ others, streams.Perm others → merge_sorted others = .ok out) := by
  refine ⟨?_, fun out hok => ?_⟩
  · rw [← merge_chronological_iff]
    constructor
    · rintro ⟨out, hok⟩
      obtain ⟨rfl, hchain⟩ := merge_sorted_eq_ok_iff.mp hok
      exact hchain
    · exact fun hchain => ⟨_, merge_sorted_eq_ok_iff.mpr ⟨rfl, hchain⟩⟩
  · obtain ⟨rfl, hchain⟩ := merge_sorted_eq_ok_iff.mp hok
    have hinterleaves := (merged streams).interleaves
    refine ⟨hchain, hinterleaves.perm, hinterleaves, fun huntied others hperm => ?_⟩
    exact merge_sorted_eq_ok_iff.mpr ⟨(merged streams).unique (merged others) hperm huntied.apart, hchain⟩

end ptl.market
