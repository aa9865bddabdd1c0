import TradingLab.Market.Merge
import TradingLab.Market.SymbolMapper

namespace ptl.market

/-- A vendor's quote, with prices as scaled integers. -/
structure RawQuote where
  vendor_instrument_id : UInt32 := 0
  exchange_time_ns : Int64 := 0
  bid_price_fixed : Int64 := 0
  ask_price_fixed : Int64 := 0
  bid_size : UInt32 := 0
  ask_size : UInt32 := 0
  deriving DecidableEq, Repr

structure QuoteNormaliserConfig where
  price_scale : Rat := 1 / 10 ^ 9
  feed_latency : Duration := 500000
  drop_one_sided : Bool := true
  deriving DecidableEq, Repr

/-- What a record is dropped for. -/
inductive Dropped where
  | unmapped
  | one_sided
  | invalid
  | crossed
  deriving DecidableEq, Repr

structure QuoteNormaliserStats where
  accepted : Nat := 0
  dropped_unmapped : Nat := 0
  dropped_one_sided : Nat := 0
  dropped_invalid : Nat := 0
  dropped_crossed : Nat := 0
  deriving DecidableEq, Repr

/-- Everything that was dropped. -/
def QuoteNormaliserStats.dropped (st : QuoteNormaliserStats) : Nat :=
  st.dropped_unmapped + st.dropped_one_sided + st.dropped_invalid + st.dropped_crossed

def QuoteNormaliserStats.drop (st : QuoteNormaliserStats) : Dropped → QuoteNormaliserStats
  | .unmapped => { st with dropped_unmapped := st.dropped_unmapped + 1 }
  | .one_sided => { st with dropped_one_sided := st.dropped_one_sided + 1 }
  | .invalid => { st with dropped_invalid := st.dropped_invalid + 1 }
  | .crossed => { st with dropped_crossed := st.dropped_crossed + 1 }

structure QuoteNormaliser where
  mapper : SymbolMapper
  cfg : QuoteNormaliserConfig := {}
  stats : QuoteNormaliserStats := {}

theorem quote_create_ok {instrument : InstrumentId} {exchange_time : Timestamp} {bid ask : Price} {bid_size ask_size : Qty}
    {feed_latency : Duration} {quote : Quote}
    (hcreate : Quote.create instrument exchange_time bid bid_size ask ask_size feed_latency = .ok quote) :
    quote.instrument = instrument ∧ quote.time.exchange_time = exchange_time ∧ quote.bid = bid ∧ quote.ask = ask ∧
      quote.bid_size = bid_size ∧ quote.ask_size = ask_size := by
  unfold Quote.create at hcreate
  obtain ⟨_, hstamp⟩ := Result.passed_dite hcreate
  obtain ⟨_, hlatency⟩ := Result.passed_dite (Result.passed hstamp)
  obtain ⟨_, hprices⟩ := Result.passed_dite hlatency
  obtain ⟨_, hcrossed⟩ := Result.passed_dite hprices
  obtain ⟨_, hsizes⟩ := Result.passed_dite hcrossed
  cases hsizes
  exact ⟨rfl, rfl, rfl, rfl, rfl, rfl⟩

namespace QuoteNormaliser

/-- What becomes of a record, whatever has been counted. -/
def normalised (n : QuoteNormaliser) (raw : RawQuote) : Except Dropped Quote :=
  let exchange_time : Timestamp := raw.exchange_time_ns.toInt
  if raw.exchange_time_ns ≤ 0 then .error .invalid
  else
    match n.mapper.resolve_vendor_id raw.vendor_instrument_id exchange_time with
    | none => .error .unmapped
    | some instrument =>
      if n.cfg.drop_one_sided ∧ (raw.bid_price_fixed ≤ 0 ∨ raw.ask_price_fixed ≤ 0) then .error .one_sided
      else
        let bid : Price := raw.bid_price_fixed.toInt * n.cfg.price_scale
        let ask : Price := raw.ask_price_fixed.toInt * n.cfg.price_scale
        if ask < bid then .error .crossed
        else
          match Quote.create instrument exchange_time bid raw.bid_size.toNat ask raw.ask_size.toNat
            n.cfg.feed_latency with
          | .error _ => .error .invalid
          | .ok quote => .ok quote

def normalise (n : QuoteNormaliser) (raw : RawQuote) : Option Quote × QuoteNormaliser :=
  match n.normalised raw with
  | .error why => (none, { n with stats := n.stats.drop why })
  | .ok quote => (some quote, { n with stats := { n.stats with accepted := n.stats.accepted + 1 } })

def normalise_all (n : QuoteNormaliser) : List RawQuote → List Quote × QuoteNormaliser
  | [] => ([], n)
  | raw :: raws =>
    let (quote, n) := n.normalise raw
    let (out, n) := n.normalise_all raws
    (quote.toList ++ out, n)

/-- The first place from `i` on, if any, where a quote is older than the one before it. -/
def out_of_order (i : Nat) : List Quote → Option Nat
  | a :: b :: rest =>
    if b.time.exchange_time < a.time.exchange_time then some i else out_of_order (i + 1) (b :: rest)
  | _ => none

def normalise_batch (n : QuoteNormaliser) (raws : List RawQuote) : Result (List Quote) × QuoteNormaliser :=
  let (out, n) := n.normalise_all raws
  match out_of_order 1 out with
  | some i => (.error (bad ("normalised quotes are not chronological at index " ++ toString i)), n)
  | none => (.ok out, n)

def reset (n : QuoteNormaliser) : QuoteNormaliser := { n with stats := {} }

variable {n : QuoteNormaliser} {raw : RawQuote} {raws : List RawQuote} {quote : Quote}

/-- A quote that comes out has the record's own numbers. -/
theorem normalised_ok (hquote : n.normalised raw = .ok quote) :
    n.mapper.resolve_vendor_id raw.vendor_instrument_id quote.time.exchange_time = some quote.instrument ∧
      quote.time.exchange_time = raw.exchange_time_ns.toInt ∧
      quote.bid = raw.bid_price_fixed.toInt * n.cfg.price_scale ∧
      quote.ask = raw.ask_price_fixed.toInt * n.cfg.price_scale ∧
      quote.bid_size = raw.bid_size.toNat ∧ quote.ask_size = raw.ask_size.toNat := by
  simp only [normalised] at hquote
  split at hquote
  · cases hquote
  split at hquote
  · cases hquote
  rename_i instrument hinstrument
  split at hquote
  · cases hquote
  split at hquote
  · cases hquote
  split at hquote
  · cases hquote
  · rename_i hcreate
    cases hquote
    obtain ⟨hsame, htime, hbid, hask, hbidsize, hasksize⟩ := quote_create_ok hcreate
    rw [hsame, htime]
    exact ⟨hinstrument, rfl, hbid, hask, hbidsize, hasksize⟩

@[simp] theorem dropped_drop (st : QuoteNormaliserStats) (why : Dropped) :
    (st.drop why).dropped = st.dropped + 1 := by
  cases why <;> simp only [QuoteNormaliserStats.drop, QuoteNormaliserStats.dropped] <;> omega

@[simp] theorem normalise_mapper : (n.normalise raw).2.mapper = n.mapper := by
  unfold normalise
  split <;> rfl

@[simp] theorem normalise_cfg : (n.normalise raw).2.cfg = n.cfg := by
  unfold normalise
  split <;> rfl

theorem normalised_normalise (other : RawQuote) : (n.normalise raw).2.normalised other = n.normalised other := by
  simp only [normalised, normalise_mapper, normalise_cfg]

/-- One record gives a quote or adds one to what was dropped. -/
theorem normalise_eq (n : QuoteNormaliser) (raw : RawQuote) :
    (n.normalise raw).1 = (n.normalised raw).toOption ∧
      (n.normalise raw).2.stats.dropped + (n.normalise raw).1.toList.length = n.stats.dropped + 1 := by
  unfold normalise
  split
  · rename_i hnormalised
    exact ⟨by rw [hnormalised]; rfl, by simp⟩
  · rename_i hnormalised
    exact ⟨by rw [hnormalised]; rfl, by simp [QuoteNormaliserStats.dropped]⟩

/-- A batch keeps the order, and counts every record that gave no quote. -/
theorem normalise_all_eq (n : QuoteNormaliser) (raws : List RawQuote) :
    (n.normalise_all raws).1 = raws.filterMap (fun raw => (n.normalised raw).toOption) ∧
      (n.normalise_all raws).2.stats.dropped + (n.normalise_all raws).1.length = n.stats.dropped + raws.length := by
  induction raws generalizing n with
  | nil => exact ⟨rfl, rfl⟩
  | cons raw raws ih =>
    obtain ⟨hfirst, hcounted⟩ := normalise_eq n raw
    obtain ⟨hrest, hlength⟩ := ih (n.normalise raw).2
    simp only [normalise_all, List.length_append, List.length_cons]
    constructor
    · rw [hrest, hfirst]
      simp only [normalised_normalise]
      cases hnormalised : (n.normalised raw).toOption with
      | none => simp only [List.filterMap_cons, hnormalised, Option.toList_none, List.nil_append]
      | some quote => simp only [List.filterMap_cons, hnormalised, Option.toList_some, List.singleton_append]
    · omega

theorem normalise_batch_ok {quotes : List Quote} (hbatch : (n.normalise_batch raws).1 = .ok quotes) :
    quotes = raws.filterMap (fun raw => (n.normalised raw).toOption) ∧
      (n.normalise_batch raws).2.stats.dropped + quotes.length = n.stats.dropped + raws.length := by
  obtain ⟨hquotes, hcounted⟩ := normalise_all_eq n raws
  simp only [normalise_batch] at hbatch ⊢
  split at hbatch
  · cases hbatch
  · cases hbatch
    exact ⟨hquotes, by simpa using hcounted⟩

end QuoteNormaliser

end ptl.market
