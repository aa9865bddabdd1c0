import TradingLab.Core.Numbers
import TradingLab.Market.QuoteStream
import TradingLab.Ranking

namespace ptl.databento

open ptl.market

/-- What the JSON library makes of a text. A whole number stays one if 64 bits hold
it, and any other number is a double. -/
inductive Json where
  | null
  | boolean (b : Bool)
  | integer (n : Int64)
  | unsigned (n : UInt64)
  | float (x : Rat)
  | string (text : String)
  | array (elements : List Json)
  | object (members : List (String × Json))

/-- Only an object has members to find. -/
def Json.find : Json → String → Option Json
  | .object members, key => (members.find? fun entry => entry.1 = key).map Prod.snd
  | _, _ => none

def Json.is_object : Json → Bool
  | .object _ => true
  | _ => false

def Json.text (record : Json) (key : String) : Option String :=
  match record.find key with
  | some (.string text) => some text
  | _ => none

/-- What is used of the libraries: the JSON parser, with the text of what it throws,
`std::stod`, and whatever the cast of a double that 64 bits do not hold gives. -/
structure Library where
  parse : String → Except String Json
  stod : String → Option Rat
  overflow : Rat → Int64

/-- Whether 64 bits hold a number. -/
def Held (n : Int) : Prop := -2 ^ 63 ≤ n ∧ n < 2 ^ 63

instance (n : Int) : Decidable (Held n) := inferInstanceAs (Decidable (_ ∧ _))

/-- `std::stoll`. -/
def stoll (text : List Char) : Option Int64 :=
  match signed text with
  | none => none
  | some (negative, n) =>
    let v : Int := if negative then -n else n
    if Held v then some (Int64.ofInt v) else none

namespace Library

variable (lib : Library)

/-- `static_cast<std::int64_t>` of a double. -/
def truncated (x : Rat) : Int64 :=
  let whole := x.num.tdiv x.den
  if Held whole then Int64.ofInt whole else lib.overflow x

def as_i64 : Json → Option Int64
  | .integer n => some n
  | .unsigned n => some n.toInt64
  | .float x => some (lib.truncated x)
  | .string text => stoll text.toList
  | _ => none

def as_double : Json → Option Rat
  | .integer n => some n.toInt
  | .unsigned n => some n.toNat
  | .float x => some x
  | .string text => lib.stod text
  | _ => none

def read_i64 (obj : Json) (key : String) : Option Int64 := (obj.find key).bind lib.as_i64

def read_double (obj : Json) (key : String) : Option Rat := (obj.find key).bind lib.as_double

end Library

def parse_error (message : String) (context : String := "") : Error := make_error .ParseError message context

/-- A bare array and `records` of an object are both taken. -/
def parse_records (lib : Library) (payload what : String) : Result (List Json) :=
  match lib.parse payload with
  | .error thrown => .error (parse_error ("malformed JSON in Databento " ++ what) thrown)
  | .ok (.array elements) => .ok elements
  | .ok doc =>
    match doc.find "records" with
    | some (.array elements) => .ok elements
    | _ => .error (parse_error ("Databento " ++ what ++ " payload is neither an array nor a records object"))

structure InstrumentDefinition where
  instrument_id : UInt32 := 0
  raw_symbol : String := ""
  exchange : String := ""
  asset_class : String := ""
  min_price_increment : Rat := 1 / 100
  lot_size : UInt32 := 1
  deriving DecidableEq, Repr

/-- The lot size once the field was read. Only one above zero is taken over. -/
def InstrumentDefinition.lot_read (plain : InstrumentDefinition) : Option Int64 → UInt32
  | some lot => if 0 < lot then lot.toUInt64.toUInt32 else plain.lot_size
  | none => plain.lot_size

structure DecoderStats where
  records_read : Nat := 0
  records_decoded : Nat := 0
  records_rejected : Nat := 0
  deriving DecidableEq, Repr

def DecoderStats.decoded (st : DecoderStats) (count : Nat) : DecoderStats :=
  { st with records_decoded := st.records_decoded + count }

/-- What becomes of one record. One that is dropped is counted, one that fails ends the
decoding of its payload. -/
inductive Outcome (A : Type) where
  | decoded (a : A)
  | dropped
  | failed (err : Error)

def Outcome.toOption {A : Type} : Outcome A → Option A
  | .decoded a => some a
  | _ => none

/-- The records of a payload in turn. `count` is what a decoded one adds to the count. -/
def each {A : Type} (decode : Json → Outcome A) (count : Nat) (st : DecoderStats) :
    List Json → Result (List A) × DecoderStats
  | [] => (.ok [], st)
  | record :: records =>
    let st := { st with records_read := st.records_read + 1 }
    match decode record with
    | .failed err => (.error err, { st with records_rejected := st.records_rejected + 1 })
    | .dropped => each decode count { st with records_rejected := st.records_rejected + 1 } records
    | .decoded a =>
      let (out, st) := each decode count (st.decoded count) records
      (out.map (a :: ·), st)

/-- The normaliser and the decoder look symbols up in one mapper. -/
structure Decoder where
  lib : Library
  normaliser : QuoteNormaliser
  stats : DecoderStats := {}

namespace Decoder

variable (d : Decoder)

def mapper : SymbolMapper := d.normaliser.mapper

/-! ### One record of each schema -/

def raw_quote (record : Json) : Outcome RawQuote :=
  if ¬ record.is_object then .failed (parse_error "Databento quote record is not an object")
  else
    match d.lib.read_i64 record "instrument_id", d.lib.read_i64 record "ts_recv" with
    | some instrument_id, some ts =>
      match d.lib.read_i64 record "bid_px", d.lib.read_i64 record "ask_px" with
      | some bid, some ask =>
        let bid_sz := (d.lib.read_i64 record "bid_sz").getD 0
        let ask_sz := (d.lib.read_i64 record "ask_sz").getD 0
        .decoded {
          vendor_instrument_id := instrument_id.toUInt64.toUInt32
          exchange_time_ns := ts
          bid_price_fixed := bid
          ask_price_fixed := ask
          bid_size := (max 0 bid_sz).toUInt64.toUInt32
          ask_size := (max 0 ask_sz).toUInt64.toUInt32 }
      | _, _ => .failed (parse_error "Databento quote record lacks bid_px or ask_px")
    | _, _ => .failed (parse_error "Databento quote record lacks instrument_id or ts_recv")

def bar_of (timeframe : Duration) (record : Json) : Outcome Bar :=
  match d.lib.read_i64 record "instrument_id", d.lib.read_i64 record "ts_event" with
  | some instrument_id, some ts =>
    let left_edge : Timestamp := ts.toInt
    match d.mapper.resolve_vendor_id instrument_id.toUInt64.toUInt32 left_edge with
    | none => .dropped
    | some instrument =>
      match d.lib.read_double record "open", d.lib.read_double record "high", d.lib.read_double record "low",
        d.lib.read_double record "close" with
      | some o, some h, some l, some c =>
        let v := (d.lib.read_double record "volume").getD 0
        match Bar.from_left_edge instrument left_edge timeframe o h l c v with
        | .error err => .failed (make_error .ValidationFailed ("Databento bar rejected: " ++ err.message))
        | .ok bar => .decoded bar
      | _, _, _, _ => .failed (parse_error "Databento bar record is missing an OHLC field")
  | _, _ => .failed (parse_error "Databento bar record lacks instrument_id or ts_event")

def trade_of (record : Json) : Outcome Trade :=
  match d.lib.read_i64 record "instrument_id", d.lib.read_i64 record "ts_recv", d.lib.read_i64 record "price",
    d.lib.read_i64 record "size" with
  | some instrument_id, some ts, some px, some size =>
    let exchange_time : Timestamp := ts.toInt
    match d.mapper.resolve_vendor_id instrument_id.toUInt64.toUInt32 exchange_time with
    | none => .dropped
    | some instrument =>
      -- the aggressor is never inferred
      match Trade.create instrument exchange_time (px.toInt * (1 / 10 ^ 9)) size.toInt none with
      | .error _ => .dropped
      | .ok trade => .decoded trade
  | _, _, _, _ => .failed (parse_error "Databento trade record is missing a required field")

def definition_of (record : Json) : Outcome InstrumentDefinition :=
  match d.lib.read_i64 record "instrument_id" with
  | none => .failed (parse_error "instrument definition lacks instrument_id")
  | some id =>
    match record.text "raw_symbol" with
    | none => .failed (parse_error "instrument definition lacks raw_symbol")
    | some raw_symbol =>
      let plain : InstrumentDefinition := { instrument_id := id.toUInt64.toUInt32, raw_symbol }
      .decoded {
        plain with
        exchange := (record.text "exchange").getD plain.exchange
        asset_class := (record.text "asset_class").getD plain.asset_class
        min_price_increment := (d.lib.read_double record "min_price_increment").getD plain.min_price_increment
        lot_size := plain.lot_read (d.lib.read_i64 record "lot_size") }

def action_of (record : Json) : Outcome CorporateAction :=
  match d.lib.read_i64 record "instrument_id", d.lib.read_i64 record "ts_event" with
  | some instrument_id, some ts =>
    let effective : Timestamp := ts.toInt
    match d.mapper.resolve_vendor_id instrument_id.toUInt64.toUInt32 effective with
    | none => .dropped
    | some instrument =>
      let kind := (record.text "action").getD ""
      let checked : Result CorporateAction → Outcome CorporateAction
        | .error err => .failed err
        | .ok action => .decoded action
      if kind = "split" then
        match d.lib.read_double record "ratio" with
        | none => .failed (parse_error "split record lacks a ratio")
        | some ratio => checked (CorporateAction.split instrument effective ratio)
      else if kind = "dividend" ∨ kind = "cash_dividend" then
        match d.lib.read_double record "amount" with
        | none => .failed (parse_error "dividend record lacks an amount")
        | some amount => checked (CorporateAction.cash_dividend instrument effective amount)
      else
        .failed (parse_error ("unrecognised corporate action type '" ++ kind ++
          "'; a missed split corrupts every return across its effective date"))
  | _, _ => .failed (parse_error "corporate action lacks instrument_id or ts_event")

/-! ### Payloads -/

/-- A payload whose records are decoded one by one. -/
def decode_each {A : Type} (what : String) (decode : Json → Outcome A) (payload : String) :
    Result (List A) × Decoder :=
  match parse_records d.lib payload what with
  | .error err => (.error err, d)
  | .ok records =>
    let (out, stats) := each decode 1 d.stats records
    (out, { d with stats })

def decode_quotes (payload : String) : Result (List Quote) × Decoder :=
  match parse_records d.lib payload "quotes" with
  | .error err => (.error err, d)
  | .ok records =>
    -- only what the normaliser lets through counts as decoded
    match each d.raw_quote 0 d.stats records with
    | (.error err, stats) => (.error err, { d with stats })
    | (.ok raws, stats) =>
      match d.normaliser.normalise_batch raws with
      | (.error err, normaliser) => (.error err, { d with stats, normaliser })
      | (.ok quotes, normaliser) => (.ok quotes, { d with normaliser, stats := stats.decoded quotes.length })

def bar_before (a b : Bar) : Bool :=
  if a.close_time ≠ b.close_time then a.close_time < b.close_time else a.instrument < b.instrument

def decode_bars (payload : String) (timeframe : Duration) : Result (List Bar) × Decoder :=
  match parse_records d.lib payload "bars" with
  | .error err => (.error err, d)
  | .ok records =>
    if timeframe ≤ 0 then (.error (parse_error "bar timeframe must be positive"), d)
    else
      let (out, stats) := each (d.bar_of timeframe) 1 d.stats records
      (out.map (Ranking.sort bar_before), { d with stats })

def decode_trades (payload : String) : Result (List Trade) × Decoder := d.decode_each "trades" d.trade_of payload

def decode_definitions (payload : String) : Result (List InstrumentDefinition) × Decoder :=
  d.decode_each "definitions" d.definition_of payload

def decode_corporate_actions (payload : String) : Result (List CorporateAction) × Decoder :=
  d.decode_each "corporate actions" d.action_of payload

def reset : Decoder := { d with stats := {}, normaliser := d.normaliser.reset }

end Decoder

end ptl.databento
