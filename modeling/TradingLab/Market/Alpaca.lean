import TradingLab.Core.Iso8601
import TradingLab.Databento.Decoder
import TradingLab.Ranking
import Std.Data.TreeMap.Lemmas

open ptl.databento (Json Library parse_error)
open Std (TreeMap)

namespace ptl.market

inductive AlpacaFeed where
  | Iex
  | Sip
  deriving DecidableEq, Repr

def AlpacaFeed.to_string : AlpacaFeed → String
  | .Sip => "sip"
  | .Iex => "iex"

structure AlpacaConfig where
  feed : AlpacaFeed := .Sip
  base_url : String := "https://data.alpaca.markets"
  page_limit : Nat := 10000
  deriving DecidableEq, Repr

structure ApiCredential where
  key_id : String
  secret : String
  deriving DecidableEq, Repr

structure HttpRequest where
  url : String
  headers : TreeMap String String := ∅
  query : TreeMap String String := ∅

structure HttpResponse where
  status : Int := 0
  body : String
  deriving DecidableEq, Repr

def HttpResponse.ok (r : HttpResponse) : Bool := 200 ≤ r.status ∧ r.status < 300

structure TimeRange where
  begin_ : Timestamp := kNoTimestamp
  end_ : Timestamp := kNoTimestamp
  deriving DecidableEq, Repr

def TimeRange.valid (r : TimeRange) : Bool := is_set r.begin_ ∧ is_set r.end_ ∧ r.begin_ < r.end_

/-- One minute, in nanoseconds. -/
def kMinute : Duration := 60 * 10 ^ 9

structure BarRequest where
  instruments : List InstrumentId
  range : TimeRange
  timeframe : Duration := kMinute
  deriving DecidableEq, Repr

/-! ### One payload -/

section Parsing

variable (lib : Library)

/-- A token that is no text is no token. -/
def next_page_token (doc : Json) : String := (doc.text "next_page_token").getD ""

/-- The timestamp of a row is the left edge of its interval. -/
def bar_row (id : InstrumentId) (symbol : String) (timeframe : Duration) (row : Json) : Result Bar :=
  if ¬ row.is_object then .error (parse_error "Alpaca bar row is not an object" symbol)
  else
    match row.text "t" with
    | none => .error (parse_error "Alpaca bar row has no 't' timestamp" symbol)
    | some t_str =>
      match parse_timestamp t_str.toList with
      | none => .error (parse_error "unparseable Alpaca bar timestamp" (symbol ++ " " ++ t_str))
      | some left_edge =>
        match lib.read_double row "o", lib.read_double row "h", lib.read_double row "l",
          lib.read_double row "c", lib.read_double row "v" with
        | some o, some h, some l, some c, some v =>
          match Bar.from_left_edge id left_edge timeframe o h l c v with
          | .error err =>
            .error (make_error .ValidationFailed ("Alpaca bar rejected: " ++ err.message) (symbol ++ " " ++ t_str))
          | .ok bar => .ok bar
        | _, _, _, _, _ =>
          .error (parse_error "Alpaca bar row is missing an OHLCV field" (symbol ++ " " ++ t_str))

def bar_rows (id : InstrumentId) (symbol : String) (timeframe : Duration) : List Json → Result (List Bar)
  | [] => .ok []
  | row :: rows =>
    match bar_row lib id symbol timeframe row with
    | .error err => .error err
    | .ok bar =>
      match bar_rows id symbol timeframe rows with
      | .error err => .error err
      | .ok bars => .ok (bar :: bars)

/-- Symbols are interned as they are seen. -/
def bar_symbols (timeframe : Duration) : List (String × Json) → InstrumentTable → Result (List Bar) × InstrumentTable
  | [], instruments => (.ok [], instruments)
  | (symbol, .array rows) :: members, instruments =>
    let (id, instruments) := instruments.intern symbol
    match bar_rows lib id symbol timeframe rows with
    | .error err => (.error err, instruments)
    | .ok bars =>
      match bar_symbols timeframe members instruments with
      | (.error err, instruments) => (.error err, instruments)
      | (.ok rest, instruments) => (.ok (bars ++ rest), instruments)
  | (symbol, _) :: _, instruments =>
    (.error (parse_error "Alpaca bars for a symbol is not an array" symbol), instruments)

def chronological (a b : Bar) : Bool :=
  if a.close_time ≠ b.close_time then a.close_time < b.close_time else a.instrument < b.instrument

/-- The bars of a payload, and the token of the next page. No data is no error. -/
def parse_alpaca_bars (payload : String) (timeframe : Duration) (instruments : InstrumentTable) :
    Result (List Bar) × String × InstrumentTable :=
  match lib.parse payload with
  | .error thrown => (.error (parse_error "malformed JSON in Alpaca bars payload" thrown), "", instruments)
  | .ok doc =>
    if ¬ doc.is_object then (.error (parse_error "Alpaca bars payload is not an object"), "", instruments)
    else
      match doc.find "bars" with
      | none => (.error (parse_error "Alpaca bars payload has no 'bars' member"), next_page_token doc, instruments)
      | some .null => (.ok [], next_page_token doc, instruments)
      | some (.object members) =>
        let (out, instruments) := bar_symbols lib timeframe members instruments
        (out.map (Ranking.sort chronological), next_page_token doc, instruments)
      | some _ =>
        (.error (parse_error "Alpaca 'bars' member is not a symbol map"), next_page_token doc, instruments)

end Parsing

/-! ### The provider -/

/-- What answers requests. -/
structure IHttpTransport (S : Type) where
  get : HttpRequest → S → Result HttpResponse × S

/-- The provider, with the transport and the table it borrows. -/
structure AlpacaProvider (S : Type) where
  cfg : AlpacaConfig := {}
  credential : ApiCredential
  transport : S
  instruments : InstrumentTable := {}

/-- A page as it was sent, the bars made of it and the token of the next. -/
structure Page where
  body : String
  bars : List Bar
  next : String

namespace AlpacaProvider

variable {S : Type} (lib : Library) (http : IHttpTransport S)

def make_request (p : AlpacaProvider S) (path : String) : HttpRequest where
  url := p.cfg.base_url ++ path
  headers := (∅ : TreeMap String String).insert "APCA-API-KEY-ID" p.credential.key_id
    |>.insert "APCA-API-SECRET-KEY" p.credential.secret

def symbols (p : AlpacaProvider S) (request : BarRequest) : String :=
  ",".intercalate (request.instruments.map p.instruments.symbol)

def page_request (p : AlpacaProvider S) (request : BarRequest) (symbols page_token : String) : HttpRequest :=
  let req := p.make_request "/v2/stocks/bars"
  let query := req.query
    |>.insert "symbols" symbols
    |>.insert "timeframe" "1Min"
    |>.insert "feed" p.cfg.feed.to_string
    |>.insert "start" (to_iso8601 request.range.begin_)
    |>.insert "end" (to_iso8601 request.range.end_)
    |>.insert "limit" (toString p.cfg.page_limit)
  { req with query := if page_token = "" then query else query.insert "page_token" page_token }

/-- The body of the loop. -/
def fetch_page (p : AlpacaProvider S) (request : BarRequest) (symbols page_token : String) :
    Result Page × AlpacaProvider S :=
  match http.get (p.page_request request symbols page_token) p.transport with
  | (.error err, transport) => (.error err, { p with transport })
  | (.ok response, transport) =>
    if ¬ response.ok then
      (.error (make_error .IoError ("Alpaca returned HTTP " ++ toString response.status) response.body),
        { p with transport })
    else
      match parse_alpaca_bars lib response.body request.timeframe p.instruments with
      | (.error err, _, instruments) => (.error err, { p with transport, instruments })
      | (.ok bars, next, instruments) => (.ok { body := response.body, bars, next }, { p with transport, instruments })

/-- Pages in turn, until one has no token or there were as many as may be: both end
alike. -/
def fetch_pages (request : BarRequest) (symbols : String) :
    Nat → AlpacaProvider S → String → Result (List Bar) × AlpacaProvider S
  | 0, p, _ => (.ok [], p)
  | remaining + 1, p, page_token =>
    match p.fetch_page lib http request symbols page_token with
    | (.error err, p) => (.error err, p)
    | (.ok page, p) =>
      if page.next = "" then (.ok page.bars, p)
      else
        match fetch_pages request symbols remaining p page.next with
        | (.error err, p) => (.error err, p)
        | (.ok bars, p) => (.ok (page.bars ++ bars), p)

def kMaxPages : Nat := 10000

def fetch_bars (p : AlpacaProvider S) (request : BarRequest) : Result (List Bar) × AlpacaProvider S :=
  if ¬ request.range.valid then (.error (make_error .InvalidArgument "bar request range is invalid"), p)
  else if request.instruments = [] then
    (.error (make_error .InvalidArgument "bar request names no instruments"), p)
  else if request.timeframe ≠ kMinute then
    (.error (make_error .Unsupported ("only 1Min bars are wired up; add the timeframe mapping " ++
      "deliberately rather than guessing the vendor spelling")), p)
  else
    let (all, after) := fetch_pages lib http request (p.symbols request) kMaxPages p ""
    (all.map (Ranking.sort chronological), after)

end AlpacaProvider

end ptl.market
