import TradingLab.Databento.Decoder
import TradingLab.Market.Alpaca
import TradingLab.Market.Bracketing
import TradingLab.Market.Replay

open ptl.market
open Std (TreeMap)

namespace ptl.databento

inductive Schema where
  | Cbbo1m
  | Cbbo1s
  | Ohlcv1m
  | Trades
  | Definition
  | CorporateActions
  deriving DecidableEq, Repr

def Schema.to_string : Schema → String
  | .Cbbo1m => "cbbo-1m"
  | .Cbbo1s => "cbbo-1s"
  | .Ohlcv1m => "ohlcv-1m"
  | .Trades => "trades"
  | .Definition => "definition"
  | .CorporateActions => "corporate-actions"

structure DatabentoConfig where
  base_url : String := "https://hist.databento.com"
  dataset : String := "EQUS.SUMMARY"
  schema : Schema := .Cbbo1m
  max_spend_usd : Rat := 25
  allow_spend_override : Bool := false
  deriving DecidableEq, Repr

structure CostEstimate where
  usd : Rat := 0
  bytes : UInt64 := 0
  record_count : UInt64 := 0
  estimated : Bool := false
  deriving DecidableEq, Repr

structure QuoteRequest where
  instruments : List InstrumentId
  range : TimeRange
  deriving DecidableEq, Repr

/-- What a JSON number is as a double. -/
def Json.number : Json → Option Rat
  | .integer n => some n.toInt
  | .unsigned n => some n.toNat
  | .float x => some x
  | _ => none

def Json.natural : Json → Option UInt64
  | .unsigned n => some n
  | _ => none

/-- The provider, with the transport, the table and the mapper it borrows. -/
structure DatabentoProvider (S : Type) where
  cfg : DatabentoConfig := {}
  credential : ApiCredential
  transport : S
  instruments : InstrumentTable := {}
  mapper : SymbolMapper

/-- The estimate a response holds. -/
def read_estimate (lib : Library) (body : String) : Result CostEstimate :=
  match lib.parse body with
  | .error thrown => .error (parse_error "malformed cost estimate" thrown)
  | .ok doc =>
    match doc.number with
    | some usd => .ok { usd, estimated := true }
    | none =>
      if ¬ doc.is_object then .error (bad "cost estimate is neither a number nor an object")
      else
        match ((doc.find "cost").bind Json.number).or ((doc.find "total_cost").bind Json.number) with
        | none =>
          .error (bad ("cost estimate response carries no cost field; the spend guard " ++
            "cannot be evaluated and the download is refused"))
        | some usd =>
          .ok {
            usd, estimated := true
            bytes := ((doc.find "size").bind Json.natural).getD 0
            record_count := ((doc.find "record_count").bind Json.natural).getD 0 }

namespace DatabentoProvider

variable {S : Type} (lib : Library) (http : IHttpTransport S) (fixed : Rat → String)

def make_request (p : DatabentoProvider S) (path : String) : HttpRequest where
  url := p.cfg.base_url ++ path
  headers := (∅ : TreeMap String String).insert "Authorization" ("Bearer " ++ p.credential.secret)

def symbols (p : DatabentoProvider S) (instruments : List InstrumentId) : String :=
  ",".intercalate (instruments.map p.instruments.symbol)

def cost_path : String := "/v0/metadata.get_cost"

def data_path : String := "/v0/timeseries.get_range"

/-- What a request asks for. -/
def ranged (p : DatabentoProvider S) (path schema symbols : String) (range : TimeRange) : HttpRequest :=
  let r := p.make_request path
  { r with
    query := r.query
      |>.insert "dataset" p.cfg.dataset
      |>.insert "schema" schema
      |>.insert "symbols" symbols
      |>.insert "start" (to_iso8601 range.begin_)
      |>.insert "end" (to_iso8601 range.end_) }

def cost_request (p : DatabentoProvider S) (request : QuoteRequest) : HttpRequest :=
  p.ranged cost_path p.cfg.schema.to_string (p.symbols request.instruments) request.range

def data_request (p : DatabentoProvider S) (schema : String) (instruments : List InstrumentId) (range : TimeRange) :
    HttpRequest :=
  let r := p.ranged data_path schema (p.symbols instruments) range
  { r with query := r.query.insert "encoding" "json" }

/-- The body of a response, unless it failed. -/
def body_of (what : String) : Result HttpResponse → Result String
  | .error err => .error err
  | .ok response =>
    if response.ok then .ok response.body
    else .error (make_error .IoError (what ++ toString response.status) response.body)

def estimate_cost (p : DatabentoProvider S) (request : QuoteRequest) :
    Result CostEstimate × DatabentoProvider S :=
  if ¬ request.range.valid then (.error (bad "cost estimate needs a valid time range"), p)
  else
    let (response, transport) := http.get (p.cost_request request) p.transport
    (match body_of "Databento cost estimate returned HTTP " response with
      | .error err => .error err
      | .ok body => read_estimate lib body, { p with transport })

/-- `fixed` prints two decimals. -/
def enforce_spend_guard (cfg : DatabentoConfig) (estimate : CostEstimate) : Result CostEstimate :=
  if ¬ estimate.estimated then
    .error (bad ("spend guard requires an estimate from the vendor; no per-GB " ++
      "assumption is hardcoded, because a stale assumption would make " ++
      "the guard meaningless exactly when prices changed"))
  else if ¬ is_finite estimate.usd ∨ estimate.usd < 0 then .error (bad "cost estimate is not a usable number")
  else if cfg.max_spend_usd < estimate.usd ∧ ¬ cfg.allow_spend_override then
    .error (make_error .ValidationFailed ("Databento cost estimate of $" ++ fixed estimate.usd ++
      " exceeds the configured maximum of $" ++ fixed cfg.max_spend_usd ++
      ". Raise data.databento.max_spend_usd deliberately, or narrow the request. (ADR-0001 spend guard.)"))
  else .ok estimate

def decoder (p : DatabentoProvider S) : Decoder := { lib, normaliser := { mapper := p.mapper } }

def fetch_quotes (p : DatabentoProvider S) (request : QuoteRequest) : Result (List Quote) × DatabentoProvider S :=
  if ¬ request.range.valid then (.error (bad "quote request range is invalid"), p)
  else if request.instruments = [] then (.error (bad "quote request names no instruments"), p)
  else if p.cfg.schema ≠ .Cbbo1m ∧ p.cfg.schema ≠ .Cbbo1s then
    (.error (make_error .Unsupported ("provider is configured for schema '" ++ p.cfg.schema.to_string ++
      "', which does not serve quotes")), p)
  else
    match p.estimate_cost lib http request with
    | (.error err, p) => (.error err, p)
    | (.ok estimate, p) =>
      match enforce_spend_guard fixed p.cfg estimate with
      | .error err => (.error err, p)
      | .ok _ =>
        let (response, transport) :=
          http.get (p.data_request p.cfg.schema.to_string request.instruments request.range) p.transport
        (match body_of "Databento returned HTTP " response with
          | .error err => .error err
          | .ok body => ((p.decoder lib).decode_quotes body).1, { p with transport })

/-- No estimate is asked for. -/
def fetch_bars (p : DatabentoProvider S) (request : BarRequest) : Result (List Bar) × DatabentoProvider S :=
  if ¬ request.range.valid then (.error (bad "bar request range is invalid"), p)
  else if p.cfg.schema ≠ .Ohlcv1m then
    (.error (make_error .Unsupported ("provider is configured for schema '" ++ p.cfg.schema.to_string ++
      "', which does not serve bars")), p)
  else
    let (response, transport) :=
      http.get (p.data_request "ohlcv-1m" request.instruments request.range) p.transport
    (match body_of "Databento returned HTTP " response with
      | .error err => .error err
      | .ok body => ((p.decoder lib).decode_bars body request.timeframe).1, { p with transport })

end DatabentoProvider

/-! ### The spend guard -/

/-- A request with what came back. -/
structure Exchange where
  request : HttpRequest
  response : Result HttpResponse

/-- A transport that writes down what passes. -/
def recording {S : Type} (http : IHttpTransport S) : IHttpTransport (S × List Exchange) where
  get r s := ((http.get r s.1).1, (http.get r s.1).2, s.2 ++ [{ request := r, response := (http.get r s.1).1 }])

/-- What may be asked of a provider. -/
inductive Call where
  | estimate (request : QuoteRequest)
  | quotes (request : QuoteRequest)
  | bars (request : BarRequest)

def DatabentoProvider.answer {S : Type} (lib : Library) (http : IHttpTransport S) (fixed : Rat → String)
    (p : DatabentoProvider S) : Call → DatabentoProvider S
  | .estimate request => (p.estimate_cost lib http request).2
  | .quotes request => (p.fetch_quotes lib http fixed request).2
  | .bars request => (p.fetch_bars lib http request).2

def Exchange.Downloads (cfg : DatabentoConfig) (x : Exchange) : Prop :=
  x.request.url = cfg.base_url ++ DatabentoProvider.data_path

/-- A cost within the limit, asked for what is then downloaded. -/
structure Exchange.Approves (lib : Library) (cfg : DatabentoConfig) (c x : Exchange) : Prop where
  asked : c.request.url = cfg.base_url ++ DatabentoProvider.cost_path
  same : ∀ key, key ≠ "encoding" → c.request.query[key]? = x.request.query[key]?
  answered : ∃ response estimate, c.response = .ok response ∧ response.ok = true ∧
    read_estimate lib response.body = .ok estimate ∧ 0 ≤ estimate.usd ∧
    (estimate.usd ≤ cfg.max_spend_usd ∨ cfg.allow_spend_override = true)

/-- Every download of anything but bars comes right after the cost that approves it. -/
def Guarded (lib : Library) (cfg : DatabentoConfig) (log : List Exchange) : Prop :=
  ∀ i x, log[i]? = some x → x.Downloads cfg → x.request.query["schema"]? ≠ some "ohlcv-1m" →
    ∃ j c, i = j + 1 ∧ log[j]? = some c ∧ c.Approves lib cfg x

section Guard

variable {lib : Library} {cfg : DatabentoConfig} {log : List Exchange}

theorem Guarded.nil : Guarded lib cfg [] := fun i x hx => by simp at hx

/-- Anything that needs no approval may follow. -/
theorem Guarded.snoc (hguarded : Guarded lib cfg log) {x : Exchange}
    (hfree : x.Downloads cfg → x.request.query["schema"]? = some "ohlcv-1m") : Guarded lib cfg (log ++ [x]) := by
  intro i y hy hdownloads hquotes
  rcases lt_or_ge i log.length with hold | hnew
  · rw [List.getElem?_append_left hold] at hy
    obtain ⟨j, c, rfl, hc, happroves⟩ := hguarded i y hy hdownloads hquotes
    exact ⟨j, c, rfl, by rwa [List.getElem?_append_left (by omega)], happroves⟩
  · rw [List.getElem?_append_right hnew] at hy
    obtain rfl : y = x := List.mem_singleton.mp (List.mem_of_getElem? hy)
    exact absurd (hfree hdownloads) hquotes

/-- What was approved may follow its approval. -/
theorem Guarded.approved {c x : Exchange} (hguarded : Guarded lib cfg (log ++ [c]))
    (happroves : c.Approves lib cfg x) : Guarded lib cfg ((log ++ [c]) ++ [x]) := by
  intro i y hy hdownloads hquotes
  rcases lt_or_ge i (log ++ [c]).length with hold | hnew
  · rw [List.getElem?_append_left hold] at hy
    obtain ⟨j, c', rfl, hc, hsame⟩ := hguarded i y hy hdownloads hquotes
    exact ⟨j, c', rfl, by rwa [List.getElem?_append_left (by omega)], hsame⟩
  · have hplace : i = log.length + 1 := by
      have hlength := (List.getElem?_eq_some_iff.mp hy).1
      simp only [List.length_append, List.length_singleton] at hlength hnew
      omega
    rw [List.getElem?_append_right hnew] at hy
    obtain rfl : y = x := List.mem_singleton.mp (List.mem_of_getElem? hy)
    refine ⟨log.length, c, hplace, ?_, happroves⟩
    simp

theorem cost_path_ne : DatabentoProvider.cost_path ≠ DatabentoProvider.data_path := by decide

variable {S : Type} {http : IHttpTransport S} {fixed : Rat → String}

/-- Nothing but the transport of a provider changes. -/
def DatabentoProvider.Passed (p p' : DatabentoProvider (S × List Exchange)) (added : List Exchange) : Prop :=
  ∃ t, p' = { p with transport := (t, p.transport.2 ++ added) }

theorem DatabentoProvider.Passed.none (p : DatabentoProvider (S × List Exchange)) : p.Passed p [] :=
  ⟨p.transport.1, by rw [List.append_nil]⟩

variable {p : DatabentoProvider (S × List Exchange)}

variable (lib http p) in
/-- An estimate is asked for once, if at all, and tells what was answered. -/
theorem DatabentoProvider.estimate_cost_passed (request : QuoteRequest) :
    (p.Passed (p.estimate_cost lib (recording http) request).2 [] ∧
      ∃ err, (p.estimate_cost lib (recording http) request).1 = .error err) ∨
    ∃ c, p.Passed (p.estimate_cost lib (recording http) request).2 [c] ∧ c.request = p.cost_request request ∧
      ∀ estimate, (p.estimate_cost lib (recording http) request).1 = .ok estimate →
        ∃ response, c.response = .ok response ∧ response.ok = true ∧
          read_estimate lib response.body = .ok estimate := by
  unfold estimate_cost
  split
  · exact .inl ⟨.none p, _, rfl⟩
  · refine .inr ⟨_, ⟨_, rfl⟩, rfl, fun estimate hok => ?_⟩
    simp only [recording] at hok ⊢
    cases hresponse : (http.get (p.cost_request request) p.transport.1).1 with
    | error err =>
      rw [hresponse] at hok
      cases hok
    | ok response =>
      rw [hresponse] at hok
      simp only [body_of] at hok
      by_cases hgood : response.ok = true
      · rw [if_pos hgood] at hok
        exact ⟨response, rfl, hgood, hok⟩
      · rw [if_neg hgood] at hok
        cases hok

theorem DatabentoProvider.approved {estimate approved : CostEstimate}
    (hok : enforce_spend_guard fixed cfg estimate = .ok approved) :
    0 ≤ estimate.usd ∧ (estimate.usd ≤ cfg.max_spend_usd ∨ cfg.allow_spend_override = true) := by
  unfold enforce_spend_guard at hok
  have hestimated := Result.passed hok
  split at hestimated
  · cases hestimated
  · rename_i husable
    split at hestimated
    · cases hestimated
    · rename_i hlimit
      refine ⟨not_lt.mp fun hnegative => husable (.inr hnegative), ?_⟩
      by_contra hnone
      simp only [not_or, not_le] at hnone
      exact hlimit ⟨hnone.1, by simpa using hnone.2⟩

/-- The cost that is asked for is that of the download, and only that is asked for beyond. -/
theorem DatabentoProvider.same_query (request : QuoteRequest) {key : String} (hkey : key ≠ "encoding") :
    (p.cost_request request).query[key]? =
      (p.data_request p.cfg.schema.to_string request.instruments request.range).query[key]? := by
  have hother : ¬ compare "encoding" key = .eq := fun heq => hkey (Std.LawfulEqOrd.eq_of_compare heq).symm
  rw [data_request, cost_request]
  dsimp only
  rw [TreeMap.getElem?_insert, if_neg hother]
  rfl

theorem DatabentoProvider.schema_of_data (schema : String) (instruments : List InstrumentId) (range : TimeRange) :
    (p.data_request schema instruments range).query["schema"]? = some schema := by
  rw [data_request, ranged]
  dsimp only
  rw [TreeMap.getElem?_insert, if_neg (by decide), TreeMap.getElem?_insert, if_neg (by decide),
    TreeMap.getElem?_insert, if_neg (by decide), TreeMap.getElem?_insert, if_neg (by decide),
    TreeMap.getElem?_insert_self]

theorem Guarded.of_passed {p' : DatabentoProvider (S × List Exchange)} {added : List Exchange}
    (hpassed : p.Passed p' added) (hguarded : Guarded lib cfg (p.transport.2 ++ added)) :
    Guarded lib cfg p'.transport.2 := by
  obtain ⟨t, rfl⟩ := hpassed
  exact hguarded

/-- A cost that was asked for needs no approval. -/
theorem Guarded.asked (hguarded : Guarded lib p.cfg log) {c : Exchange} {request : QuoteRequest}
    (hasked : c.request = p.cost_request request) : Guarded lib p.cfg (log ++ [c]) := by
  refine hguarded.snoc fun hdownloads => ?_
  rw [Exchange.Downloads, hasked] at hdownloads
  exact absurd ((String.append_right_inj _).mp hdownloads) cost_path_ne

variable (http) in
theorem Guarded.estimate_cost (hguarded : Guarded lib p.cfg p.transport.2) (request : QuoteRequest) :
    Guarded lib p.cfg (p.estimate_cost lib (recording http) request).2.transport.2 := by
  obtain ⟨hpassed, -⟩ | ⟨c, hpassed, hasked, -⟩ :=
    p.estimate_cost_passed lib http request
  · exact .of_passed hpassed (by rwa [List.append_nil])
  · exact .of_passed hpassed (hguarded.asked hasked)

theorem Guarded.fetch_quotes (hguarded : Guarded lib p.cfg p.transport.2) (request : QuoteRequest) :
    Guarded lib p.cfg (p.fetch_quotes lib (recording http) fixed request).2.transport.2 ∧
      (p.fetch_quotes lib (recording http) fixed request).2.cfg = p.cfg := by
  have hasked := hguarded.estimate_cost http request
  have hpassed := p.estimate_cost_passed lib http request
  unfold DatabentoProvider.fetch_quotes
  split
  · exact ⟨hguarded, rfl⟩
  · split
    · exact ⟨hguarded, rfl⟩
    · split
      · exact ⟨hguarded, rfl⟩
      · revert hasked hpassed
        rcases p.estimate_cost lib (recording http) request with ⟨answer, q⟩
        intro hasked hpassed
        obtain ⟨⟨t, rfl⟩, err, rfl⟩ | ⟨c, ⟨t, rfl⟩, hrequest, hanswered⟩ := hpassed
        · exact ⟨hasked, rfl⟩
        · cases answer with
          | error err => exact ⟨hasked, rfl⟩
          | ok estimate =>
            dsimp only
            cases hguard : DatabentoProvider.enforce_spend_guard fixed p.cfg estimate with
            | error err => exact ⟨hasked, rfl⟩
            | ok approved =>
              obtain ⟨response, hresponse, hgood, hread⟩ := hanswered estimate rfl
              obtain ⟨hnonneg, hlimit⟩ := DatabentoProvider.approved hguard
              refine ⟨hasked.approved ?_, rfl⟩
              exact {
                asked := by rw [hrequest]; rfl
                same := fun key hkey => by rw [hrequest]; exact p.same_query request hkey
                answered := ⟨response, estimate, hresponse, hgood, hread, hnonneg, hlimit⟩ }

theorem Guarded.fetch_bars (hguarded : Guarded lib p.cfg p.transport.2) (request : BarRequest) :
    Guarded lib p.cfg (p.fetch_bars lib (recording http) request).2.transport.2 ∧
      (p.fetch_bars lib (recording http) request).2.cfg = p.cfg := by
  unfold DatabentoProvider.fetch_bars
  split
  · exact ⟨hguarded, rfl⟩
  · split
    · exact ⟨hguarded, rfl⟩
    · exact ⟨hguarded.snoc fun _ => p.schema_of_data _ _ _, rfl⟩

variable (http fixed) in
/-- What was asked for so far is guarded, and the configuration is what it was. -/
theorem Guarded.answer (hguarded : Guarded lib p.cfg p.transport.2) (call : Call) :
    Guarded lib p.cfg (p.answer lib (recording http) fixed call).transport.2 ∧
      (p.answer lib (recording http) fixed call).cfg = p.cfg := by
  cases call with
  | estimate request =>
    refine ⟨hguarded.estimate_cost http request, ?_⟩
    rw [DatabentoProvider.answer]
    obtain ⟨⟨t, hpassed⟩, -⟩ | ⟨c, ⟨t, hpassed⟩, -⟩ :=
      p.estimate_cost_passed lib http request <;> rw [hpassed]
  | quotes request => exact hguarded.fetch_quotes request
  | bars request => exact hguarded.fetch_bars request

end Guard

/-- However a provider is called, and whatever the transport answers, nothing but bars is
downloaded unless the exchange right before was an estimate of that very download within
the limit. Bars are downloaded unasked. -/
theorem spend_guard_holds {S : Type} (lib : Library) (http : IHttpTransport S) (fixed : Rat → String)
    (cfg : DatabentoConfig) (credential : ApiCredential) (transport : S) (instruments : InstrumentTable)
    (mapper : SymbolMapper) (calls : List Call) :
    let p : DatabentoProvider (S × List Exchange) :=
      { cfg, credential, transport := (transport, []), instruments, mapper }
    ∀ i x, (calls.foldl (DatabentoProvider.answer lib (recording http) fixed) p).transport.2[i]? = some x →
      x.Downloads cfg → x.request.query["schema"]? ≠ some "ohlcv-1m" →
        ∃ j c, i = j + 1 ∧
          (calls.foldl (DatabentoProvider.answer lib (recording http) fixed) p).transport.2[j]? = some c ∧
          c.Approves lib cfg x := by
  intro p
  have hguarded : ∀ (calls : List Call) (q : DatabentoProvider (S × List Exchange)), q.cfg = cfg →
      Guarded lib cfg q.transport.2 →
        Guarded lib cfg (calls.foldl (DatabentoProvider.answer lib (recording http) fixed) q).transport.2 := by
    intro calls
    induction calls with
    | nil => exact fun q _ hguarded => hguarded
    | cons call calls ih =>
      rintro q rfl hguarded
      obtain ⟨hnext, hcfg⟩ := hguarded.answer http fixed call
      exact ih _ hcfg hnext
  exact hguarded calls p rfl .nil

/-! ### Quotes and bars in one stream -/

/-- The two heads in turn. On a tie the quote comes first. -/
def merge_loop : List Quote → List Bar → List MarketEvent
  | quotes, [] => quotes.map .quote
  | [], bars => bars.map .bar
  | q :: quotes, b :: bars =>
    if q.time.exchange_time ≤ b.close_time then .quote q :: merge_loop quotes (b :: bars)
    else .bar b :: merge_loop (q :: quotes) bars

/-- The exchange stamps a bar with its close. -/
def merge_quotes_and_bars (quotes : List Quote) (bars : List Bar) : Result (List MarketEvent) :=
  match firstUnordered 1 (quotes.map .quote) with
  | some (i, _, _) => .error (bad ("quote series is not chronological at index " ++ toString i))
  | none =>
    match firstUnordered 1 (bars.map .bar) with
    | some (i, _, _) => .error (bad ("bar series is not chronological at index " ++ toString i))
    | none => .ok (merge_loop quotes bars)

def build_replay_events (quotes : List Quote) (bars : List Bar) (calendar : Calendar) :
    Result (List MarketEvent) :=
  match merge_quotes_and_bars quotes bars with
  | .error err => .error err
  | .ok merged => with_session_events merged calendar

/-! ### What is replayed -/

theorem interleaves_quotes (events : List MarketEvent) : StreamMerge.Interleaves [events, []] events := by
  induction events with
  | nil => exact .done (by simp)
  | cons e rest ih =>
    have htake : StreamMerge.Interleaves ([] ++ (e :: rest) :: [[]]) (e :: rest) := .take ih
    exact htake

theorem interleaves_bars (events : List MarketEvent) : StreamMerge.Interleaves [[], events] events := by
  induction events with
  | nil => exact .done (by simp)
  | cons e rest ih =>
    have htake : StreamMerge.Interleaves ([[]] ++ (e :: rest) :: []) (e :: rest) := .take ih
    exact htake

/-- All quotes and all bars, each in their order. -/
theorem interleaves_merge_loop (quotes : List Quote) (bars : List Bar) :
    StreamMerge.Interleaves [quotes.map .quote, bars.map .bar] (merge_loop quotes bars) := by
  fun_induction merge_loop quotes bars with
  | case1 quotes => exact interleaves_quotes _
  | case2 bars _ => exact interleaves_bars _
  | case3 q quotes b bars _ ih =>
    have htake : StreamMerge.Interleaves ([] ++ (.quote q :: quotes.map .quote) :: [(b :: bars).map .bar])
        (.quote q :: merge_loop quotes (b :: bars)) := .take ih
    exact htake
  | case4 q quotes b bars _ ih =>
    have htake : StreamMerge.Interleaves ([(q :: quotes).map .quote] ++ (.bar b :: bars.map .bar) :: [])
        (.bar b :: merge_loop (q :: quotes) bars) := .take ih
    exact htake

theorem mem_merge_loop {quotes : List Quote} {bars : List Bar} {e : MarketEvent} :
    e ∈ merge_loop quotes bars ↔ e ∈ quotes.map MarketEvent.quote ∨ e ∈ bars.map MarketEvent.bar := by
  rw [(interleaves_merge_loop quotes bars).perm.mem_iff]
  simp

def is_quote : MarketEvent → Bool
  | .quote _ => true
  | _ => false

/-- One event after another, and a quote after anything else only when it is later. -/
def Follows (e e' : MarketEvent) : Prop :=
  exchange_time_of e ≤ exchange_time_of e' ∧
    (is_quote e' = true → is_quote e = false → exchange_time_of e < exchange_time_of e')

theorem pairwise_merge_loop {quotes : List Quote} {bars : List Bar}
    (hquotes : Chronological (quotes.map .quote)) (hbars : Chronological (bars.map .bar)) :
    (merge_loop quotes bars).Pairwise Follows := by
  rw [chronological_iff_pairwise] at hquotes hbars
  have hstamp : ∀ b : Bar, exchange_time_of (.bar b) = b.close_time := fun b => b.exchange_time_eq
  fun_induction merge_loop quotes bars with
  | case1 quotes =>
    refine hquotes.imp_of_mem fun {e e'} he _ hle => ⟨hle, fun _ hnot => ?_⟩
    obtain ⟨q, -, rfl⟩ := List.mem_map.mp he
    cases hnot
  | case2 bars _ =>
    refine hbars.imp_of_mem fun {e e'} _ he' hle => ⟨hle, fun hquote _ => ?_⟩
    obtain ⟨b, -, rfl⟩ := List.mem_map.mp he'
    cases hquote
  | case3 q quotes b bars hle ih =>
    obtain ⟨hfirst, hrest⟩ := List.pairwise_cons.mp hquotes
    refine .cons (fun e he => ⟨?_, nofun⟩) (ih hrest hbars)
    rcases mem_merge_loop.mp he with he | he
    · exact hfirst e he
    · obtain ⟨b', hb', rfl⟩ := List.mem_map.mp he
      rcases List.mem_cons.mp hb' with rfl | hb'
      · exact hle.trans_eq (hstamp _).symm
      · exact (hle.trans_eq (hstamp b).symm).trans ((List.pairwise_cons.mp hbars).1 _ (List.mem_map_of_mem hb'))
  | case4 q quotes b bars hless ih =>
    obtain ⟨hfirst, hrest⟩ := List.pairwise_cons.mp hbars
    have hquote : ∀ e ∈ (q :: quotes).map MarketEvent.quote, exchange_time_of (.bar b) < exchange_time_of e := by
      intro e he
      have hhead : exchange_time_of (.bar b) < exchange_time_of (.quote q) := by
        rw [hstamp]
        exact not_le.mp hless
      rcases List.mem_cons.mp he with rfl | he
      · exact hhead
      · exact hhead.trans_le ((List.pairwise_cons.mp hquotes).1 e he)
    refine .cons (fun e he => ?_) (ih hquotes hrest)
    rcases mem_merge_loop.mp he with he | he
    · exact ⟨(hquote e he).le, fun _ _ => hquote e he⟩
    · refine ⟨hfirst e he, fun hnot _ => ?_⟩
      obtain ⟨b', -, rfl⟩ := List.mem_map.mp he
      cases hnot

theorem merge_quotes_and_bars_ok_iff {quotes : List Quote} {bars : List Bar} {out : List MarketEvent} :
    merge_quotes_and_bars quotes bars = .ok out ↔
      Chronological (quotes.map .quote) ∧ Chronological (bars.map .bar) ∧ out = merge_loop quotes bars := by
  rw [← firstUnordered_none_iff (i := 1), ← firstUnordered_none_iff (i := 1), merge_quotes_and_bars]
  split
  · rename_i hquotes
    rw [hquotes]
    exact iff_of_false nofun nofun
  · rename_i hquotes
    rw [hquotes]
    split
    · rename_i hbars
      rw [hbars]
      exact iff_of_false nofun nofun
    · rename_i hbars
      rw [hbars, Except.ok.injEq, eq_comm]
      simp

/-- The events of sessions are stamped when they are received, and the others are what they
were. -/
theorem received_of_bracket {run : Session × List MarketEvent}
    (hcausal : ∀ e ∈ run.2, exchange_time_of e ≤ receive_time_of e) :
    ∀ e ∈ bracket run, exchange_time_of e ≤ receive_time_of e := by
  intro e he
  rcases List.mem_append.mp he with he | he
  · rcases List.mem_cons.mp he with rfl | he
    · exact le_rfl
    · exact hcausal e he
  · rw [List.mem_singleton.mp he]
    exact le_rfl

/-- In an orderly calendar a stream is built of chronological quotes and bars that fall into
sessions, and of no others. It can be replayed: in the order of time it holds every quote and
every bar, those of each kind as they were, a quote ahead of a bar of its time, and the open
and the close of every session around what falls into it. -/
theorem build_replay_events_sound {calendar : Calendar} (horderly : calendar.Orderly) (quotes : List Quote)
    (bars : List Bar) :
    ((∃ out, build_replay_events quotes bars calendar = .ok out) ↔
      Chronological (quotes.map .quote) ∧ Chronological (bars.map .bar) ∧
        ∀ e ∈ quotes.map MarketEvent.quote ++ bars.map .bar,
          (calendar.session_containing (exchange_time_of e)).isSome = true) ∧
    ∀ out, build_replay_events quotes bars calendar = .ok out →
      (∃ runs, Runs calendar runs ∧ out = runs.flatMap bracket ∧
        StreamMerge.Interleaves [quotes.map .quote, bars.map .bar] (runs.flatMap Prod.snd) ∧
        (runs.flatMap Prod.snd).Pairwise Follows) ∧
      Chronological out ∧ ∀ clock, ∃ r now, ReplaySource.create out (some clock) = .ok (r, now) := by
  have hmembers : ∀ e, e ∈ merge_loop quotes bars ↔ e ∈ quotes.map MarketEvent.quote ++ bars.map .bar :=
    fun e => mem_merge_loop.trans List.mem_append.symm
  have hbuilt : ∀ out, build_replay_events quotes bars calendar = .ok out ↔
      Chronological (quotes.map .quote) ∧ Chronological (bars.map .bar) ∧
        with_session_events (merge_loop quotes bars) calendar = .ok out := by
    intro out
    unfold build_replay_events
    cases hmerged : merge_quotes_and_bars quotes bars with
    | error err =>
      refine iff_of_false nofun fun h => ?_
      have hok := merge_quotes_and_bars_ok_iff.mpr ⟨h.1, h.2.1, rfl⟩
      rw [hmerged] at hok
      cases hok
    | ok merged =>
      obtain ⟨hquotes, hbars, rfl⟩ := merge_quotes_and_bars_ok_iff.mp hmerged
      simp only [hquotes, hbars, true_and]
  refine ⟨?_, fun out hok => ?_⟩
  · simp only [hbuilt, ← hmembers, ← with_session_events_ok_iff, exists_and_left]
  · obtain ⟨hquotes, hbars, hsessions⟩ := (hbuilt out).mp hok
    obtain ⟨runs, hruns, hmerged, hout⟩ := with_session_events_runs hsessions
    have hpairs := pairwise_merge_loop hquotes hbars
    have hinterleaves := interleaves_merge_loop quotes bars
    have hchron : Chronological out := by
      rw [hout]
      refine hruns.chronological horderly ?_
      rw [← hmerged, chronological_iff_pairwise]
      exact hpairs.imp fun h => h.1
    refine ⟨⟨runs, hruns, hout, hmerged ▸ hinterleaves, hmerged ▸ hpairs⟩, hchron, fun clock => ?_⟩
    refine ReplaySource.create_of_chronological hchron (fun e he => ?_) clock
    rw [hout] at he
    obtain ⟨run, hrun, he⟩ := List.mem_flatMap.mp he
    refine received_of_bracket (fun e' he' => ?_) e he
    have hmember : e' ∈ merge_loop quotes bars := hmerged ▸ List.mem_flatMap.mpr ⟨run, hrun, he'⟩
    rcases mem_merge_loop.mp hmember with h | h
    · obtain ⟨q, -, rfl⟩ := List.mem_map.mp h
      exact q.causal
    · obtain ⟨b, -, rfl⟩ := List.mem_map.mp h
      exact b.causal

/-- A quote of an hour of a day of January 2024. -/
def januaryQuote (day : Nat) (hour : Int) : Result Quote :=
  Quote.create 0 (from_ymd 2024 1 day + hours hour) 99 100 101 100

/-- A quote at the close of the second of three bars comes ahead of it. -/
theorem build_replay_events_sound_winter :
    ∃ calendar q out, Calendar.build us_equities_spec 2024 2024 = .ok calendar ∧ januaryQuote 2 20 = .ok q ∧
      build_replay_events [q] winterBars calendar = .ok out ∧ Chronological out := by
  obtain ⟨calendar, hbuild⟩ := us_equities_2024
  have horderly := us_equities_orderly hbuild
  have hquote : ∃ q, januaryQuote 2 20 = .ok q := ⟨_, rfl⟩
  obtain ⟨q, hq⟩ := hquote
  have hbars : Chronological (winterBars.map .bar) := by
    simp only [Chronological]
    decide +kernel
  have hsession : ∀ e ∈ [q].map MarketEvent.quote ++ winterBars.map .bar,
      (calendar.session_containing (exchange_time_of e)).isSome = true := by
    have hopen : ∀ e ∈ [q].map MarketEvent.quote ++ winterBars.map .bar,
        ∃ s ∈ calendar.all, s.contains (exchange_time_of e) = true := by
      rw [Calendar.build_all hbuild]
      cases hq
      decide +kernel
    intro e he
    obtain ⟨s, hs, hcontains⟩ := hopen e he
    rw [horderly.session_containing_iff.mpr ⟨hs, hcontains⟩]
    rfl
  obtain ⟨hbuilt, hsound⟩ := build_replay_events_sound horderly [q] winterBars
  obtain ⟨out, hout⟩ := hbuilt.mpr ⟨.singleton _, hbars, hsession⟩
  exact ⟨calendar, q, out, hbuild, hq, hout, (hsound out hout).2.1⟩

end ptl.databento
