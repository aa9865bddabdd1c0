import TradingLab.Databento.Decoder
import TradingLab.Engine.Engine
import TradingLab.Market.Replay

open ptl.market

/-! ### Sources that answer alike -/

set_option linter.dupNamespace false

namespace ptl.engine

variable {R S Q Q' A B C : Type}

/-- Two failures that are one, or two results that are related. -/
inductive Alike (P : A → B → Prop) : Except Failure A → Except Failure B → Prop where
  | failed (failure : Failure) : Alike P (.error failure) (.error failure)
  | ended {a : A} {b : B} (h : P a b) : Alike P (.ok a) (.ok b)

/-- What two sources answer, where they are to be told apart by nothing. -/
inductive Answers (P : Q → Q' → Prop) :
    Except String (Option (MarketEvent × Q × Timestamp)) →
      Except String (Option (MarketEvent × Q' × Timestamp)) → Prop where
  | thrown (what : String) : Answers P (.error what) (.error what)
  | exhausted : Answers P (.ok none) (.ok none)
  | event (ev : MarketEvent) (now : Timestamp) {q : Q} {q' : Q'} (hrel : P q q') :
      Answers P (.ok (some (ev, q, now))) (.ok (some (ev, q', now)))

def Lockstep.Sources (source : IMarketDataSource Q) (source' : IMarketDataSource Q') (P : Q → Q' → Prop) :
    Prop :=
  ∀ q q' clock, P q q' → Answers P (source.next q clock) (source'.next q' clock)

/-- Two worlds that differ in their sources only. -/
structure World.Alike (P : Q → Q' → Prop) (w : World R S Q) (w' : World R S Q') : Prop where
  engine_eq : w.engine = w'.engine
  strategy_eq : w.strategy = w'.strategy
  source : P w.source w'.source

variable {strategy : IStrategy S} {source : IMarketDataSource Q} {source' : IMarketDataSource Q'}
  {P : Q → Q' → Prop} {w : World R S Q} {w' : World R S Q'}

theorem World.Alike.loop (halike : w.Alike P w') (hlockstep : Lockstep.Sources source source' P) (n : Nat) :
    engine.Alike (fun r r' => r.1 = r'.1 ∧ World.Alike P r.2 r'.2) (w.loop strategy source n)
      (w'.loop strategy source' n) := by
  induction n generalizing w w' with
  | zero => exact .ended ⟨rfl, halike⟩
  | succ n ih =>
    have hanswers := hlockstep w.source w'.source w.engine.clock halike.source
    unfold World.loop
    rw [← halike.engine_eq, ← halike.strategy_eq]
    revert hanswers
    generalize source.next w.source w.engine.clock = answer
    generalize source'.next w'.source w.engine.clock = answer'
    intro hanswers
    cases hanswers with
    | thrown what => exact .failed _
    | exhausted => exact .ended ⟨rfl, halike⟩
    | event ev now hrel =>
      dsimp only
      cases w.engine.handle strategy w.strategy now ev with
      | error err => exact .failed _
      | ok handled =>
        obtain ⟨e, s⟩ := handled
        dsimp only
        generalize hfirst : World.loop strategy source n { engine := e, strategy := s, source := _ } = r
        generalize hsecond : World.loop strategy source' n { engine := e, strategy := s, source := _ } = r'
        have hrest := @ih { engine := e, strategy := s, source := _ } { engine := e, strategy := s, source := _ }
          ⟨rfl, rfl, hrel⟩
        rw [hfirst, hsecond] at hrest
        cases hrest with
        | failed failure => exact .failed _
        | ended h => exact .ended ⟨congrArg (· + 1) h.1, h.2⟩

theorem World.Alike.step (halike : w.Alike P w') (hlockstep : Lockstep.Sources source source' P) (n : Nat) :
    engine.Alike (fun r r' => r.1 = r'.1 ∧ World.Alike P r.2 r'.2) (w.step strategy source n)
      (w'.step strategy source' n) := by
  unfold World.step
  rw [← halike.engine_eq]
  split
  · exact .failed _
  · exact halike.loop hlockstep n

/-- What comes of a run, without its source. -/
def World.outcome (r : RunSummary × World R S Q) : RunSummary × Engine R × S := (r.1, r.2.engine, r.2.strategy)

theorem World.Alike.drain (halike : w.Alike P w') (hlockstep : Lockstep.Sources source source' P) (fuel : Nat) :
    Option.Rel (engine.Alike (World.Alike P)) (w.drain strategy source fuel) (w'.drain strategy source' fuel) := by
  induction fuel generalizing w w' with
  | zero => exact .none
  | succ fuel ih =>
    have hstep : engine.Alike _ (w.step strategy source 1024) _ := halike.step hlockstep 1024
    unfold World.drain
    revert hstep
    generalize w.step strategy source 1024 = r
    generalize w'.step strategy source' 1024 = r'
    intro hstep
    cases hstep with
    | failed failure => exact .some (.failed _)
    | @ended made made' h =>
      obtain ⟨k, v⟩ := made
      obtain ⟨k', v'⟩ := made'
      obtain ⟨rfl, hlater⟩ := h
      cases k with
      | zero => exact .some (.ended hlater)
      | succ k => exact ih hlater

/-- Runs over sources that answer alike come to the same, whatever the strategy does. -/
theorem World.Alike.run (halike : w.Alike P w') (hlockstep : Lockstep.Sources source source' P) (fuel : Nat) :
    (w.run strategy source fuel).map (Except.map World.outcome) =
      (w'.run strategy source' fuel).map (Except.map World.outcome) := by
  unfold World.run World.begin
  rw [← halike.engine_eq, ← halike.strategy_eq]
  cases strategy.on_start w.engine.begun.context w.strategy with
  | error err => rfl
  | ok s =>
    dsimp only
    have hbegun : World.Alike P { w with engine := w.engine.begun, strategy := s }
      { w' with engine := w.engine.begun, strategy := s } := ⟨rfl, rfl, halike.source⟩
    have hdrain : Option.Rel _ (World.drain strategy source fuel _) _ := hbegun.drain hlockstep fuel
    revert hdrain
    generalize World.drain strategy source fuel { w with engine := w.engine.begun, strategy := s } = r
    generalize World.drain strategy source' fuel { w' with engine := w.engine.begun, strategy := s } = r'
    intro hdrain
    cases hdrain with
    | none => rfl
    | some hended =>
      cases hended with
      | failed failure => rfl
      | ended hlast =>
        simp only [Option.map_some, Except.map, World.finish, World.outcome, hlast.engine_eq, hlast.strategy_eq]

end ptl.engine

namespace ptl.databento

/-- A source over payloads that were queued. The transport is the queue. -/
structure LiveQuoteSource where
  queue : List String
  decoder : Decoder
  pending : List MarketEvent := []
  last_emitted : Timestamp := kNoTimestamp
  decoded : Nat := 0
  payloads : Nat := 0

namespace LiveQuoteSource

/-- The loop of `refill`: a bad payload is skipped, and so is one without quotes. -/
def refill_from (s : LiveQuoteSource) : List String → Bool × LiveQuoteSource
  | [] => (false, { s with queue := [] })
  | payload :: queue =>
    match s.decoder.decode_quotes payload with
    | (.error _, decoder) => refill_from { s with decoder, payloads := s.payloads + 1 } queue
    | (.ok [], decoder) => refill_from { s with decoder, payloads := s.payloads + 1 } queue
    | (.ok quotes, decoder) =>
      (true, { s with
        decoder, queue
        payloads := s.payloads + 1
        pending := quotes.map .quote
        decoded := s.decoded + quotes.length })

def refill (s : LiveQuoteSource) : Bool × LiveQuoteSource :=
  if s.pending = [] then s.refill_from s.queue else (true, s)

theorem refill_from_shorter (s : LiveQuoteSource) (queue : List String) :
    (s.refill_from queue).1 = true → (s.refill_from queue).2.queue.length < queue.length := by
  induction queue generalizing s with
  | nil => exact fun hfound => absurd hfound Bool.false_ne_true
  | cons payload queue ih =>
    intro hfound
    rw [refill_from] at hfound ⊢
    split
    · rename_i hdecoded
      rw [hdecoded] at hfound
      exact (ih _ hfound).trans (Nat.lt_succ_self _)
    · rename_i hdecoded
      rw [hdecoded] at hfound
      exact (ih _ hfound).trans (Nat.lt_succ_self _)
    · exact Nat.lt_succ_self _

/-- An event that goes back in time is not emitted, and the next is looked at. -/
def next (s : LiveQuoteSource) : Option MarketEvent × LiveQuoteSource :=
  match _hrefill : s.refill with
  | (false, s') => (none, s')
  | (true, s') =>
    match _hpending : s'.pending with
    | [] => (none, s')
    | event :: pending =>
      let exchange_time := exchange_time_of event
      if is_set s'.last_emitted ∧ exchange_time < s'.last_emitted then next { s' with pending }
      else (some event, { s' with pending, last_emitted := exchange_time })
  termination_by (s.queue.length, s.pending.length)
  decreasing_by
    unfold refill at _hrefill
    split at _hrefill
    · have hshorter := s.refill_from_shorter s.queue (by rw [_hrefill])
      rw [_hrefill] at hshorter
      exact Prod.Lex.left _ _ hshorter
    · cases _hrefill
      rw [_hpending]
      exact Prod.Lex.right _ (Nat.lt_succ_self _)

/-- The clock is advanced to the time an event was received. -/
def next_event (s : LiveQuoteSource) (clock : Timestamp) :
    Except String (Option (MarketEvent × LiveQuoteSource × Timestamp)) :=
  match s.next with
  | (none, _) => .ok none
  | (some event, s) =>
    match SimulatedClock.advance_to clock (receive_time_of event) with
    | .error what => .error what
    | .ok now => .ok (some (event, s, now))

def peek_time (s : LiveQuoteSource) : Timestamp := s.pending.head?.elim kMaxTimestamp exchange_time_of

end LiveQuoteSource

/-! ### What payloads record -/

/-- Decoders that decode alike, whatever they have counted. -/
structure Decoder.Like (d d' : Decoder) : Prop where
  lib_eq : d'.lib = d.lib
  mapper_eq : d'.normaliser.mapper = d.normaliser.mapper
  cfg_eq : d'.normaliser.cfg = d.normaliser.cfg

theorem Decoder.Like.refl (d : Decoder) : d.Like d := ⟨rfl, rfl, rfl⟩

theorem each_fst {A : Type} (decode : Json → Outcome A) (count : Nat) (st st' : DecoderStats) (records : List Json) :
    (each decode count st records).1 = (each decode count st' records).1 := by
  induction records generalizing st st' with
  | nil => rfl
  | cons record records ih =>
    unfold each
    cases decode record with
    | failed err => rfl
    | dropped => exact ih _ _
    | decoded a => exact congrArg (Except.map (a :: ·)) (ih _ _)

theorem normalise_all_like (n : QuoteNormaliser) (raws : List RawQuote) :
    (n.normalise_all raws).2.mapper = n.mapper ∧ (n.normalise_all raws).2.cfg = n.cfg := by
  induction raws generalizing n with
  | nil => exact ⟨rfl, rfl⟩
  | cons raw raws ih =>
    obtain ⟨hmapper, hcfg⟩ := ih (n.normalise raw).2
    exact ⟨hmapper.trans QuoteNormaliser.normalise_mapper, hcfg.trans QuoteNormaliser.normalise_cfg⟩

theorem normalise_batch_like (n : QuoteNormaliser) (raws : List RawQuote) :
    (n.normalise_batch raws).2.mapper = n.mapper ∧ (n.normalise_batch raws).2.cfg = n.cfg := by
  have hall := normalise_all_like n raws
  unfold QuoteNormaliser.normalise_batch
  dsimp only
  split <;> exact hall

theorem normalise_batch_fst {n n' : QuoteNormaliser} (hmapper : n'.mapper = n.mapper) (hcfg : n'.cfg = n.cfg)
    (raws : List RawQuote) : (n'.normalise_batch raws).1 = (n.normalise_batch raws).1 := by
  have hnormalised : n'.normalised = n.normalised := by
    funext raw
    simp only [QuoteNormaliser.normalised, hmapper, hcfg]
  have hout : (n'.normalise_all raws).1 = (n.normalise_all raws).1 := by
    rw [(QuoteNormaliser.normalise_all_eq n' raws).1, (QuoteNormaliser.normalise_all_eq n raws).1, hnormalised]
  unfold QuoteNormaliser.normalise_batch
  dsimp only
  rw [hout]
  split <;> rfl

/-- A payload leaves a decoder that decodes as before. -/
theorem Decoder.like_decode_quotes (d : Decoder) (payload : String) : d.Like (d.decode_quotes payload).2 := by
  unfold Decoder.decode_quotes
  split
  · exact .refl d
  · split
    · exact ⟨rfl, rfl, rfl⟩
    · rename_i raws stats hraws
      obtain ⟨hmapper, hcfg⟩ := normalise_batch_like d.normaliser raws
      split
      · rename_i hbatch
        rw [hbatch] at hmapper hcfg
        exact ⟨rfl, hmapper, hcfg⟩
      · rename_i hbatch
        rw [hbatch] at hmapper hcfg
        exact ⟨rfl, hmapper, hcfg⟩

theorem Decoder.Like.decode_quotes {d d' : Decoder} (hlike : d.Like d') (payload : String) :
    (d'.decode_quotes payload).1 = (d.decode_quotes payload).1 := by
  have hraw : d'.raw_quote = d.raw_quote := by
    funext record
    simp only [Decoder.raw_quote, hlike.lib_eq]
  unfold Decoder.decode_quotes
  rw [hlike.lib_eq, hraw]
  split
  · rfl
  · rename_i records _
    have hsame := each_fst d.raw_quote 0 d'.stats d.stats records
    revert hsame
    generalize each d.raw_quote 0 d'.stats records = first
    generalize each d.raw_quote 0 d.stats records = second
    obtain ⟨result, stats⟩ := first
    obtain ⟨result', stats'⟩ := second
    rintro rfl
    cases result with
    | error err => rfl
    | ok raws =>
      have hbatch := normalise_batch_fst hlike.mapper_eq hlike.cfg_eq raws
      revert hbatch
      dsimp only
      generalize d'.normaliser.normalise_batch raws = first
      generalize d.normaliser.normalise_batch raws = second
      obtain ⟨result, n⟩ := first
      obtain ⟨result', n'⟩ := second
      rintro rfl
      cases result <;> rfl

/-- The quotes of a payload. A bad one has none. -/
def Decoder.quotes (d : Decoder) (payload : String) : List MarketEvent :=
  ((d.decode_quotes payload).1.toOption.getD []).map .quote

theorem Decoder.Like.quotes {d d' : Decoder} (hlike : d.Like d') : d'.quotes = d.quotes := by
  funext payload
  rw [Decoder.quotes, hlike.decode_quotes, Decoder.quotes]

/-- Events that are no older than any before them. -/
def rising (last : Timestamp) : List MarketEvent → List MarketEvent
  | [] => []
  | e :: rest =>
    if is_set last ∧ exchange_time_of e < last then rising last rest
    else e :: rising (exchange_time_of e) rest

namespace LiveQuoteSource

/-- What is still to come, in the order it was sent. -/
def upcoming (s : LiveQuoteSource) : List MarketEvent := s.pending ++ s.queue.flatMap s.decoder.quotes

/-- What is still to be emitted. -/
def remaining (s : LiveQuoteSource) : List MarketEvent := rising s.last_emitted s.upcoming

theorem refill_from_upcoming (s : LiveQuoteSource) (queue : List String) (hpending : s.pending = []) :
    (s.refill_from queue).2.upcoming = queue.flatMap s.decoder.quotes ∧
      (s.refill_from queue).2.last_emitted = s.last_emitted ∧
      ((s.refill_from queue).1 = false → (s.refill_from queue).2.upcoming = []) ∧
      ((s.refill_from queue).1 = true → (s.refill_from queue).2.pending ≠ []) := by
  induction queue generalizing s with
  | nil =>
    have hnone : ({ s with queue := [] } : LiveQuoteSource).upcoming = [] := by simp [upcoming, hpending]
    exact ⟨hnone, rfl, fun _ => hnone, nofun⟩
  | cons payload queue ih =>
    have hlike := s.decoder.like_decode_quotes payload
    have hquotes : s.decoder.quotes payload =
        ((s.decoder.decode_quotes payload).1.toOption.getD []).map .quote := rfl
    rw [refill_from, List.flatMap_cons]
    split
    · rename_i err decoder hdecoded
      rw [hdecoded] at hlike hquotes
      obtain ⟨hupcoming, hrest⟩ := ih { s with decoder, payloads := s.payloads + 1 } hpending
      rw [hquotes, ← hlike.quotes]
      exact ⟨hupcoming, hrest⟩
    · rename_i decoder hdecoded
      rw [hdecoded] at hlike hquotes
      obtain ⟨hupcoming, hrest⟩ := ih { s with decoder, payloads := s.payloads + 1 } hpending
      rw [hquotes, ← hlike.quotes]
      exact ⟨hupcoming, hrest⟩
    · rename_i quotes decoder hsome hdecoded
      rw [hdecoded] at hlike hquotes
      rw [hquotes, ← hlike.quotes]
      refine ⟨rfl, rfl, nofun, fun _ hempty => ?_⟩
      exact hsome (List.map_eq_nil_iff.mp hempty)

theorem refill_upcoming (s : LiveQuoteSource) :
    s.refill.2.upcoming = s.upcoming ∧ s.refill.2.last_emitted = s.last_emitted ∧
      (s.refill.1 = false → s.upcoming = []) ∧ (s.refill.1 = true → s.refill.2.pending ≠ []) := by
  unfold refill
  split
  · rename_i hpending
    obtain ⟨hupcoming, hlast, hnone, hsome⟩ := s.refill_from_upcoming s.queue hpending
    have hsame : s.upcoming = s.queue.flatMap s.decoder.quotes := by rw [upcoming, hpending, List.nil_append]
    rw [hsame]
    exact ⟨hupcoming, hlast, fun hended => hupcoming.symm.trans (hnone hended), hsome⟩
  · rename_i hpending
    exact ⟨rfl, rfl, nofun, fun _ => hpending⟩

/-- What is left, once an event was found. -/
theorem remaining_found (s : LiveQuoteSource) {t : LiveQuoteSource} {event : MarketEvent} {pending : List MarketEvent}
    (hrefill : s.refill = (true, t)) (hpending : t.pending = event :: pending) :
    s.remaining =
      if is_set t.last_emitted ∧ exchange_time_of event < t.last_emitted then { t with pending }.remaining
      else event :: { t with pending, last_emitted := exchange_time_of event }.remaining := by
  obtain ⟨hupcoming, hlast, -, -⟩ := s.refill_upcoming
  rw [hrefill] at hupcoming hlast
  rw [remaining, ← hupcoming, ← hlast, upcoming, hpending, List.cons_append, rising]
  rfl

theorem next_ended {s t : LiveQuoteSource} (hrefill : s.refill = (false, t)) : s.next = (none, t) := by
  rw [next]
  split
  · rename_i hended
    rw [hrefill] at hended
    cases hended
    rfl
  · rename_i hfound
    rw [hrefill] at hfound
    cases hfound

theorem next_found {s t : LiveQuoteSource} {event : MarketEvent} {pending : List MarketEvent}
    (hrefill : s.refill = (true, t)) (hpending : t.pending = event :: pending) :
    s.next =
      if is_set t.last_emitted ∧ exchange_time_of event < t.last_emitted then { t with pending }.next
      else (some event, { t with pending, last_emitted := exchange_time_of event }) := by
  rw [next]
  split
  · rename_i hended
    rw [hrefill] at hended
    cases hended
  · rename_i hfound
    rw [hrefill] at hfound
    cases hfound
    split
    · rename_i hnone
      cases hpending.symm.trans hnone
    · rename_i hsome
      cases hpending.symm.trans hsome
      rfl

/-- A call emits the first event that is left to emit, and leaves the others. -/
theorem next_remaining (s : LiveQuoteSource) :
    s.next.1 = s.remaining.head? ∧ (s.next.1.isSome = true → s.next.2.remaining = s.remaining.tail) := by
  induction s using next.induct with
  | case1 s t hrefill =>
    obtain ⟨-, -, hnone, -⟩ := s.refill_upcoming
    have hended : s.remaining = [] := by rw [remaining, hnone (by rw [hrefill]), rising]
    rw [next_ended hrefill, hended]
    exact ⟨rfl, nofun⟩
  | case2 s t hrefill hpending =>
    obtain ⟨-, -, -, hsome⟩ := s.refill_upcoming
    rw [hrefill] at hsome
    exact absurd hpending (hsome rfl)
  | case3 s t hrefill event pending hpending exchange_time hearlier ih =>
    have hsame := s.remaining_found hrefill hpending
    rw [next_found hrefill hpending, if_pos hearlier, hsame, if_pos hearlier]
    exact ih
  | case4 s t hrefill event pending hpending exchange_time hforward =>
    have hsame := s.remaining_found hrefill hpending
    rw [next_found hrefill hpending, if_neg hforward, hsame, if_neg hforward]
    exact ⟨rfl, fun _ => rfl⟩

end LiveQuoteSource

/-! ### What is emitted -/

theorem rising_sublist (last : Timestamp) (events : List MarketEvent) : (rising last events).Sublist events := by
  induction events generalizing last with
  | nil => exact .slnil
  | cons e rest ih =>
    rw [rising]
    split
    · exact (ih last).cons e
    · exact (ih _).cons_cons e

theorem le_of_mem_rising {last : Timestamp} {events : List MarketEvent} (hset : is_set last)
    (hevents : ∀ e ∈ events, is_set (exchange_time_of e)) : ∀ e ∈ rising last events, last ≤ exchange_time_of e := by
  induction events generalizing last with
  | nil => exact fun e he => absurd he List.not_mem_nil
  | cons e rest ih =>
    obtain ⟨hfirst, hrest⟩ := List.forall_mem_cons.mp hevents
    rw [rising]
    split
    · exact ih hset hrest
    · rename_i hforward
      have hle : last ≤ exchange_time_of e := not_lt.mp fun hless => hforward ⟨hset, hless⟩
      exact List.forall_mem_cons.mpr ⟨hle, fun e' he' => hle.trans (ih hfirst hrest e' he')⟩

theorem rising_chronological {last : Timestamp} {events : List MarketEvent}
    (hevents : ∀ e ∈ events, is_set (exchange_time_of e)) : Chronological (rising last events) := by
  rw [chronological_iff_pairwise]
  induction events generalizing last with
  | nil => exact .nil
  | cons e rest ih =>
    obtain ⟨hfirst, hrest⟩ := List.forall_mem_cons.mp hevents
    rw [rising]
    split
    · exact ih hrest
    · exact .cons (le_of_mem_rising hfirst hrest) (ih hrest)

theorem quote_create_received {instrument : InstrumentId} {exchange_time : Timestamp} {bid ask : Price}
    {bid_size ask_size : Qty} {feed_latency : Duration} {quote : Quote}
    (hcreate : Quote.create instrument exchange_time bid bid_size ask ask_size feed_latency = .ok quote) :
    quote.time.receive_time = quote.time.exchange_time + feed_latency := by
  unfold Quote.create at hcreate
  obtain ⟨_, hstamp⟩ := Result.passed_dite hcreate
  obtain ⟨_, hlatency⟩ := Result.passed_dite (Result.passed hstamp)
  obtain ⟨_, hprices⟩ := Result.passed_dite hlatency
  obtain ⟨_, hcrossed⟩ := Result.passed_dite hprices
  obtain ⟨_, hsizes⟩ := Result.passed_dite hcrossed
  cases hsizes
  rfl

theorem normalised_times {n : QuoteNormaliser} {raw : RawQuote} {quote : Quote}
    (hquote : n.normalised raw = .ok quote) :
    0 < quote.time.exchange_time ∧ quote.time.receive_time = quote.time.exchange_time + n.cfg.feed_latency := by
  have htime := (QuoteNormaliser.normalised_ok hquote).2.1
  simp only [QuoteNormaliser.normalised] at hquote
  split at hquote
  · cases hquote
  rename_i hpositive
  split at hquote
  · cases hquote
  split at hquote
  · cases hquote
  split at hquote
  · cases hquote
  split at hquote
  · cases hquote
  · rename_i hcreate
    cases hquote
    refine ⟨?_, quote_create_received hcreate⟩
    rw [htime]
    rw [Int64.le_iff_toInt_le] at hpositive
    exact not_le.mp hpositive

theorem Decoder.decode_quotes_made {d : Decoder} {payload : String} {quotes : List Quote}
    (hdecoded : (d.decode_quotes payload).1 = .ok quotes) :
    ∀ quote ∈ quotes, ∃ raw, d.normaliser.normalised raw = .ok quote := by
  unfold Decoder.decode_quotes at hdecoded
  split at hdecoded
  · cases hdecoded
  · split at hdecoded
    · cases hdecoded
    · rename_i raws stats hraws
      split at hdecoded
      · cases hdecoded
      · rename_i made n hbatch
        cases hdecoded
        obtain ⟨hquotes, -⟩ := QuoteNormaliser.normalise_batch_ok (congrArg Prod.fst hbatch)
        intro quote hquote
        rw [hquotes] at hquote
        obtain ⟨raw, -, hraw⟩ := List.mem_filterMap.mp hquote
        refine ⟨raw, ?_⟩
        cases hnormalised : d.normaliser.normalised raw <;> rw [hnormalised] at hraw <;> cases hraw
        rfl

/-- Quotes are stamped, and all received after one delay. -/
theorem Decoder.of_mem_quotes {d : Decoder} {payload : String} {e : MarketEvent} (he : e ∈ d.quotes payload) :
    0 < exchange_time_of e ∧ exchange_time_of e ≤ receive_time_of e ∧
      receive_time_of e = exchange_time_of e + d.normaliser.cfg.feed_latency := by
  rw [Decoder.quotes] at he
  obtain ⟨quote, hquote, rfl⟩ := List.mem_map.mp he
  cases hdecoded : (d.decode_quotes payload).1 with
  | error err =>
    rw [hdecoded] at hquote
    exact absurd hquote List.not_mem_nil
  | ok quotes =>
    rw [hdecoded] at hquote
    obtain ⟨raw, hraw⟩ := Decoder.decode_quotes_made hdecoded quote hquote
    obtain ⟨hpositive, hreceived⟩ := normalised_times hraw
    exact ⟨hpositive, quote.causal, hreceived⟩

theorem is_set_of_pos {ts : Timestamp} (hpositive : 0 < ts) : is_set ts := by
  have hunset : kNoTimestamp < 0 := by decide
  exact decide_eq_true (hunset.trans hpositive).ne'

/-! ### Live and replayed -/

/-- What the payloads record, without quotes that go back in time. -/
def recorded (d : Decoder) (queue : List String) : List MarketEvent :=
  rising kNoTimestamp (queue.flatMap d.quotes)

def live : engine.IMarketDataSource LiveQuoteSource := { next := LiveQuoteSource.next_event }

theorem recorded_times {d : Decoder} {queue : List String} :
    ∀ e ∈ recorded d queue, 0 < exchange_time_of e ∧ exchange_time_of e ≤ receive_time_of e ∧
      receive_time_of e = exchange_time_of e + d.normaliser.cfg.feed_latency := by
  intro e he
  obtain ⟨payload, -, hquote⟩ := List.mem_flatMap.mp ((rising_sublist _ _).subset he)
  exact Decoder.of_mem_quotes hquote

theorem recorded_chronological (d : Decoder) (queue : List String) : Chronological (recorded d queue) := by
  refine rising_chronological fun e he => ?_
  obtain ⟨payload, -, hquote⟩ := List.mem_flatMap.mp he
  exact is_set_of_pos (Decoder.of_mem_quotes hquote).1

/-- A replay of what was recorded can be made, and its clock never throws. -/
theorem recorded_replays (d : Decoder) (queue : List String) (clock : Timestamp) :
    ∃ r now, ReplaySource.create (recorded d queue) (some clock) = .ok (r, now) ∧
      r.events = recorded d queue ∧ r.next = 0 ∧ r.Drains now := by
  have htimes := @recorded_times d queue
  obtain ⟨r, now, hcreate⟩ := ReplaySource.create_of_chronological (recorded_chronological d queue)
    (fun e he => (htimes e he).2.1) clock
  obtain ⟨hevents, hnext, -⟩ := ReplaySource.create_ok hcreate
  refine ⟨r, now, hcreate, hevents, hnext, (ReplaySource.created_drains_iff hcreate).mpr ⟨?_, fun e he => ?_⟩⟩
  · have hpairs := chronological_iff_pairwise.mp (recorded_chronological d queue)
    refine List.Pairwise.isChain (hpairs.imp_of_mem fun {e e'} he he' hle => ?_)
    rw [(htimes e he).2.2, (htimes e' he').2.2]
    exact add_le_add_left hle _
  · obtain ⟨hpositive, hreceived, -⟩ := htimes e (List.mem_of_mem_head? he)
    exact .inl (is_set_of_pos (hpositive.trans_le hreceived))

/-- The live source stands where the replay stands. -/
theorem live_lockstep :
    engine.Lockstep.Sources live engine.replay fun s r => r.events.drop r.next = s.remaining := by
  intro s r clock hleft
  obtain ⟨hfirst, hrest⟩ := s.next_remaining
  show engine.Answers _ (s.next_event clock) (r.next_event clock)
  unfold LiveQuoteSource.next_event
  rcases hnext : s.next with ⟨first, later⟩
  rw [hnext] at hfirst hrest
  cases hremaining : s.remaining with
  | nil =>
    rw [hremaining] at hfirst hleft
    obtain rfl : first = none := hfirst
    have hevent : r.events[r.next]? = none := by
      rw [← List.head?_drop, hleft]
      rfl
    unfold ReplaySource.next_event
    rw [hevent]
    exact .exhausted
  | cons e rest =>
    rw [hremaining] at hfirst hleft hrest
    obtain rfl : first = some e := hfirst
    obtain ⟨hreplayed, hlater⟩ := r.next_event_cons clock hleft
    rw [hreplayed]
    unfold SimulatedClock.advance_to
    by_cases hbackwards : receive_time_of e < clock
    · simp only [if_pos hbackwards]
      exact .thrown _
    · simp only [if_neg hbackwards]
      exact .event e _ (hlater.trans (hrest rfl).symm)

/-- A live session over payloads and a backtest over the quotes they record come to the same,
whatever the strategy does, and what they record can always be replayed. -/
theorem live_parity (d : Decoder) (queue : List String) (clock : Timestamp) :
    ∃ r now, ReplaySource.create (recorded d queue) (some clock) = .ok (r, now) ∧ r.Drains now ∧
      ∀ (R S : Type) (strategy : engine.IStrategy S) (e : engine.Engine R) (s : S) (fuel : Nat),
        (engine.World.run strategy live
            { engine := e, strategy := s, source := { queue, decoder := d } } fuel).map
              (Except.map engine.World.outcome) =
          (engine.World.run strategy engine.replay { engine := e, strategy := s, source := r } fuel).map
            (Except.map engine.World.outcome) := by
  obtain ⟨r, now, hcreate, hevents, hnext, hdrains⟩ := recorded_replays d queue clock
  refine ⟨r, now, hcreate, hdrains, fun R S strategy e s fuel => ?_⟩
  refine engine.World.Alike.run (P := fun s r => r.events.drop r.next = s.remaining) ?_ live_lockstep fuel
  refine ⟨rfl, rfl, ?_⟩
  show r.events.drop r.next = rising kNoTimestamp (queue.flatMap d.quotes)
  rw [hevents, hnext, List.drop_zero]
  rfl

end ptl.databento
