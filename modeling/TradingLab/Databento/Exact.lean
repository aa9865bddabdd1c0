import Mathlib.Data.List.TakeWhile
import Mathlib.Tactic.NormNum
import TradingLab.Databento.Decoder

namespace ptl.databento

open ptl.market

/-! ### What the fields denote -/

/-- The number of a text that is digits to its end, after a sign if there is one. -/
def decimal (text : List Char) : Option Int :=
  let (negative, digits) := takeSign text
  if digits ≠ [] ∧ digits.all (Numeral.isDigit 10) then
    some (if negative then -(Numeral.ofDigits 10 digits : Int) else Numeral.ofDigits 10 digits)
  else none

/-- The whole number that a value denotes, however large. -/
def Json.denoted : Json → Option Int
  | .integer n => some n.toInt
  | .unsigned n => some n.toNat
  | .float x => if x.den = 1 then some x.num else none
  | .string text => decimal text.toList
  | _ => none

def Json.Denotes (record : Json) (key : String) (n : Int) : Prop :=
  (record.find key).bind Json.denoted = some n

/-- The field denotes a number with a property. -/
def Json.Fits (record : Json) (key : String) (p : Int → Prop) : Prop := ∃ n, record.Denotes key n ∧ p n

/-- Whether 32 bits hold a number without a sign. -/
def Held32 (n : Int) : Prop := 0 ≤ n ∧ n < 2 ^ 32

theorem Held32.held {n : Int} (hheld : Held32 n) : Held n := by
  obtain ⟨hnonneg, hbound⟩ := hheld
  constructor <;> omega

theorem held_toInt (m : Int64) : Held m.toInt := ⟨m.le_toInt, m.toInt_lt⟩

theorem held32_toNat (m : UInt32) : Held32 m.toNat := by
  have hbound := m.toNat_lt
  constructor <;> omega

theorem toInt_ofInt {n : Int} (hheld : Held n) : (Int64.ofInt n).toInt = n :=
  Int64.toInt_ofInt_of_le hheld.1 hheld.2

theorem toInt_toInt64 {n : UInt64} (hheld : Held n.toNat) : n.toInt64.toInt = n.toNat := by
  obtain ⟨_, hbound⟩ := hheld
  rw [← Int64.toInt_toBitVec]
  apply BitVec.toInt_eq_toNat_of_lt
  simp only [UInt64.toBitVec_toInt64, UInt64.toNat_toBitVec]
  omega

theorem nonneg_iff {m : Int64} : 0 ≤ m ↔ 0 ≤ m.toInt := by
  rw [Int64.le_iff_toInt_le, Int64.toInt_zero]

/-- Narrowing keeps a number that 32 bits hold. -/
theorem toNat_narrowed {m : Int64} (hheld : Held32 m.toInt) : (m.toUInt64.toUInt32.toNat : Int) = m.toInt := by
  obtain ⟨hnonneg, hbound⟩ := hheld
  have hle : 0 ≤ m := nonneg_iff.mpr hnonneg
  have hwide : m.toUInt64.toNat = m.toInt.toNat := Int64.toNat_toUInt64_of_le hle
  rw [UInt64.toNat_toUInt32, hwide, Nat.mod_eq_of_lt (by omega)]
  omega

theorem max_zero {m : Int64} (hnonneg : 0 ≤ m.toInt) : max 0 m = m :=
  if_pos (nonneg_iff.mpr hnonneg)

/-! ### What is read -/

/-- A whole decimal text is read to its end. -/
theorem stoll_of_decimal {text : List Char} {n : Int} (hdecimal : decimal text = some n) (hheld : Held n) :
    stoll text = some (Int64.ofInt n) := by
  have hstart : text.dropWhile isspace = text := by
    cases text with
    | nil => rfl
    | cons c rest =>
      apply List.dropWhile_cons_of_neg
      intro hspace
      simp only [isspace, decide_eq_true_eq, List.mem_cons, List.not_mem_nil, or_false] at hspace
      obtain rfl | rfl | rfl | rfl | rfl | rfl := hspace <;>
        simp [decimal, takeSign, Numeral.isDigit, Numeral.value] at hdecimal
  simp only [decimal] at hdecimal
  split at hdecimal
  · rename_i hdigits
    obtain ⟨hne, hall⟩ := hdigits
    have hleading : Numeral.leading 10 (takeSign text).2 = (takeSign text).2 :=
      List.takeWhile_eq_self_iff.mpr (List.all_eq_true.mp hall)
    have hsigned : signed text = some ((takeSign text).1, Numeral.ofDigits 10 (takeSign text).2) := by
      simp only [signed, hstart, hleading, if_neg hne]
    cases hdecimal
    simp only [stoll, hsigned, if_pos hheld]
  · cases hdecimal

variable {lib : Library} {record : Json} {key : String}

/-- A value that denotes a number of 64 bits is read as that number. -/
theorem as_i64_of_denoted (lib : Library) {v : Json} {n : Int} (hdenoted : v.denoted = some n) (hheld : Held n) :
    ∃ m, lib.as_i64 v = some m ∧ m.toInt = n := by
  cases v with
  | integer m =>
    cases hdenoted
    exact ⟨m, rfl, rfl⟩
  | unsigned m =>
    cases hdenoted
    exact ⟨m.toInt64, rfl, toInt_toInt64 hheld⟩
  | float x =>
    simp only [Json.denoted] at hdenoted
    split at hdenoted
    · rename_i hwhole
      cases hdenoted
      refine ⟨Int64.ofInt x.num, ?_, toInt_ofInt hheld⟩
      simp only [Library.as_i64, Library.truncated, hwhole, Nat.cast_one, Int.tdiv_one, if_pos hheld]
    · cases hdenoted
  | string text => exact ⟨Int64.ofInt n, stoll_of_decimal hdenoted hheld, toInt_ofInt hheld⟩
  | null => cases hdenoted
  | boolean b => cases hdenoted
  | array elements => cases hdenoted
  | object members => cases hdenoted

theorem read_of_denotes (lib : Library) {n : Int} (hdenotes : record.Denotes key n) (hheld : Held n) :
    ∃ m, lib.read_i64 record key = some m ∧ m.toInt = n := by
  unfold Json.Denotes at hdenotes
  obtain ⟨v, hfind, hdenoted⟩ := Option.bind_eq_some_iff.mp hdenotes
  obtain ⟨m, hread, htoInt⟩ := as_i64_of_denoted lib hdenoted hheld
  refine ⟨m, ?_, htoInt⟩
  rw [Library.read_i64, hfind]
  exact hread

theorem toInt_of_read {m : Int64} {n : Int} (hread : lib.read_i64 record key = some m)
    (hdenotes : record.Denotes key n) (hheld : Held n) : m.toInt = n := by
  obtain ⟨m', hread', htoInt⟩ := read_of_denotes lib hdenotes hheld
  rw [hread] at hread'
  cases hread'
  exact htoInt

/-- What was read is what the field denotes exactly if 64 bits hold what it denotes. -/
theorem denotes_iff {m : Int64} (hread : lib.read_i64 record key = some m) :
    record.Denotes key m.toInt ↔ record.Fits key Held := by
  constructor
  · intro hdenotes
    exact ⟨m.toInt, hdenotes, held_toInt m⟩
  · rintro ⟨n, hdenotes, hheld⟩
    rw [toInt_of_read hread hdenotes hheld]
    exact hdenotes

theorem narrowed_iff {m : Int64} (hread : lib.read_i64 record key = some m) :
    record.Denotes key m.toUInt64.toUInt32.toNat ↔ record.Fits key Held32 := by
  constructor
  · intro hdenotes
    exact ⟨_, hdenotes, held32_toNat _⟩
  · rintro ⟨n, hdenotes, hheld⟩
    have htoInt : m.toInt = n := toInt_of_read hread hdenotes hheld.held
    rw [toNat_narrowed (by rw [htoInt]; exact hheld), htoInt]
    exact hdenotes

/-! ### Items with the numbers of their records -/

/-- The instrument is the one that the mapper has for the id in the record. -/
def Identified (mapper : SymbolMapper) (record : Json) (instrument : InstrumentId) (as_of : Timestamp) : Prop :=
  ∃ id : UInt32, record.Denotes "instrument_id" id.toNat ∧ mapper.resolve_vendor_id id as_of = some instrument

/-- A field that is a fixed-point number. -/
def Scaled (record : Json) (key : String) (scale x : Rat) : Prop := ∃ n : Int, record.Denotes key n ∧ x = n * scale

/-- A size that may be left out. -/
def Sized (record : Json) (key : String) (size : Qty) : Prop :=
  record.find key = none ∧ size = 0 ∨ Scaled record key 1 size

/-- What `Sized` asks of the record. -/
def FitsSize (record : Json) (key : String) : Prop := record.find key = none ∨ record.Fits key Held32

structure ExactQuote (n : QuoteNormaliser) (record : Json) (quote : Quote) : Prop where
  instrument_id : Identified n.mapper record quote.instrument quote.time.exchange_time
  ts_recv : record.Denotes "ts_recv" quote.time.exchange_time
  bid_px : Scaled record "bid_px" n.cfg.price_scale quote.bid
  ask_px : Scaled record "ask_px" n.cfg.price_scale quote.ask
  bid_sz : Sized record "bid_sz" quote.bid_size
  ask_sz : Sized record "ask_sz" quote.ask_size

structure FitsQuote (record : Json) : Prop where
  instrument_id : record.Fits "instrument_id" Held32
  ts_recv : record.Fits "ts_recv" Held
  bid_px : record.Fits "bid_px" Held
  ask_px : record.Fits "ask_px" Held
  bid_sz : FitsSize record "bid_sz"
  ask_sz : FitsSize record "ask_sz"

structure ExactBar (mapper : SymbolMapper) (record : Json) (bar : Bar) : Prop where
  instrument_id : Identified mapper record bar.instrument bar.open_time
  ts_event : record.Denotes "ts_event" bar.open_time

structure ExactTrade (mapper : SymbolMapper) (record : Json) (trade : Trade) : Prop where
  instrument_id : Identified mapper record trade.instrument trade.time.exchange_time
  ts_recv : record.Denotes "ts_recv" trade.time.exchange_time
  price : Scaled record "price" (1 / 10 ^ 9) trade.price
  size : Scaled record "size" 1 trade.size

structure FitsTrade (record : Json) : Prop where
  instrument_id : record.Fits "instrument_id" Held32
  ts_recv : record.Fits "ts_recv" Held
  price : record.Fits "price" Held
  size : record.Fits "size" Held

structure ExactDefinition (record : Json) (definition : InstrumentDefinition) : Prop where
  instrument_id : record.Denotes "instrument_id" definition.instrument_id.toNat
  lot_size : record.find "lot_size" = none ∧ definition.lot_size = 1 ∨
    record.Denotes "lot_size" definition.lot_size.toNat

structure FitsDefinition (record : Json) : Prop where
  instrument_id : record.Fits "instrument_id" Held32
  lot_size : record.find "lot_size" = none ∨ record.Fits "lot_size" fun n => 0 < n ∧ Held32 n

structure ExactAction (mapper : SymbolMapper) (record : Json) (action : CorporateAction) : Prop where
  instrument_id : Identified mapper record action.instrument action.time.exchange_time
  ts_event : record.Denotes "ts_event" action.time.exchange_time

/-- What bars and corporate actions ask of the record. -/
structure FitsEvent (record : Json) : Prop where
  instrument_id : record.Fits "instrument_id" Held32
  ts_event : record.Fits "ts_event" Held

/-! ### An item has the numbers of its record exactly if they fit -/

theorem identified_iff {mapper : SymbolMapper} {m : Int64} {instrument : InstrumentId} {as_of : Timestamp}
    (hread : lib.read_i64 record "instrument_id" = some m)
    (hresolved : mapper.resolve_vendor_id m.toUInt64.toUInt32 as_of = some instrument) :
    Identified mapper record instrument as_of ↔ record.Fits "instrument_id" Held32 := by
  constructor
  · rintro ⟨id, hdenotes, _⟩
    exact ⟨_, hdenotes, held32_toNat id⟩
  · intro hfits
    exact ⟨_, (narrowed_iff hread).mpr hfits, hresolved⟩

/-- The two fields of bars and corporate actions. -/
theorem event_iff {mapper : SymbolMapper} {id ts : Int64} {instrument : InstrumentId} {time : Timestamp}
    (hid : lib.read_i64 record "instrument_id" = some id) (hts : lib.read_i64 record "ts_event" = some ts)
    (hresolved : mapper.resolve_vendor_id id.toUInt64.toUInt32 time = some instrument) (htime : time = ts.toInt) :
    Identified mapper record instrument time ∧ record.Denotes "ts_event" time ↔ FitsEvent record := by
  rw [identified_iff hid hresolved, htime, denotes_iff hts]
  constructor
  · rintro ⟨hidfits, htsfits⟩
    exact ⟨hidfits, htsfits⟩
  · rintro ⟨hidfits, htsfits⟩
    exact ⟨hidfits, htsfits⟩

theorem scaled_iff {m : Int64} {scale : Rat} (hread : lib.read_i64 record key = some m) (hscale : scale ≠ 0) :
    Scaled record key scale (m.toInt * scale) ↔ record.Fits key Held := by
  rw [← denotes_iff hread]
  constructor
  · rintro ⟨n, hdenotes, heq⟩
    have hn : m.toInt = n := by exact_mod_cast mul_right_cancel₀ hscale heq
    rw [hn]
    exact hdenotes
  · intro hdenotes
    exact ⟨_, hdenotes, rfl⟩

/-- A size left out or below zero is taken for zero. -/
theorem sized_iff :
    Sized record key ((max 0 ((lib.read_i64 record key).getD 0)).toUInt64.toUInt32.toNat : Nat) ↔
      FitsSize record key := by
  constructor
  · rintro (⟨hfind, _⟩ | ⟨n, hdenotes, heq⟩)
    · exact .inl hfind
    · have hn : ((max 0 ((lib.read_i64 record key).getD 0)).toUInt64.toUInt32.toNat : Int) = n := by
        rw [mul_one] at heq
        exact_mod_cast heq
      exact .inr ⟨n, hdenotes, hn ▸ held32_toNat _⟩
  · rintro (hfind | ⟨n, hdenotes, hheld⟩)
    · refine .inl ⟨hfind, ?_⟩
      rw [Library.read_i64, hfind, Option.bind_none, Option.getD_none, max_zero (by decide)]
      rfl
    · obtain ⟨m, hread, htoInt⟩ := read_of_denotes lib hdenotes hheld.held
      cases htoInt
      refine .inr ⟨m.toInt, hdenotes, ?_⟩
      rw [hread, Option.getD_some, max_zero hheld.1, mul_one]
      exact_mod_cast toNat_narrowed hheld

/-- A lot that is not taken over is none that fits. -/
theorem lot_iff {plain : InstrumentDefinition} (hplain : plain.lot_size = 1) :
    (record.find key = none ∧ plain.lot_read (lib.read_i64 record key) = 1 ∨
        record.Denotes key (plain.lot_read (lib.read_i64 record key)).toNat) ↔
      (record.find key = none ∨ record.Fits key fun n => 0 < n ∧ Held32 n) := by
  by_cases htaken : ∃ m, lib.read_i64 record key = some m ∧ 0 < m
  · obtain ⟨m, hread, hpos⟩ := htaken
    have hpos' : 0 < m.toInt := by simpa using Int64.lt_iff_toInt_lt.mp hpos
    have hfind : record.find key ≠ none := by
      intro hnone
      rw [Library.read_i64, hnone] at hread
      cases hread
    have hlot : plain.lot_read (some m) = m.toUInt64.toUInt32 := if_pos hpos
    rw [hread, hlot, narrowed_iff hread]
    simp only [hfind, false_and, false_or]
    constructor
    · rintro ⟨n, hdenotes, hheld⟩
      have htoInt : m.toInt = n := toInt_of_read hread hdenotes hheld.held
      exact ⟨n, hdenotes, by omega, hheld⟩
    · rintro ⟨n, hdenotes, _, hheld⟩
      exact ⟨n, hdenotes, hheld⟩
  · have hlot : plain.lot_read (lib.read_i64 record key) = 1 := by
      cases hread : lib.read_i64 record key with
      | none => exact hplain
      | some m => exact (if_neg fun hpos => htaken ⟨m, hread, hpos⟩).trans hplain
    have hnone : ∀ n, record.Denotes key n → Held32 n → ¬ 0 < n := by
      intro n hdenotes hheld hpos
      obtain ⟨m, hread, htoInt⟩ := read_of_denotes lib hdenotes hheld.held
      refine htaken ⟨m, hread, ?_⟩
      rw [Int64.lt_iff_toInt_lt, Int64.toInt_zero]
      omega
    rw [hlot]
    constructor
    · rintro (⟨hfind, _⟩ | hdenotes)
      · exact .inl hfind
      · exact absurd Int.one_pos (hnone 1 hdenotes ⟨by omega, by omega⟩)
    · rintro (hfind | ⟨n, hdenotes, hpos, hheld⟩)
      · exact .inl ⟨hfind, rfl⟩
      · exact absurd hpos (hnone n hdenotes hheld)

theorem from_left_edge_ok {instrument : InstrumentId} {open_time : Timestamp} {timeframe : Duration}
    {o h l c : Price} {v : Volume} {bar : Bar}
    (hbar : Bar.from_left_edge instrument open_time timeframe o h l c v = .ok bar) :
    bar.instrument = instrument ∧ bar.open_time = open_time := by
  unfold Bar.from_left_edge Bar.make at hbar
  have hmade := Result.passed hbar
  obtain ⟨_, hstamped⟩ := Result.passed_dite hmade
  obtain ⟨_, hlatency⟩ := Result.passed_dite (Result.passed hstamped)
  obtain ⟨_, hprices⟩ := Result.passed_dite hlatency
  obtain ⟨_, hvolume⟩ := Result.passed_dite hprices
  obtain ⟨_, hrange⟩ := Result.passed_dite hvolume
  obtain ⟨_, hopen⟩ := Result.passed_dite (Result.passed hrange)
  obtain ⟨_, hclose⟩ := Result.passed_dite hopen
  cases hclose
  exact ⟨rfl, rfl⟩

theorem trade_create_ok {instrument : InstrumentId} {exchange_time : Timestamp} {price : Price} {size : Qty}
    {aggressor : Option Side} {trade : Trade}
    (htrade : Trade.create instrument exchange_time price size aggressor = .ok trade) :
    trade.instrument = instrument ∧ trade.time.exchange_time = exchange_time ∧ trade.price = price ∧
      trade.size = size := by
  unfold Trade.create at htrade
  obtain ⟨_, hstamp⟩ := Result.passed_dite htrade
  obtain ⟨_, hprice⟩ := Result.passed_dite (Result.passed hstamp)
  obtain ⟨_, hsize⟩ := Result.passed_dite hprice
  obtain ⟨_, hmade⟩ := Result.passed_dite hsize
  cases hmade
  exact ⟨rfl, rfl, rfl, rfl⟩

theorem split_ok {instrument : InstrumentId} {effective : Timestamp} {ratio : Rat} {action : CorporateAction}
    (haction : CorporateAction.split instrument effective ratio = .ok action) :
    action.instrument = instrument ∧ action.time.exchange_time = effective := by
  unfold CorporateAction.split at haction
  obtain ⟨_, hstamp⟩ := Result.passed_dite haction
  obtain ⟨_, hmade⟩ := Result.passed_dite (Result.passed hstamp)
  cases hmade
  exact ⟨rfl, rfl⟩

theorem cash_dividend_ok {instrument : InstrumentId} {ex_date : Timestamp} {amount : Notional}
    {action : CorporateAction} (haction : CorporateAction.cash_dividend instrument ex_date amount = .ok action) :
    action.instrument = instrument ∧ action.time.exchange_time = ex_date := by
  unfold CorporateAction.cash_dividend at haction
  obtain ⟨_, hstamp⟩ := Result.passed_dite haction
  obtain ⟨_, hmade⟩ := Result.passed_dite (Result.passed hstamp)
  cases hmade
  exact ⟨rfl, rfl⟩

namespace Decoder

variable {d : Decoder}

/-- The quote of a record, if the normaliser lets it through. -/
def quote_of (d : Decoder) (record : Json) : Option Quote :=
  (d.raw_quote record).toOption.bind fun raw => (d.normaliser.normalised raw).toOption

theorem raw_quote_decoded {raw : RawQuote} (hdecoded : d.raw_quote record = .decoded raw) :
    ∃ id ts bid ask, d.lib.read_i64 record "instrument_id" = some id ∧ d.lib.read_i64 record "ts_recv" = some ts ∧
      d.lib.read_i64 record "bid_px" = some bid ∧ d.lib.read_i64 record "ask_px" = some ask ∧
      raw = {
        vendor_instrument_id := id.toUInt64.toUInt32
        exchange_time_ns := ts
        bid_price_fixed := bid
        ask_price_fixed := ask
        bid_size := (max 0 ((d.lib.read_i64 record "bid_sz").getD 0)).toUInt64.toUInt32
        ask_size := (max 0 ((d.lib.read_i64 record "ask_sz").getD 0)).toUInt64.toUInt32 } := by
  simp only [raw_quote] at hdecoded
  split at hdecoded
  · cases hdecoded
  split at hdecoded
  · rename_i id ts hid hts
    split at hdecoded
    · rename_i bid ask hbid hask
      cases hdecoded
      exact ⟨id, ts, bid, ask, hid, hts, hbid, hask, rfl⟩
    · cases hdecoded
  · cases hdecoded

theorem exact_quote_iff {quote : Quote} (haccepted : d.quote_of record = some quote) :
    ExactQuote d.normaliser record quote ↔ FitsQuote record := by
  unfold quote_of at haccepted
  obtain ⟨raw, hraw, hquote⟩ := Option.bind_eq_some_iff.mp haccepted
  have hdecoded : d.raw_quote record = .decoded raw := by
    cases hrecord : d.raw_quote record <;> rw [hrecord] at hraw <;> cases hraw
    rfl
  have hnormalised : d.normaliser.normalised raw = .ok quote := by
    cases hresult : d.normaliser.normalised raw <;> rw [hresult] at hquote <;> cases hquote
    rfl
  obtain ⟨id, ts, bid, ask, hid, hts, hbid, hask, rfl⟩ := raw_quote_decoded hdecoded
  obtain ⟨hinstrument, htime, hbidprice, haskprice, hbidsize, hasksize⟩ := QuoteNormaliser.normalised_ok hnormalised
  have hscale : d.normaliser.cfg.price_scale ≠ 0 := by
    intro hzero
    have hpos := quote.bid_pos
    rw [hbidprice, hzero, mul_zero] at hpos
    exact lt_irrefl _ hpos
  constructor
  · rintro ⟨hidentified, hrecv, hbidpx, haskpx, hbidsz, hasksz⟩
    rw [htime] at hrecv
    rw [hbidprice] at hbidpx
    rw [haskprice] at haskpx
    rw [hbidsize] at hbidsz
    rw [hasksize] at hasksz
    exact ⟨(identified_iff hid hinstrument).mp hidentified, (denotes_iff hts).mp hrecv,
      (scaled_iff hbid hscale).mp hbidpx, (scaled_iff hask hscale).mp haskpx, sized_iff.mp hbidsz, sized_iff.mp hasksz⟩
  · rintro ⟨hidfits, htsfits, hbidfits, haskfits, hbidszfits, haskszfits⟩
    refine ⟨(identified_iff hid hinstrument).mpr hidfits, ?_, ?_, ?_, ?_, ?_⟩
    · rw [htime]
      exact (denotes_iff hts).mpr htsfits
    · rw [hbidprice]
      exact (scaled_iff hbid hscale).mpr hbidfits
    · rw [haskprice]
      exact (scaled_iff hask hscale).mpr haskfits
    · rw [hbidsize]
      exact sized_iff.mpr hbidszfits
    · rw [hasksize]
      exact sized_iff.mpr haskszfits

theorem bar_of_decoded {timeframe : Duration} {bar : Bar} (haccepted : d.bar_of timeframe record = .decoded bar) :
    ∃ id ts, d.lib.read_i64 record "instrument_id" = some id ∧
      d.lib.read_i64 record "ts_event" = some ts ∧
      d.mapper.resolve_vendor_id id.toUInt64.toUInt32 bar.open_time = some bar.instrument ∧
      bar.open_time = ts.toInt := by
  simp only [bar_of] at haccepted
  split at haccepted
  · rename_i id ts hid hts
    split at haccepted
    · cases haccepted
    rename_i instrument hinstrument
    split at haccepted
    · split at haccepted
      · cases haccepted
      · rename_i hbar
        cases haccepted
        obtain ⟨hsame, htime⟩ := from_left_edge_ok hbar
        refine ⟨id, ts, hid, hts, ?_, htime⟩
        rw [hsame, htime]
        exact hinstrument
    · cases haccepted
  · cases haccepted

theorem exact_bar_iff {timeframe : Duration} {bar : Bar} (haccepted : d.bar_of timeframe record = .decoded bar) :
    ExactBar d.mapper record bar ↔ FitsEvent record := by
  obtain ⟨id, ts, hid, hts, hinstrument, htime⟩ := bar_of_decoded haccepted
  have hfits := event_iff hid hts hinstrument htime
  constructor
  · rintro ⟨hidentified, hevent⟩
    exact hfits.mp ⟨hidentified, hevent⟩
  · intro hevent
    obtain ⟨hidentified, hdenotes⟩ := hfits.mpr hevent
    exact ⟨hidentified, hdenotes⟩

theorem trade_of_decoded {trade : Trade} (haccepted : d.trade_of record = .decoded trade) :
    ∃ id ts px size,
      d.lib.read_i64 record "instrument_id" = some id ∧ d.lib.read_i64 record "ts_recv" = some ts ∧
      d.lib.read_i64 record "price" = some px ∧ d.lib.read_i64 record "size" = some size ∧
      d.mapper.resolve_vendor_id id.toUInt64.toUInt32 trade.time.exchange_time = some trade.instrument ∧
      trade.time.exchange_time = ts.toInt ∧ trade.price = px.toInt * (1 / 10 ^ 9) ∧ trade.size = size.toInt * 1 := by
  simp only [trade_of] at haccepted
  split at haccepted
  · rename_i id ts px size hid hts hpx hsize
    split at haccepted
    · cases haccepted
    rename_i instrument hinstrument
    split at haccepted
    · cases haccepted
    · rename_i htrade
      cases haccepted
      obtain ⟨hsame, htime, hprice, hqty⟩ := trade_create_ok htrade
      refine ⟨id, ts, px, size, hid, hts, hpx, hsize, ?_, htime, hprice, by rw [hqty, mul_one]⟩
      rw [hsame, htime]
      exact hinstrument
  · cases haccepted

theorem exact_trade_iff {trade : Trade} (haccepted : d.trade_of record = .decoded trade) :
    ExactTrade d.mapper record trade ↔ FitsTrade record := by
  obtain ⟨id, ts, px, size, hid, hts, hpx, hsize, hinstrument, htime, hprice, hqty⟩ := trade_of_decoded haccepted
  have hscale : (1 / 10 ^ 9 : Rat) ≠ 0 := by norm_num
  constructor
  · rintro ⟨hidentified, hrecv, hscaled, hsized⟩
    rw [htime] at hrecv
    rw [hprice] at hscaled
    rw [hqty] at hsized
    exact ⟨(identified_iff hid hinstrument).mp hidentified, (denotes_iff hts).mp hrecv,
      (scaled_iff hpx hscale).mp hscaled, (scaled_iff hsize one_ne_zero).mp hsized⟩
  · rintro ⟨hidfits, htsfits, hpxfits, hsizefits⟩
    refine ⟨(identified_iff hid hinstrument).mpr hidfits, ?_, ?_, ?_⟩
    · rw [htime]
      exact (denotes_iff hts).mpr htsfits
    · rw [hprice]
      exact (scaled_iff hpx hscale).mpr hpxfits
    · rw [hqty]
      exact (scaled_iff hsize one_ne_zero).mpr hsizefits

theorem exact_definition_iff {definition : InstrumentDefinition}
    (haccepted : d.definition_of record = .decoded definition) :
    ExactDefinition record definition ↔ FitsDefinition record := by
  simp only [definition_of] at haccepted
  split at haccepted
  · cases haccepted
  rename_i id hid
  split at haccepted
  · cases haccepted
  cases haccepted
  constructor
  · rintro ⟨hidexact, hlotexact⟩
    exact ⟨(narrowed_iff hid).mp hidexact, (lot_iff rfl).mp hlotexact⟩
  · rintro ⟨hidfits, hlotfits⟩
    exact ⟨(narrowed_iff hid).mpr hidfits, (lot_iff rfl).mpr hlotfits⟩

theorem action_of_decoded {action : CorporateAction} (haccepted : d.action_of record = .decoded action) :
    ∃ id ts, d.lib.read_i64 record "instrument_id" = some id ∧
      d.lib.read_i64 record "ts_event" = some ts ∧
      d.mapper.resolve_vendor_id id.toUInt64.toUInt32 action.time.exchange_time = some action.instrument ∧
      action.time.exchange_time = ts.toInt := by
  simp only [action_of] at haccepted
  split at haccepted
  · rename_i id ts hid hts
    split at haccepted
    · cases haccepted
    rename_i instrument hinstrument
    have hmade : action.instrument = instrument ∧ action.time.exchange_time = ts.toInt := by
      split at haccepted
      · split at haccepted
        · cases haccepted
        split at haccepted
        · cases haccepted
        · rename_i haction
          cases haccepted
          exact split_ok haction
      split at haccepted
      · split at haccepted
        · cases haccepted
        split at haccepted
        · cases haccepted
        · rename_i haction
          cases haccepted
          exact cash_dividend_ok haction
      · cases haccepted
    obtain ⟨hsame, htime⟩ := hmade
    refine ⟨id, ts, hid, hts, ?_, htime⟩
    rw [hsame, htime]
    exact hinstrument
  · cases haccepted

theorem exact_action_iff {action : CorporateAction} (haccepted : d.action_of record = .decoded action) :
    ExactAction d.mapper record action ↔ FitsEvent record := by
  obtain ⟨id, ts, hid, hts, hinstrument, htime⟩ := action_of_decoded haccepted
  have hfits := event_iff hid hts hinstrument htime
  constructor
  · rintro ⟨hidentified, hevent⟩
    exact hfits.mp ⟨hidentified, hevent⟩
  · intro hevent
    obtain ⟨hidentified, hdenotes⟩ := hfits.mpr hevent
    exact ⟨hidentified, hdenotes⟩

/-! ### Whole payloads -/

theorem toOption_eq_some {A : Type} {outcome : Outcome A} {a : A} (h : outcome.toOption = some a) :
    outcome = .decoded a := by
  cases outcome <;> cases h
  rfl

theorem map_eq_ok {A B : Type} {f : A → B} {r : Result A} {b : B} (h : r.map f = .ok b) :
    ∃ a, r = .ok a ∧ f a = b := by
  cases r with
  | error err => cases h
  | ok a => exact ⟨a, rfl, Except.ok.inj h⟩

/-- Records that all get through give their items in order, and the rest was counted. -/
theorem each_ok {A : Type} {decode : Json → Outcome A} {count : Nat} {st : DecoderStats} {records : List Json}
    {out : List A} (hout : (each decode count st records).1 = .ok out) :
    out = records.filterMap (fun record => (decode record).toOption) ∧
      (each decode count st records).2.records_rejected + out.length = st.records_rejected + records.length := by
  induction records generalizing st out with
  | nil =>
    cases hout
    exact ⟨rfl, rfl⟩
  | cons record records ih =>
    simp only [each] at hout ⊢
    cases hdecoded : decode record with
    | failed err =>
      simp only [hdecoded] at hout
      cases hout
    | dropped =>
      simp only [hdecoded] at hout ⊢
      obtain ⟨hrest, hcounted⟩ := ih hout
      refine ⟨?_, ?_⟩
      · simp only [List.filterMap_cons, hdecoded, Outcome.toOption, hrest]
      · simp only [List.length_cons] at hcounted ⊢
        omega
    | decoded a =>
      simp only [hdecoded] at hout ⊢
      obtain ⟨rest, hrest, rfl⟩ := map_eq_ok hout
      obtain ⟨hitems, hcounted⟩ := ih hrest
      refine ⟨?_, ?_⟩
      · simp only [List.filterMap_cons, hdecoded, Outcome.toOption, hitems]
      · simp only [List.length_cons, DecoderStats.decoded] at hcounted ⊢
        omega

/-- Everything counted as rejected or dropped. -/
def left_out (d : Decoder) : Nat := d.stats.records_rejected + d.normaliser.stats.dropped

/-- What a decoding that succeeds is: the items are those of the records, every record
without one was counted, and an item has the numbers of its record exactly if they fit. -/
def ExactIffFits {A : Type} (d : Decoder) (payload what : String) (run : Result (List A) × Decoder)
    (accepted : Json → Option A) (Exact : Json → A → Prop) (Fits : Json → Prop) : Prop :=
  ∀ out, run.1 = .ok out → ∃ records, parse_records d.lib payload what = .ok records ∧
    out.Perm (records.filterMap accepted) ∧
    run.2.left_out + out.length = d.left_out + records.length ∧
    ∀ record ∈ records, ∀ item, accepted record = some item → (Exact record item ↔ Fits record)

section Payload

variable {A : Type} {payload what : String} {decode : Json → Outcome A} {Exact : Json → A → Prop} {Fits : Json → Prop}

theorem decode_each_exact (hexact : ∀ record item, decode record = .decoded item → (Exact record item ↔ Fits record)) :
    ExactIffFits d payload what (d.decode_each what decode payload) (fun record => (decode record).toOption)
      Exact Fits := by
  intro out hout
  simp only [decode_each] at hout ⊢
  split at hout
  · cases hout
  · rename_i records hrecords
    obtain ⟨hitems, hcounted⟩ := each_ok hout
    refine ⟨records, hrecords, ?_, ?_, ?_⟩
    · rw [hitems]
    · simp only [left_out]
      omega
    · intro record _ item haccepted
      exact hexact record item (toOption_eq_some haccepted)

end Payload

theorem decode_bars_exact (payload : String) (timeframe : Duration) :
    ExactIffFits d payload "bars" (d.decode_bars payload timeframe)
      (fun record => (d.bar_of timeframe record).toOption) (ExactBar d.mapper) FitsEvent := by
  intro out hout
  simp only [decode_bars] at hout ⊢
  split at hout
  · cases hout
  rename_i records hrecords
  split at hout
  · cases hout
  rename_i hpositive
  obtain ⟨bars, hbars, rfl⟩ := map_eq_ok hout
  obtain ⟨hitems, hcounted⟩ := each_ok hbars
  have hsorted : (Ranking.sort bar_before bars).Perm bars := Ranking.sort_perm _ _
  refine ⟨records, hrecords, ?_, ?_, ?_⟩
  · rw [← hitems]
    exact hsorted
  · simp only [if_neg hpositive, left_out, hsorted.length_eq]
    omega
  · intro record _ bar haccepted
    exact exact_bar_iff (toOption_eq_some haccepted)

theorem decode_quotes_exact (payload : String) :
    ExactIffFits d payload "quotes" (d.decode_quotes payload) d.quote_of (ExactQuote d.normaliser) FitsQuote := by
  intro out hout
  simp only [decode_quotes] at hout ⊢
  split at hout
  · cases hout
  rename_i records hrecords
  split at hout
  · cases hout
  rename_i raws stats heach
  split at hout
  · cases hout
  rename_i quotes normaliser hbatch
  cases hout
  obtain ⟨hraws, hrejected⟩ := each_ok (congrArg Prod.fst heach)
  obtain ⟨hquotes, hdropped⟩ := QuoteNormaliser.normalise_batch_ok (congrArg Prod.fst hbatch)
  refine ⟨records, hrecords, ?_, ?_, ?_⟩
  · rw [hquotes, hraws, List.filterMap_filterMap]
    exact List.Perm.refl _
  · simp only [heach] at hrejected
    simp only [hbatch] at hdropped
    simp only [left_out, DecoderStats.decoded]
    omega
  · intro record _ quote haccepted
    exact exact_quote_iff haccepted

/-- An item of a payload has the numbers of its record exactly if each field denotes a
number that its type holds. -/
theorem decode_exact_iff (d : Decoder) (payload : String) (timeframe : Duration) :
    ExactIffFits d payload "quotes" (d.decode_quotes payload) d.quote_of (ExactQuote d.normaliser) FitsQuote ∧
      ExactIffFits d payload "bars" (d.decode_bars payload timeframe)
        (fun record => (d.bar_of timeframe record).toOption) (ExactBar d.mapper) FitsEvent ∧
      ExactIffFits d payload "trades" (d.decode_trades payload) (fun record => (d.trade_of record).toOption)
        (ExactTrade d.mapper) FitsTrade ∧
      ExactIffFits d payload "definitions" (d.decode_definitions payload)
        (fun record => (d.definition_of record).toOption) ExactDefinition FitsDefinition ∧
      ExactIffFits d payload "corporate actions" (d.decode_corporate_actions payload)
        (fun record => (d.action_of record).toOption) (ExactAction d.mapper) FitsEvent :=
  ⟨decode_quotes_exact payload, decode_bars_exact payload timeframe,
    decode_each_exact fun _ _ => exact_trade_iff, decode_each_exact fun _ _ => exact_definition_iff,
    decode_each_exact fun _ _ => exact_action_iff⟩

/-- A record in which every number but the time is one that its type does not hold. -/
def oddRecord : Json :=
  .object [("ask_px", .string "500010000000 USD"), ("ask_sz", .string "200 lots"), ("bid_px", .float (999980000001 / 2)),
    ("bid_sz", .integer (-5)), ("instrument_id", .unsigned 4294968297), ("ts_recv", .unsigned 1700000000000000000)]

def oddPayload : String :=
  "[\x7b\"ask_px\":\"500010000000 USD\",\"ask_sz\":\"200 lots\",\"bid_px\":499990000000.5,\"bid_sz\":-5," ++
    "\"instrument_id\":4294968297,\"ts_recv\":1700000000000000000\x7d]"

def oddLibrary : Library where
  parse _ := .ok (.array [oddRecord])
  stod _ := none
  overflow _ := 0

def oddDecoder : Decoder where
  lib := oddLibrary
  normaliser := { mapper := (({ instruments := {} } : SymbolMapper).add_static "SPY" 1001).2 }

/-- The id wraps, the half cent and what follows the digits are cut off, and the size
below zero is zero. -/
theorem decode_inexact :
    ∃ quote, (oddDecoder.decode_quotes oddPayload).1 = .ok [quote] ∧ oddDecoder.quote_of oddRecord = some quote ∧
      (quote.instrument, quote.bid, quote.ask, quote.bid_size, quote.ask_size) = (0, 49999 / 100, 50001 / 100, 0, 200) ∧
      ¬ ExactQuote oddDecoder.normaliser oddRecord quote := by
  have hnumbers : (oddDecoder.quote_of oddRecord).map (fun quote =>
      (quote.instrument, quote.bid, quote.ask, quote.bid_size, quote.ask_size)) =
      some (0, 49999 / 100, 50001 / 100, 0, 200) := by decide +kernel
  obtain ⟨quote, haccepted, hquote⟩ := Option.map_eq_some_iff.mp hnumbers
  have hsucceeds : (oddDecoder.decode_quotes oddPayload).1.toOption.isSome = true := by decide +kernel
  cases hout : (oddDecoder.decode_quotes oddPayload).1 with
  | error err =>
    rw [hout] at hsucceeds
    cases hsucceeds
  | ok quotes =>
    obtain ⟨records, hrecords, hperm, _⟩ := decode_quotes_exact oddPayload quotes hout
    cases hrecords
    have hone : quotes = [quote] := by
      simpa only [List.filterMap_cons, haccepted, List.filterMap_nil, List.perm_singleton] using hperm
    refine ⟨quote, by rw [hone], haccepted, hquote, ?_⟩
    intro hexact
    obtain ⟨id, hdenotes, _⟩ := hexact.instrument_id
    have hid : (4294968297 : Int) = id.toNat := Option.some.inj hdenotes
    have hbound := id.toNat_lt
    omega

end Decoder

end ptl.databento
