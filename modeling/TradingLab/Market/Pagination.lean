import Mathlib.Data.Prod.Lex
import TradingLab.Market.Alpaca

namespace ptl.databento

def Json.elements : Json → List Json
  | .array elements => elements
  | _ => []

end ptl.databento

open ptl.databento (Json Library parse_error)

namespace ptl.market

/-! ### What a page was sent with -/

section Sent

variable (lib : Library) (timeframe : Duration)

/-- The rows of a payload in the vendor's order, each with its symbol. -/
def rows_of (members : List (String × Json)) : List (String × Json) :=
  members.flatMap fun entry => entry.2.elements.map (Prod.mk entry.1)

def sent (body : String) : List (String × Json) :=
  match lib.parse body with
  | .error _ => []
  | .ok doc =>
    match doc.find "bars" with
    | some (.object members) => rows_of members
    | _ => []

/-- Whether a payload says that there is more: it has a token, of whatever type, that
is neither null nor an empty text. -/
def carries_token (body : String) : Bool :=
  match lib.parse body with
  | .error _ => false
  | .ok doc =>
    match doc.find "next_page_token" with
    | none => false
    | some .null => false
    | some (.string token) => token ≠ ""
    | some _ => true

/-- The bar of a row, under the id its symbol has. -/
def DecodedAs (instruments : InstrumentTable) (row : String × Json) (bar : Bar) : Prop :=
  ∃ id, instruments.find row.1 = some id ∧ bar_row lib id row.1 timeframe row.2 = .ok bar

end Sent

/-- No symbol of the first table moved. -/
def Extends (before after : InstrumentTable) : Prop :=
  ∀ symbol id, before.find symbol = some id → after.find symbol = some id

theorem Extends.refl (t : InstrumentTable) : Extends t t := fun _ _ h => h

theorem Extends.trans {a b c : InstrumentTable} (hab : Extends a b) (hbc : Extends b c) : Extends a c :=
  fun symbol id h => hbc symbol id (hab symbol id h)

theorem Extends.intern (t : InstrumentTable) (symbol : String) : Extends t (t.intern symbol).2 :=
  fun _ _ h => InstrumentTable.find_intern_of_find h symbol

section Decoding

variable {lib : Library} {timeframe : Duration}

theorem DecodedAs.mono {a b : InstrumentTable} (hab : Extends a b) {row : String × Json} {bar : Bar}
    (h : DecodedAs lib timeframe a row bar) : DecodedAs lib timeframe b row bar := by
  obtain ⟨id, hfind, hrow⟩ := h
  exact ⟨id, hab _ _ hfind, hrow⟩

/-- One bar a row, in turn. -/
theorem bar_rows_ok {id : InstrumentId} {symbol : String} {rows : List Json} {bars : List Bar}
    (hok : bar_rows lib id symbol timeframe rows = .ok bars) :
    List.Forall₂ (fun row bar => bar_row lib id symbol timeframe row = .ok bar) rows bars := by
  induction rows generalizing bars with
  | nil =>
    obtain rfl : [] = bars := by simpa [bar_rows] using hok
    exact .nil
  | cons row rows ih =>
    simp only [bar_rows] at hok
    split at hok
    · cases hok
    · rename_i bar hbar
      split at hok
      · cases hok
      · rename_i rest hrest
        cases hok
        exact .cons hbar (ih hrest)

/-- All symbols of a payload in turn. -/
theorem bar_symbols_ok {members : List (String × Json)} {t after : InstrumentTable} {bars : List Bar}
    (hok : bar_symbols lib timeframe members t = (.ok bars, after)) :
    Extends t after ∧ List.Forall₂ (DecodedAs lib timeframe after) (rows_of members) bars := by
  induction members generalizing t bars with
  | nil =>
    obtain ⟨hbars, rfl⟩ := Prod.mk.inj hok
    cases hbars
    exact ⟨.refl t, .nil⟩
  | cons member members ih =>
    obtain ⟨symbol, rows⟩ := member
    cases rows with
    | array rows =>
      simp only [bar_symbols] at hok
      split at hok
      · cases hok
      · rename_i own hown
        split at hok
        · cases hok
        · rename_i rest table hrest
          obtain ⟨hbars, rfl⟩ := Prod.mk.inj hok
          cases hbars
          obtain ⟨hext, hmore⟩ := ih hrest
          have hid := hext symbol _ (InstrumentTable.find_intern t symbol)
          have hthis : List.Forall₂ (DecodedAs lib timeframe table) (rows.map (Prod.mk symbol)) own := by
            rw [List.forall₂_map_left_iff]
            exact (bar_rows_ok hown).imp fun row bar hrow => ⟨_, hid, hrow⟩
          exact ⟨(Extends.intern t symbol).trans hext, List.rel_append hthis hmore⟩
    | _ => simp [bar_symbols] at hok

/-- What a payload's bars are, when it is taken. -/
theorem parse_alpaca_bars_ok {body next : String} {t after : InstrumentTable} {bars : List Bar}
    (hok : parse_alpaca_bars lib body timeframe t = (.ok bars, next, after)) :
    Extends t after ∧
      (∃ decoded, List.Forall₂ (DecodedAs lib timeframe after) (sent lib body) decoded ∧ bars.Perm decoded) ∧
      (next ≠ "" → carries_token lib body = true) := by
  unfold parse_alpaca_bars at hok
  unfold sent carries_token
  cases hparse : lib.parse body with
  | error thrown => simp [hparse] at hok
  | ok doc =>
    simp only [hparse] at hok ⊢
    have htoken : ∀ token, next_page_token doc = token → token ≠ "" →
        (match doc.find "next_page_token" with
          | none => false
          | some .null => false
          | some (.string token) => decide (token ≠ "")
          | some _ => true) = true := by
      rintro token rfl hne
      unfold next_page_token Json.text at hne
      cases hfind : doc.find "next_page_token" with
      | none => simp [hfind] at hne
      | some value => cases value <;> simp_all
    split at hok
    · cases hok
    · cases hbars : doc.find "bars" with
      | none => simp [hbars] at hok
      | some value =>
        cases value with
        | null =>
          simp only [hbars, Prod.mk.injEq, Except.ok.injEq] at hok
          obtain ⟨rfl, hnext, rfl⟩ := hok
          exact ⟨.refl t, ⟨[], .nil, .nil⟩, htoken _ hnext⟩
        | object members =>
          simp only [hbars] at hok
          obtain ⟨hout, hnext, rfl⟩ : _ ∧ _ ∧ _ := by simpa only [Prod.mk.injEq] using hok
          cases hread : bar_symbols lib timeframe members t with
          | mk out table =>
            rw [hread] at hout
            cases out with
            | error err => cases hout
            | ok decoded =>
              cases hout
              obtain ⟨hext, hrows⟩ := bar_symbols_ok hread
              exact ⟨hext, ⟨decoded, hrows, Ranking.sort_perm _ _⟩, htoken _ hnext⟩
        | _ => simp [hbars] at hok

end Decoding

theorem chronological_iff (a b : Bar) : chronological a b = true ↔
    toLex (a.close_time, a.instrument.toNat) < toLex (b.close_time, b.instrument.toNat) := by
  unfold chronological
  rw [Prod.Lex.toLex_lt_toLex]
  split
  · rename_i hne
    simp [hne]
  · rename_i heq
    simp only [not_not] at heq
    simp [heq, UInt32.lt_iff_toNat_lt]

theorem pairwise_close_time (bars : List Bar) :
    (Ranking.sort chronological bars).Pairwise fun a b => a.close_time ≤ b.close_time := by
  refine (Ranking.pairwise_le_sort chronological_iff bars).imp fun {a b} hle => ?_
  rw [Prod.Lex.toLex_le_toLex] at hle
  exact hle.elim le_of_lt fun h => h.1.le

/-! ### The pages of a series -/

namespace AlpacaProvider

variable {S : Type} (lib : Library) (http : IHttpTransport S) (request : BarRequest) (symbols : String)

/-- The pages the loop asks for. -/
def fetched : Nat → AlpacaProvider S → String → List Page
  | 0, _, _ => []
  | remaining + 1, p, page_token =>
    match p.fetch_page lib http request symbols page_token with
    | (.error _, _) => []
    | (.ok page, p) => page :: if page.next = "" then [] else fetched remaining p page.next

/-- The pages one gets by following the tokens, however many there are. -/
def page_at : Nat → AlpacaProvider S → String → Option Page
  | 0, p, page_token => (p.fetch_page lib http request symbols page_token).1.toOption
  | n + 1, p, page_token =>
    match p.fetch_page lib http request symbols page_token with
    | (.error _, _) => none
    | (.ok page, p) => page_at n p page.next

/-- The pages of a series end within a number of them: one carries no token, and each
before it a token that can be followed. -/
def EndsWithin (limit : Nat) (p : AlpacaProvider S) (page_token : String) : Prop :=
  ∃ n < limit, (∃ page, page_at lib http request symbols n p page_token = some page ∧
      carries_token lib page.body = false) ∧
    ∀ k < n, ∃ page, page_at lib http request symbols k p page_token = some page ∧ page.next ≠ ""

end AlpacaProvider

/-- What a fetch returned is all there is: the last page said that there is no more, and
the result are the rows of all pages, each as often as it was sent, in the order of time. -/
structure Complete (lib : Library) (timeframe : Duration) (instruments : InstrumentTable) (pages : List Page)
    (bars : List Bar) : Prop where
  ended : ∃ page, pages.getLast? = some page ∧ carries_token lib page.body = false
  all : ∃ decoded, List.Forall₂ (DecodedAs lib timeframe instruments) (pages.flatMap fun page => sent lib page.body)
      decoded ∧ bars.Perm decoded
  in_order : bars.Pairwise fun a b => a.close_time ≤ b.close_time

namespace AlpacaProvider

variable {S : Type} {lib : Library} {http : IHttpTransport S} {request : BarRequest} {symbols : String}

theorem fetch_page_ok {p after : AlpacaProvider S} {page_token : String} {page : Page}
    (hok : p.fetch_page lib http request symbols page_token = (.ok page, after)) :
    Extends p.instruments after.instruments ∧
      (∃ decoded, List.Forall₂ (DecodedAs lib request.timeframe after.instruments) (sent lib page.body) decoded ∧
        page.bars.Perm decoded) ∧
      (page.next ≠ "" → carries_token lib page.body = true) := by
  unfold fetch_page at hok
  split at hok
  · cases hok
  · split at hok
    · cases hok
    · split at hok
      · cases hok
      · rename_i bars next table hparse
        cases hok
        exact parse_alpaca_bars_ok hparse

theorem fetched_of_page {remaining : Nat} {p table : AlpacaProvider S} {page_token : String} {page : Page}
    (hpage : p.fetch_page lib http request symbols page_token = (.ok page, table)) :
    fetched lib http request symbols (remaining + 1) p page_token =
      page :: if page.next = "" then [] else fetched lib http request symbols remaining table page.next := by
  rw [fetched, hpage]

/-- The bars of the pages that were fetched, page by page. -/
theorem fetch_pages_ok {remaining : Nat} {p after : AlpacaProvider S} {page_token : String} {bars : List Bar}
    (hok : fetch_pages lib http request symbols remaining p page_token = (.ok bars, after)) :
    Extends p.instruments after.instruments ∧
      ∃ decoded, List.Forall₂ (DecodedAs lib request.timeframe after.instruments)
          ((fetched lib http request symbols remaining p page_token).flatMap fun page => sent lib page.body) decoded ∧
        bars.Perm decoded := by
  induction remaining generalizing p page_token bars with
  | zero =>
    obtain ⟨hbars, rfl⟩ := Prod.mk.inj hok
    cases hbars
    exact ⟨.refl _, [], .nil, .nil⟩
  | succ remaining ih =>
    simp only [fetch_pages] at hok
    split at hok
    · cases hok
    · rename_i page table hpage
      obtain ⟨hext, ⟨own, hown, hperm⟩, -⟩ := fetch_page_ok hpage
      rw [fetched_of_page hpage]
      split at hok
      · rename_i hlast
        obtain ⟨hbars, rfl⟩ := Prod.mk.inj hok
        cases hbars
        exact ⟨hext, own, by simpa [hlast] using hown, hperm⟩
      · rename_i hmore
        split at hok
        · cases hok
        · rename_i rest table' hrest
          obtain ⟨hbars, rfl⟩ := Prod.mk.inj hok
          cases hbars
          obtain ⟨hext', decoded, hdecoded, hperm'⟩ := ih hrest
          rw [if_neg hmore, List.flatMap_cons]
          have hkept := hown.imp fun row bar => DecodedAs.mono hext'
          exact ⟨hext.trans hext', own ++ decoded, List.rel_append hkept hdecoded, hperm.append hperm'⟩

/-- A series ends here, or after a token that can be followed it ends later. -/
theorem endsWithin_succ_iff {limit : Nat} {p table : AlpacaProvider S} {page_token : String} {page : Page}
    (hpage : p.fetch_page lib http request symbols page_token = (.ok page, table)) :
    EndsWithin lib http request symbols (limit + 1) p page_token ↔
      carries_token lib page.body = false ∨
        page.next ≠ "" ∧ EndsWithin lib http request symbols limit table page.next := by
  have hfirst : page_at lib http request symbols 0 p page_token = some page := by
    simp only [page_at, hpage]
    rfl
  have hnext : ∀ n, page_at lib http request symbols (n + 1) p page_token =
      page_at lib http request symbols n table page.next := fun n => by simp only [page_at, hpage]
  constructor
  · rintro ⟨n, hn, ⟨last, hat, hends⟩, hbefore⟩
    cases n with
    | zero =>
      obtain rfl : page = last := by simpa [hfirst] using hat
      exact .inl hends
    | succ n =>
      obtain ⟨other, hother, hgoes⟩ := hbefore 0 (Nat.succ_pos n)
      obtain rfl : page = other := by simpa [hfirst] using hother
      refine .inr ⟨hgoes, n, Nat.lt_of_succ_lt_succ hn, ⟨last, (hnext n).symm.trans hat, hends⟩, fun k hk => ?_⟩
      obtain ⟨earlier, hk', hgoes'⟩ := hbefore (k + 1) (Nat.succ_lt_succ hk)
      exact ⟨earlier, (hnext k).symm.trans hk', hgoes'⟩
  · rintro (hends | ⟨hgoes, n, hn, ⟨last, hat, hends⟩, hbefore⟩)
    · exact ⟨0, Nat.succ_pos _, ⟨page, hfirst, hends⟩, fun k hk => absurd hk (Nat.not_lt_zero k)⟩
    · refine ⟨n + 1, Nat.succ_lt_succ hn, ⟨last, (hnext n).trans hat, hends⟩, fun k hk => ?_⟩
      cases k with
      | zero => exact ⟨page, hfirst, hgoes⟩
      | succ k =>
        obtain ⟨earlier, hk', hgoes'⟩ := hbefore k (Nat.lt_of_succ_lt_succ hk)
        exact ⟨earlier, (hnext k).trans hk', hgoes'⟩

/-- The last page that was fetched says that there is no more exactly if the series ends
within the pages allowed. -/
theorem fetched_ended_iff {remaining : Nat} {p after : AlpacaProvider S} {page_token : String} {bars : List Bar}
    (hok : fetch_pages lib http request symbols remaining p page_token = (.ok bars, after)) :
    (∃ page, (fetched lib http request symbols remaining p page_token).getLast? = some page ∧
        carries_token lib page.body = false) ↔
      EndsWithin lib http request symbols remaining p page_token := by
  induction remaining generalizing p page_token bars after with
  | zero => simp [fetched, EndsWithin]
  | succ remaining ih =>
    simp only [fetch_pages] at hok
    split at hok
    · cases hok
    · rename_i page table hpage
      obtain ⟨-, -, hcarried⟩ := fetch_page_ok hpage
      rw [endsWithin_succ_iff hpage, fetched_of_page hpage]
      split at hok
      · rename_i hlast
        simp [hlast]
      · rename_i hmore
        split at hok
        · cases hok
        · rename_i rest table' hrest
          rw [← ih hrest, if_neg hmore]
          -- The page itself carries a token, so one without is a later one.
          cases fetched lib http request symbols remaining table page.next with
          | nil => simp [hcarried hmore]
          | cons first others => simp [hcarried hmore, hmore, List.getLast?_cons]

/-- A fetch that succeeds ran through its pages. -/
theorem fetch_bars_ok {p after : AlpacaProvider S} {bars : List Bar}
    (hok : fetch_bars lib http p request = (.ok bars, after)) :
    ∃ all, fetch_pages lib http request (p.symbols request) kMaxPages p "" = (.ok all, after) ∧
      bars = Ranking.sort chronological all := by
  unfold fetch_bars at hok
  split at hok
  · cases hok
  · split at hok
    · cases hok
    · split at hok
      · cases hok
      · cases hpages : fetch_pages lib http request (p.symbols request) kMaxPages p "" with
        | mk all table =>
          rw [hpages] at hok
          obtain ⟨hall, rfl⟩ := Prod.mk.inj hok
          cases all with
          | error err => cases hall
          | ok all =>
            cases hall
            exact ⟨all, rfl, rfl⟩

/-- The series that is returned is complete exactly if the vendor's ends within as many
pages as the loop asks for. -/
theorem fetch_bars_complete_iff {p after : AlpacaProvider S} {bars : List Bar}
    (hok : fetch_bars lib http p request = (.ok bars, after)) :
    Complete lib request.timeframe after.instruments
        (fetched lib http request (p.symbols request) kMaxPages p "") bars ↔
      EndsWithin lib http request (p.symbols request) kMaxPages p "" := by
  obtain ⟨all, hpages, rfl⟩ := fetch_bars_ok hok
  have hended := fetched_ended_iff hpages
  constructor
  · intro hcomplete
    exact hended.mp hcomplete.ended
  · intro hends
    obtain ⟨-, decoded, hdecoded, hperm⟩ := fetch_pages_ok hpages
    exact ⟨hended.mpr hends, ⟨decoded, hdecoded, (Ranking.sort_perm _ _).trans hperm⟩, pairwise_close_time all⟩

end AlpacaProvider

/-! ### A vendor without bars -/

open AlpacaProvider (kMaxPages)

/-- A library that knows two payloads. -/
def two_payloads : Library where
  parse body := if body = "last" then .ok (.object [("bars", .null), ("next_page_token", .null)])
    else .ok (.object [("bars", .null), ("next_page_token", .string "again")])
  stod _ := none
  overflow _ := 0

/-- Requests are answered with one payload after the other. -/
def in_turn (bodies : Nat → String) : IHttpTransport Nat where
  get _ n := (.ok { status := 200, body := bodies n }, n + 1)

def provider_at (n : Nat) : AlpacaProvider Nat where
  credential := { key_id := "key", secret := "secret" }
  transport := n

def first_hour : BarRequest where
  instruments := [0]
  range := { begin_ := 0, end_ := 60 * kMinute }

theorem fetch_page_last (n : Nat) (token : String) :
    (provider_at n).fetch_page two_payloads (in_turn fun _ => "last") first_hour "" token =
      (.ok { body := "last", bars := [], next := "" }, provider_at (n + 1)) := by
  simp [AlpacaProvider.fetch_page, in_turn, provider_at, two_payloads, parse_alpaca_bars, HttpResponse.ok,
    Json.is_object, Json.find, next_page_token, Json.text]

theorem fetch_page_again (n : Nat) (token : String) :
    (provider_at n).fetch_page two_payloads (in_turn fun _ => "more") first_hour "" token =
      (.ok { body := "more", bars := [], next := "again" }, provider_at (n + 1)) := by
  simp [AlpacaProvider.fetch_page, in_turn, provider_at, two_payloads, parse_alpaca_bars, HttpResponse.ok,
    Json.is_object, Json.find, next_page_token, Json.text]

theorem symbols_first_hour (n : Nat) : (provider_at n).symbols first_hour = "" := rfl

theorem fetch_pages_last (remaining n : Nat) (token : String) :
    AlpacaProvider.fetch_pages two_payloads (in_turn fun _ => "last") first_hour "" (remaining + 1) (provider_at n)
      token = (.ok [], provider_at (n + 1)) := by
  simp only [AlpacaProvider.fetch_pages, fetch_page_last]
  rfl

/-- A token that comes again and again is followed until no page is left. -/
theorem fetch_pages_again (remaining n : Nat) (token : String) :
    AlpacaProvider.fetch_pages two_payloads (in_turn fun _ => "more") first_hour "" remaining (provider_at n) token =
      (.ok [], provider_at (n + remaining)) := by
  induction remaining generalizing n token with
  | zero => rfl
  | succ remaining ih =>
    simp only [AlpacaProvider.fetch_pages, fetch_page_again, ih, List.append_nil]
    rw [if_neg (by decide), Nat.add_right_comm, Nat.add_assoc n remaining 1]

theorem page_at_again (k n : Nat) (token : String) :
    AlpacaProvider.page_at two_payloads (in_turn fun _ => "more") first_hour "" k (provider_at n) token =
      some { body := "more", bars := [], next := "again" } := by
  induction k generalizing n token with
  | zero =>
    simp only [AlpacaProvider.page_at, fetch_page_again]
    rfl
  | succ k ih => simp only [AlpacaProvider.page_at, fetch_page_again, ih]

theorem fetch_bars_first_hour {http : IHttpTransport Nat} {after : AlpacaProvider Nat}
    (hpages : AlpacaProvider.fetch_pages two_payloads http first_hour "" kMaxPages (provider_at 0) "" =
      (.ok [], after)) :
    (provider_at 0).fetch_bars two_payloads http first_hour = (.ok [], after) := by
  have hvalid : first_hour.range.valid = true := by decide
  have hsome : first_hour.instruments ≠ [] := by decide
  have hminute : first_hour.timeframe = kMinute := rfl
  unfold AlpacaProvider.fetch_bars
  rw [if_neg (not_not.mpr hvalid), if_neg hsome, if_neg (not_not.mpr hminute), symbols_first_hour, hpages]
  simp [Except.map, Ranking.sort]

/-- A series of one page. -/
theorem fetch_bars_complete_one_page :
    (provider_at 0).fetch_bars two_payloads (in_turn fun _ => "last") first_hour = (.ok [], provider_at 1) ∧
      (Complete two_payloads kMinute {} (AlpacaProvider.fetched two_payloads (in_turn fun _ => "last") first_hour
          ((provider_at 0).symbols first_hour) kMaxPages (provider_at 0) "") [] ↔
        AlpacaProvider.EndsWithin two_payloads (in_turn fun _ => "last") first_hour
          ((provider_at 0).symbols first_hour) kMaxPages (provider_at 0) "") := by
  have hfetch : (provider_at 0).fetch_bars two_payloads (in_turn fun _ => "last") first_hour =
      (.ok [], provider_at 1) := fetch_bars_first_hour (fetch_pages_last 9999 0 "")
  exact ⟨hfetch, AlpacaProvider.fetch_bars_complete_iff hfetch⟩

/-- A token that never ends gives up without an error, and the last page said that there
was more. -/
theorem fetch_bars_truncated :
    (provider_at 0).fetch_bars two_payloads (in_turn fun _ => "more") first_hour =
        (.ok [], provider_at kMaxPages) ∧
      ¬ Complete two_payloads kMinute {} (AlpacaProvider.fetched two_payloads (in_turn fun _ => "more") first_hour
          "" kMaxPages (provider_at 0) "") [] := by
  have hpages := fetch_pages_again kMaxPages 0 ""
  rw [Nat.zero_add] at hpages
  refine ⟨fetch_bars_first_hour hpages, fun hcomplete => ?_⟩
  obtain ⟨n, -, ⟨page, hat, hfree⟩, -⟩ := (AlpacaProvider.fetched_ended_iff hpages).mp hcomplete.ended
  obtain rfl : _ = page := Option.some.inj ((page_at_again n 0 "").symm.trans hat)
  simp [carries_token, two_payloads, Json.find] at hfree

end ptl.market
