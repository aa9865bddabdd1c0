import Mathlib.Algebra.Order.Field.Rat

namespace ptl

/-! Doubles are exact rationals here, so every value is finite and no sum is
rounded. The checks for finiteness stay where the source has them. -/

abbrev Price := Rat
abbrev Qty := Rat
abbrev Volume := Rat
abbrev Notional := Rat
abbrev Bps := Rat

def is_finite {K : Type*} (_ : K) : Bool := true

@[simp] theorem is_finite_eq_true {K : Type*} (x : K) : is_finite x = true := rfl

/-- What is left of a check for a positive finite number. -/
theorem pos_of_checked {x : Rat} (hchecked : ¬ (¬ is_finite x = true ∨ x ≤ 0)) : 0 < x := by
  simpa using hchecked

abbrev InstrumentId := UInt32
def kInvalidInstrument : InstrumentId := 0xFFFFFFFF

inductive Side where
  | Buy
  | Sell
  deriving DecidableEq, Repr

def sign_of : Side → Int
  | .Buy => 1
  | .Sell => -1

@[simp] theorem sign_of_buy : sign_of .Buy = 1 := rfl
@[simp] theorem sign_of_sell : sign_of .Sell = -1 := rfl

/-- Direction +1 pays up, -1 improves. -/
def apply_bps (p : Price) (b : Bps) (direction : Int) : Price :=
  p * (1 + (direction : Rat) * b * 1e-4)

def to_bps (p reference : Price) : Bps :=
  if reference = 0 then 0 else (p / reference - 1) * 1e4

/-- Nanoseconds since the epoch, and nanoseconds between two instants. -/
abbrev Timestamp := Int
abbrev Duration := Int

/-- `Duration::min()`, the sentinel of a stage not yet reached. -/
def kNoTimestamp : Timestamp := -2 ^ 63

/-- `Duration::max()`. -/
def maxDuration : Duration := 2 ^ 63 - 1

def kMaxTimestamp : Timestamp := maxDuration

def is_set (ts : Timestamp) : Bool := ts ≠ kNoTimestamp

inductive ErrorCode where
  | Ok
  | NotFound
  | ParseError
  | InvalidArgument
  | IoError
  | ValidationFailed
  | ConfigError
  | Unsupported
  deriving DecidableEq, Repr

structure Error where
  code : ErrorCode := .Ok
  message : String
  context : String := ""
  deriving DecidableEq, Repr

def make_error (code : ErrorCode) (message : String) (context : String := "") : Error :=
  { code, message, context }

/-- The validation error each file's anonymous `bad` builds. -/
def bad (message : String) (context : String := "") : Error :=
  make_error .ValidationFailed message context

abbrev Result := Except Error

/-- The value of a result that is no error. -/
def Result.value {T : Type} (r : Result T) (h : r.toOption.isSome = true := by decide +kernel) : T :=
  r.toOption.get h

theorem Result.toOption_eq_some {T : Type} {r : Result T} {a : T} :
    r.toOption = some a ↔ r = .ok a := by
  cases r <;> simp [Except.toOption]

/-- A check that was passed. -/
theorem Result.passed {A : Type} {c : Prop} [Decidable c] {err : Error} {next : Result A} {a : A}
    (hok : (if c then .error err else next) = .ok a) : next = .ok a := by
  by_cases hc : c
  · rw [if_pos hc] at hok
    cases hok
  · rwa [if_neg hc] at hok

theorem Result.passed_dite {A : Type} {c : Prop} [Decidable c] {err : Error} {next : ¬ c → Result A} {a : A}
    (hok : (if hc : c then .error err else next hc) = .ok a) : ∃ hc, next hc = .ok a := by
  by_cases hc : c
  · rw [dif_pos hc] at hok
    cases hok
  · exact ⟨hc, by rwa [dif_neg hc] at hok⟩

/-- Decimal digits of `n`, padded with zeros on the left to `width`. -/
def padded (width : Nat) (n : Nat) : String :=
  let digits := toString n
  String.ofList (List.replicate (width - digits.length) '0') ++ digits

/-- `std::to_string(double)`: six decimals, ties to even. -/
def to_string (x : Rat) : String :=
  let scaled : Rat := |x| * 10 ^ 6
  let below : Nat := scaled.floor.toNat
  let rest := scaled - (below : Rat)
  let digits : Nat := if rest < 1 / 2 ∨ (rest = 1 / 2 ∧ below % 2 = 0) then below else below + 1
  (if x < 0 then "-" else "") ++ toString (digits / 10 ^ 6) ++ "." ++ padded 6 (digits % 10 ^ 6)

/-- Year, month and day of a day count from 1970-01-01. -/
def civil_from_days (days : Int) : Int × Nat × Nat :=
  let z := days + 719468
  let era := z.fdiv 146097
  let doe := (z - era * 146097).toNat
  let yoe := (doe - doe / 1460 + doe / 36524 - doe / 146096) / 365
  let doy := doe - (365 * yoe + yoe / 4 - yoe / 100)
  let mp := (5 * doy + 2) / 153
  let month := if mp < 10 then mp + 3 else mp - 9
  let year := (yoe : Int) + era * 400 + (if month ≤ 2 then 1 else 0)
  (year, month, doy - (153 * mp + 2) / 5 + 1)

def to_iso8601 (ts : Timestamp) : String :=
  let nanosPerDay : Int := 86400 * 1000000000
  let days := ts.fdiv nanosPerDay
  let since := (ts - days * nanosPerDay).toNat
  let (year, month, day) := civil_from_days days
  let seconds := since / 1000000000
  padded 4 year.toNat ++ "-" ++ padded 2 month ++ "-" ++ padded 2 day ++ "T" ++
    padded 2 (seconds / 3600) ++ ":" ++ padded 2 (seconds / 60 % 60) ++ ":" ++
    padded 2 (seconds % 60) ++ "." ++ padded 9 (since % 1000000000) ++ "Z"

/-- Interned tickers in insertion order; an id is a place in the list. -/
structure InstrumentTable where
  by_id : List String := []
  deriving DecidableEq, Repr

def InstrumentTable.find (t : InstrumentTable) (symbol : String) : Option InstrumentId :=
  (t.by_id.idxOf? symbol).map UInt32.ofNat

/-- Empty if `id` did not come from this table. -/
def InstrumentTable.symbol (t : InstrumentTable) (id : InstrumentId) : String :=
  (t.by_id[id.toNat]?).getD ""

def InstrumentTable.intern (t : InstrumentTable) (symbol : String) : InstrumentId × InstrumentTable :=
  match t.find symbol with
  | some id => (id, t)
  | none => (.ofNat t.by_id.length, { by_id := t.by_id ++ [symbol] })

/-- A ticker is found where it was interned. -/
@[simp] theorem InstrumentTable.find_intern (t : InstrumentTable) (symbol : String) :
    (t.intern symbol).2.find symbol = some (t.intern symbol).1 := by
  unfold InstrumentTable.intern
  cases hfind : t.find symbol with
  | some id => exact hfind
  | none =>
    have hnew : t.by_id.findIdx? (fun s => s == symbol) = none := Option.map_eq_none_iff.mp hfind
    simp [InstrumentTable.find, List.idxOf?, List.findIdx?_append, hnew]

/-- Interning another ticker moves none that is there. -/
theorem InstrumentTable.find_intern_of_find {t : InstrumentTable} {symbol : String} {id : InstrumentId}
    (hfind : t.find symbol = some id) (other : String) : (t.intern other).2.find symbol = some id := by
  unfold InstrumentTable.intern
  cases hother : t.find other with
  | some _ => exact hfind
  | none =>
    obtain ⟨place, hplace, rfl⟩ := Option.map_eq_some_iff.mp hfind
    have hleft : (t.by_id ++ [other]).idxOf? symbol = some place := by
      rw [List.idxOf?] at hplace ⊢
      rw [List.findIdx?_append, hplace]
      rfl
    simp [InstrumentTable.find, hleft]

end ptl
