import Mathlib.Data.List.Sort
import Mathlib.Data.String.Basic
import TradingLab.Core.Grammar
import TradingLab.Core.Numbers
import TradingLab.Keyed

open Keyed

namespace ptl

def parse_date (text : List Char) : Option Timestamp :=
  if text.length ≠ 10 then none else parse_timestamp text

namespace log

inductive Level where
  | Trace
  | Debug
  | Info
  | Warn
  | Error
  | Critical
  | Off
  deriving DecidableEq, Repr

def parse_level (text : String) : Option Level :=
  if text = "trace" then some .Trace
  else if text = "debug" then some .Debug
  else if text = "info" then some .Info
  else if text = "warn" then some .Warn
  else if text = "error" then some .Error
  else if text = "critical" then some .Critical
  else if text = "off" then some .Off
  else none

end log

namespace config

variable {D : Type}

/-! ### The library -/

/-- A value of a document. -/
inductive Scalar (D : Type) where
  | string (s : String)
  | integer (i : Int64)
  | floating_point (d : D)
  | boolean (b : Bool)
  | date (year month day : Nat)
  | time
  | date_time
  deriving DecidableEq, Repr

abbrev Node (D : Type) := Tree String (Scalar D)

/-- The tree of a document. -/
abbrev Document (D : Type) := Table String (Scalar D)

structure SyntaxError where
  description : String
  line : Nat

/-- What the loader takes from outside: the parser, the conversions that `value<T>()` makes of
a value, and the library of doubles. -/
structure Toml (D : Type) where
  parse : String → Except SyntaxError (Document D)
  value_string : Scalar D → Option String
  value_integer : Scalar D → Option Int64
  value_boolean : Scalar D → Option Bool
  value_real : Scalar D → Option D
  /-- `static_cast<double>` -/
  of_integer : Int64 → D
  /-- The text of a double with `%.17g`. -/
  print : D → String
  /-- `std::stod`, with how many bytes it read. -/
  stod : String → Option (D × Nat)
  negative : D → Bool
  /-- The integer a double is equal to, if there is one. -/
  whole : D → Option Int

/-! ### The schema -/

structure RunSection where
  seed : UInt64 := 20240101
  results_dir : String := "results"
  tag : String := ""
  fail_on_validation_warning : Bool := false
  deriving DecidableEq, Repr

def RunSection.kKeys : List String :=
  ["run.seed", "run.results_dir", "run.tag", "run.fail_on_validation_warning"]

structure DataSection where
  raw_dir : String := "data/raw"
  normalized_dir : String := "data/normalized"
  reference_dir : String := "data/reference"
  cache_dir : String := "data/cache"
  deriving DecidableEq, Repr

def DataSection.kKeys : List String :=
  ["data.raw_dir", "data.normalized_dir", "data.reference_dir", "data.cache_dir"]

structure DataTier where
  provider : String := ""
  feed : String := ""
  schema : String := ""
  timestamp_semantics : String := ""
  coverage : String := ""
  historical_end_delay_minutes : Int32 := 0
  deriving DecidableEq, Repr

def DataTier.kSuffixes : List String :=
  [".provider", ".feed", ".schema", ".timestamp_semantics", ".coverage", ".historical_end_delay_minutes"]

structure DatabentoSection (D : Type) where
  max_spend_usd : D
  require_explicit_paid_override : Bool := true
  deriving DecidableEq, Repr

def DatabentoSection.kKeys : List String :=
  ["data.databento.max_spend_usd", "data.databento.require_explicit_paid_override"]

structure SessionSection where
  timezone : String := "America/New_York"
  regular_open : String := "09:30:00"
  regular_close : String := "16:00:00"
  exclude_opening_auction : Bool := true
  exclude_closing_auction : Bool := true
  open_offset : Duration := 0
  close_offset : Duration := 0
  deriving DecidableEq, Repr

def SessionSection.kKeys : List String :=
  ["market_session.timezone", "market_session.regular_open", "market_session.regular_close",
    "market_session.exclude_opening_auction", "market_session.exclude_closing_auction"]

structure HoldoutSection where
  boundary_date : String := ""
  months : Int32 := 4
  unlocked : Bool := false
  unlock_justification : String := ""
  boundary : Timestamp := kNoTimestamp
  deriving DecidableEq, Repr

def HoldoutSection.kKeys : List String :=
  ["holdout.boundary_date", "holdout.months", "holdout.unlocked", "holdout.unlock_justification"]

structure LogSection where
  level : log.Level := .Info
  file : String := ""
  console : Bool := true
  json : Bool := true
  deriving DecidableEq, Repr

def LogSection.kKeys : List String := ["log.level", "log.file", "log.console", "log.json"]

structure Config (D : Type) where
  run : RunSection := {}
  data : DataSection := {}
  t1 : DataTier := {}
  t2 : DataTier := {}
  t3 : DataTier := {}
  databento : DatabentoSection D
  session : SessionSection := {}
  holdout : HoldoutSection := {}
  log : LogSection := {}
  source_path : String := ""
  canonical : String := ""
  deriving DecidableEq, Repr

def all_known_keys : List String :=
  RunSection.kKeys ++ DataSection.kKeys ++ DatabentoSection.kKeys ++ SessionSection.kKeys ++
    HoldoutSection.kKeys ++ LogSection.kKeys ++
    ["data.t1", "data.t2", "data.t3"].flatMap fun tier => DataTier.kSuffixes.map fun suffix => tier ++ suffix

/-! ### Keys of a document -/

section Keys

variable (lib : Toml D)

/-- Two digits, or more where there are more. -/
def padded (width n : Nat) : String :=
  let digits := Nat.toDigits 10 n
  String.ofList (List.replicate (width - digits.length) '0' ++ digits)

def canonical_scalar : Scalar D → String
  | .string s => s
  | .integer i => toString i
  | .floating_point d => lib.print d
  | .boolean b => if b then "true" else "false"
  | .date year month day => padded 4 year ++ "-" ++ padded 2 month ++ "-" ++ padded 2 day
  | .time => "<use-string-form>"
  | .date_time => "<use-string-form>"

/-- The name of a member. A table without a name lends its members none. -/
def nested (parent key : String) : String := if parent = "" then key else parent ++ "." ++ key

def indexed (key : String) (i : Nat) : String := key ++ "[" ++ toString i ++ "]"

mutual

def collect_node (key : String) : Node D → List (String × String)
  | .value v => [(key, canonical_scalar lib v)]
  | .array elements => collect_elements key 0 elements
  | .table members => collect_keys key members

def collect_keys (parent : String) : List (String × Node D) → List (String × String)
  | [] => []
  | (key, node) :: members => collect_node (nested parent key) node ++ collect_keys parent members

def collect_elements (key : String) : Nat → List (Node D) → List (String × String)
  | _, [] => []
  | i, .table members :: elements =>
    collect_keys (indexed key i) members ++ collect_elements key (i + 1) elements
  | i, .value v :: elements =>
    (indexed key i, canonical_scalar lib v) :: collect_elements key (i + 1) elements
  | i, .array _ :: elements => (indexed key i, "<unsupported>") :: collect_elements key (i + 1) elements

end

end Keys

/-! ### Overrides -/

section Overrides

variable (lib : Toml D)

/-- The parts of a dotted path. -/
def parts (dotted : String) : List String := (dotted.toList.splitOn '.').map String.ofList

/-- `std::from_chars` into a signed 64-bit integer, with what follows the number. -/
def from_chars_signed (text : List Char) : Option (Int64 × List Char) :=
  let (negative, text) : Bool × List Char :=
    match text with
    | '-' :: rest => (true, rest)
    | text => (false, text)
  let digits := Numeral.leading 10 text
  let n : Int := Numeral.ofDigits 10 digits
  let n := if negative then -n else n
  if digits = [] ∨ n < -2 ^ 63 ∨ 2 ^ 63 ≤ n then none else some (Int64.ofInt n, text.drop digits.length)

/-- Values are typed by inspection. -/
def typed (value : String) : Scalar D :=
  if value = "true" ∨ value = "false" then .boolean (value = "true")
  else
    match from_chars_signed value.toList with
    | some (i, []) => .integer i
    | _ =>
      match lib.stod value with
      | some (d, consumed) => if consumed = value.utf8ByteSize then .floating_point d else .string value
      | none => .string value

def set_dotted (root : Document D) (dotted value : String) : Option (Document D) :=
  if (parts dotted).getLast? = some "" then none else root.put (parts dotted) (typed lib value)

/-- What stands before and after the first equals sign. -/
def override_parts (ov : String) : Option (String × String) :=
  match ov.toList.span (· ≠ '=') with
  | (_, []) => none
  | ([], _) => none
  | (key, _ :: value) => some (String.ofList key, String.ofList value)

def apply_override (root : Document D) (ov : String) : Result (Document D) :=
  match override_parts ov with
  | none => .error (make_error .InvalidArgument ("override must be key=value, got: " ++ ov))
  | some (key, value) =>
    match set_dotted lib root key value with
    | none => .error (make_error .InvalidArgument ("cannot apply override: " ++ ov))
    | some root => .ok root

def apply_overrides (root : Document D) : List String → Result (Document D)
  | [] => .ok root
  | ov :: overrides =>
    match apply_override lib root ov with
    | .error err => .error err
    | .ok root => apply_overrides root overrides

end Overrides

/-! ### Reading the fields -/

structure Reader (D : Type) where
  lib : Toml D
  t : Document D

namespace Reader

variable (r : Reader D)

/-- The value at a path. What is no value converts to nothing. -/
def at_path (path : String) : Option (Scalar D) := value_at (parts path) r.t.members

def str (path fallback : String) : String := ((r.at_path path).bind r.lib.value_string).getD fallback

def boolean (path : String) (fallback : Bool) : Bool := ((r.at_path path).bind r.lib.value_boolean).getD fallback

def integer (path : String) (fallback : Int64) : Int64 := ((r.at_path path).bind r.lib.value_integer).getD fallback

def real (path : String) (fallback : D) : D :=
  match (r.at_path path).bind r.lib.value_real with
  | some d => d
  | none => (((r.at_path path).bind r.lib.value_integer).map r.lib.of_integer).getD fallback

def read_tier (p : String) : DataTier where
  provider := r.str (p ++ ".provider") ""
  feed := r.str (p ++ ".feed") ""
  schema := r.str (p ++ ".schema") ""
  timestamp_semantics := r.str (p ++ ".timestamp_semantics") ""
  coverage := r.str (p ++ ".coverage") ""
  historical_end_delay_minutes := (r.integer (p ++ ".historical_end_delay_minutes") 0).toInt32

/-- All fields that are read, before any of them is checked or parsed. -/
def read (level : log.Level) (origin : String) : Config D where
  run :=
    { seed := (r.integer "run.seed" 20240101).toUInt64
      results_dir := r.str "run.results_dir" "results"
      tag := r.str "run.tag" ""
      fail_on_validation_warning := r.boolean "run.fail_on_validation_warning" false }
  data :=
    { raw_dir := r.str "data.raw_dir" "data/raw"
      normalized_dir := r.str "data.normalized_dir" "data/normalized"
      reference_dir := r.str "data.reference_dir" "data/reference"
      cache_dir := r.str "data.cache_dir" "data/cache" }
  t1 := r.read_tier "data.t1"
  t2 := r.read_tier "data.t2"
  t3 := r.read_tier "data.t3"
  databento :=
    { max_spend_usd := r.real "data.databento.max_spend_usd" (r.lib.of_integer 25)
      require_explicit_paid_override := r.boolean "data.databento.require_explicit_paid_override" true }
  session :=
    { timezone := r.str "market_session.timezone" "America/New_York"
      regular_open := r.str "market_session.regular_open" "09:30:00"
      regular_close := r.str "market_session.regular_close" "16:00:00"
      exclude_opening_auction := r.boolean "market_session.exclude_opening_auction" true
      exclude_closing_auction := r.boolean "market_session.exclude_closing_auction" true }
  holdout :=
    { boundary_date := r.str "holdout.boundary_date" ""
      months := (r.integer "holdout.months" 4).toInt32
      unlocked := r.boolean "holdout.unlocked" false
      unlock_justification := r.str "holdout.unlock_justification" "" }
  log :=
    { level
      file := r.str "log.file" ""
      console := r.boolean "log.console" true
      json := r.boolean "log.json" true }
  source_path := origin

end Reader

/-! ### Loading -/

section Load

variable (lib : Toml D)

/-- A text that may be left empty, parsed. -/
def unless_empty {A : Type} (parse : List Char → Option A) (empty : A) (text : String) : Option A :=
  if text = "" then some empty else parse text.toList

/-- The checks on what was read, and what is parsed once at load. -/
def validate (cfg : Config D) : Result (Config D) :=
  let refuse (message : String) : Result (Config D) := .error (make_error .ConfigError message cfg.source_path)
  match unless_empty parse_time_of_day 0 cfg.session.regular_open with
  | none => refuse ("market_session.regular_open must be HH:MM:SS, got: " ++ cfg.session.regular_open)
  | some open_offset =>
    match unless_empty parse_time_of_day 0 cfg.session.regular_close with
    | none => refuse ("market_session.regular_close must be HH:MM:SS, got: " ++ cfg.session.regular_close)
    | some close_offset =>
      if close_offset ≤ open_offset then refuse "market_session.regular_close must be after regular_open"
      else
        match unless_empty parse_date kNoTimestamp cfg.holdout.boundary_date with
        | none =>
          refuse ("holdout.boundary_date must be a valid YYYY-MM-DD date, got: " ++ cfg.holdout.boundary_date)
        | some boundary =>
          if cfg.holdout.months < 1 then refuse "holdout.months must be >= 1"
          else if lib.negative cfg.databento.max_spend_usd then refuse "data.databento.max_spend_usd must be >= 0"
          else if cfg.holdout.unlocked ∧ cfg.holdout.unlock_justification = "" then
            refuse "holdout.unlocked requires holdout.unlock_justification"
          else
            .ok { cfg with
              session := { cfg.session with open_offset, close_offset }
              holdout := { cfg.holdout with boundary } }

/-- The order of `std::pair`. -/
def entry_le (e e' : String × String) : Bool := e.1 < e'.1 ∨ e.1 = e'.1 ∧ e.2 ≤ e'.2

/-- Sorted, fully dotted, one key per line. -/
def canonical_form (flat : List (String × String)) : String :=
  String.join ((flat.insertionSort fun e e' => entry_le e e').map fun e => e.1 ++ "=" ++ e.2 ++ "\n")

def finish (root : Document D) (origin : String) : Result (Config D) :=
  let flat := collect_keys lib "" root.members
  let unknown := (flat.map Prod.fst).filter (· ∉ all_known_keys)
  if unknown ≠ [] then
    .error (make_error .ConfigError ("unrecognised configuration key(s): " ++ ", ".intercalate unknown) origin)
  else
    let r : Reader D := { lib, t := root }
    let level_text := r.str "log.level" "info"
    match log.parse_level level_text with
    | none => .error (make_error .ConfigError ("invalid log.level: " ++ level_text) origin)
    | some level =>
      match validate lib (r.read level origin) with
      | .error err => .error err
      | .ok cfg => .ok { cfg with canonical := canonical_form flat }

def load_from_string (toml_text : String) (overrides : List String) (origin : String) : Result (Config D) :=
  match lib.parse toml_text with
  | .error err => .error (make_error .ParseError (err.description ++ " at line " ++ toString err.line) origin)
  | .ok root =>
    match apply_overrides lib root overrides with
    | .error err => .error err
    | .ok root => finish lib root origin

end Load

end config

end ptl
