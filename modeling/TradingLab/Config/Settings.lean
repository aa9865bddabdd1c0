import TradingLab.Config.Config

open Keyed

namespace ptl.config

variable {D : Type}

/-- What a field of the configuration can be. -/
inductive Kind where
  | text
  | flag
  | seed
  | count
  | amount
  | level
  deriving DecidableEq, Repr

/-- A field of the configuration, with its value. -/
inductive Setting (D : Type) where
  | text (s : String)
  | flag (b : Bool)
  | seed (n : UInt64)
  | count (n : Int32)
  | amount (d : D)
  | level (l : log.Level)

namespace Setting

def kind : Setting D → Kind
  | .text _ => .text
  | .flag _ => .flag
  | .seed _ => .seed
  | .count _ => .count
  | .amount _ => .amount
  | .level _ => .level

/-- What is read for a field, where this is what it is without a value. -/
def read (r : Reader D) (key : String) : Setting D → Setting D
  | .text fallback => .text (r.str key fallback)
  | .flag fallback => .flag (r.boolean key fallback)
  | .seed fallback => .seed ((((r.at_path key).bind r.lib.value_integer).map Int64.toUInt64).getD fallback)
  | .count fallback => .count ((((r.at_path key).bind r.lib.value_integer).map Int64.toInt32).getD fallback)
  | .amount fallback => .amount (r.real key fallback)
  | .level fallback => .level ((((r.at_path key).bind r.lib.value_string).bind log.parse_level).getD fallback)

/-- The field has exactly the value that was given. -/
def Is (lib : Toml D) (v : Scalar D) : Setting D → Prop
  | .text s => v = .string s
  | .flag b => v = .boolean b
  | .seed n => ∃ i, v = .integer i ∧ (n.toNat : Int) = i.toInt
  | .count n => ∃ i, v = .integer i ∧ n.toInt = i.toInt
  | .amount d => v = .floating_point d ∨ ∃ i, v = .integer i ∧ d = lib.of_integer i ∧ lib.whole d = some i.toInt
  | .level l => ∃ s, v = .string s ∧ log.parse_level s = some l

end Setting

/-- Values of the type of a field that are in its range. -/
def Kind.Fits (lib : Toml D) (v : Scalar D) : Kind → Prop
  | .text => ∃ s, v = .string s
  | .flag => ∃ b, v = .boolean b
  | .seed => ∃ i, v = .integer i ∧ 0 ≤ i.toInt
  | .count => ∃ i, v = .integer i ∧ -2 ^ 31 ≤ i.toInt ∧ i.toInt < 2 ^ 31
  | .amount => (∃ d, v = .floating_point d) ∨ ∃ i, v = .integer i ∧ lib.whole (lib.of_integer i) = some i.toInt
  | .level => ∃ s l, v = .string s ∧ log.parse_level s = some l

def DataTier.fields (p : String) (t : DataTier) : List (String × Setting D) :=
  [(p ++ ".provider", .text t.provider), (p ++ ".feed", .text t.feed), (p ++ ".schema", .text t.schema),
    (p ++ ".timestamp_semantics", .text t.timestamp_semantics), (p ++ ".coverage", .text t.coverage),
    (p ++ ".historical_end_delay_minutes", .count t.historical_end_delay_minutes)]

/-- The fields that keys set, under their keys. -/
def Config.fields (cfg : Config D) : List (String × Setting D) :=
  [("run.seed", .seed cfg.run.seed), ("run.results_dir", .text cfg.run.results_dir), ("run.tag", .text cfg.run.tag),
    ("run.fail_on_validation_warning", .flag cfg.run.fail_on_validation_warning),
    ("data.raw_dir", .text cfg.data.raw_dir), ("data.normalized_dir", .text cfg.data.normalized_dir),
    ("data.reference_dir", .text cfg.data.reference_dir), ("data.cache_dir", .text cfg.data.cache_dir),
    ("data.databento.max_spend_usd", .amount cfg.databento.max_spend_usd),
    ("data.databento.require_explicit_paid_override", .flag cfg.databento.require_explicit_paid_override),
    ("market_session.timezone", .text cfg.session.timezone),
    ("market_session.regular_open", .text cfg.session.regular_open),
    ("market_session.regular_close", .text cfg.session.regular_close),
    ("market_session.exclude_opening_auction", .flag cfg.session.exclude_opening_auction),
    ("market_session.exclude_closing_auction", .flag cfg.session.exclude_closing_auction),
    ("holdout.boundary_date", .text cfg.holdout.boundary_date), ("holdout.months", .count cfg.holdout.months),
    ("holdout.unlocked", .flag cfg.holdout.unlocked),
    ("holdout.unlock_justification", .text cfg.holdout.unlock_justification),
    ("log.level", .level cfg.log.level), ("log.file", .text cfg.log.file), ("log.console", .flag cfg.log.console),
    ("log.json", .flag cfg.log.json)] ++
    (cfg.t1.fields "data.t1" ++ (cfg.t2.fields "data.t2" ++ cfg.t3.fields "data.t3"))

/-- The configuration of the member initialisers. -/
def Config.initial (lib : Toml D) : Config D where
  databento := { max_spend_usd := lib.of_integer 25 }

/-- Every declared key is the key of a field, and every field has a declared key. -/
theorem fields_keys (cfg : Config D) : cfg.fields.map Prod.fst = all_known_keys := by
  simp only [Config.fields, DataTier.fields, List.map_append, List.map_cons, List.map_nil]
  decide +kernel

theorem nodup_all_known_keys : all_known_keys.Nodup := by decide +kernel

/-! ### What a load makes of the fields -/

/-- What is parsed of a configuration, and what is checked of it. -/
structure Checked (cfg : Config D) : Prop where
  open_offset : unless_empty parse_time_of_day 0 cfg.session.regular_open = some cfg.session.open_offset
  close_offset : unless_empty parse_time_of_day 0 cfg.session.regular_close = some cfg.session.close_offset
  boundary : unless_empty parse_date kNoTimestamp cfg.holdout.boundary_date = some cfg.holdout.boundary

theorem validate_ok {lib : Toml D} {cfg after : Config D} (hok : validate lib cfg = .ok after) :
    Checked after ∧ after.fields = cfg.fields ∧ after.source_path = cfg.source_path := by
  unfold validate at hok
  dsimp only at hok
  split at hok
  · cases hok
  · rename_i open_offset hopen
    split at hok
    · cases hok
    · rename_i close_offset hclose
      split at hok
      · cases hok
      · split at hok
        · cases hok
        · rename_i boundary hboundary
          split at hok
          · cases hok
          · split at hok
            · cases hok
            · split at hok
              · cases hok
              · cases hok
                exact ⟨⟨hopen, hclose, hboundary⟩, rfl, rfl⟩

/-- Every field is read under its key, and is what it is initially where nothing is read. -/
theorem Reader.fields_read (r : Reader D) {level : log.Level} (origin : String)
    (hlevel : log.parse_level (r.str "log.level" "info") = some level) :
    (r.read level origin).fields =
      (Config.initial r.lib).fields.map fun e => (e.1, e.2.read r e.1) := by
  have hread : level = (((r.at_path "log.level").bind r.lib.value_string).bind log.parse_level).getD .Info := by
    unfold Reader.str at hlevel
    cases hvalue : (r.at_path "log.level").bind r.lib.value_string with
    | none =>
      rw [hvalue] at hlevel
      exact (Option.some.inj hlevel).symm
    | some text =>
      rw [hvalue, Option.getD_some] at hlevel
      rw [Option.bind_some, hlevel, Option.getD_some]
  have hseed : ∀ v : Option Int64, (v.getD 20240101).toUInt64 = (v.map Int64.toUInt64).getD 20240101 := by
    rintro (_ | i) <;> rfl
  have hdelay : ∀ v : Option Int64, (v.getD 0).toInt32 = (v.map Int64.toInt32).getD 0 := by
    rintro (_ | i) <;> rfl
  have hmonths : ∀ v : Option Int64, (v.getD 4).toInt32 = (v.map Int64.toInt32).getD 4 := by
    rintro (_ | i) <;> rfl
  rw [hread]
  simp only [Config.fields, DataTier.fields, Reader.read, Reader.read_tier, Config.initial, Setting.read,
    Reader.integer, hseed, hdelay, hmonths, List.map_append, List.map_cons, List.map_nil]

/-- What a document that loads is: all its keys are known, and every field is what is read
under its key. -/
theorem finish_ok {lib : Toml D} {root : Document D} {origin : String} {cfg : Config D}
    (hok : finish lib root origin = .ok cfg) :
    (∀ e ∈ collect_keys lib "" root.members, e.1 ∈ all_known_keys) ∧
      cfg.fields = ((Config.initial lib).fields.map fun e => (e.1, e.2.read { lib, t := root } e.1)) ∧
      Checked cfg ∧ cfg.canonical = canonical_form (collect_keys lib "" root.members) := by
  unfold finish at hok
  dsimp only at hok
  split at hok
  · cases hok
  · rename_i hknown
    split at hok
    · cases hok
    · rename_i level hlevel
      split at hok
      · cases hok
      · rename_i checked hvalidate
        cases hok
        obtain ⟨hchecked, hfields, -⟩ := validate_ok hvalidate
        refine ⟨fun e he => ?_, hfields.trans (Reader.fields_read _ origin hlevel), ?_, rfl⟩
        · rw [ne_eq, not_not, List.filter_eq_nil_iff] at hknown
          simpa using hknown e.1 (List.mem_map_of_mem he)
        · exact ⟨hchecked.open_offset, hchecked.close_offset, hchecked.boundary⟩

end ptl.config
