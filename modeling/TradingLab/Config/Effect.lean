import Mathlib.Data.List.Infix
import TradingLab.Config.Settings

open Keyed

namespace ptl.config

variable {D : Type} {lib : Toml D}

/-- What the library documents of its conversions: a value of the very type is itself, and an
integer is only taken for the double it is cast to. -/
structure Toml.Documented (lib : Toml D) : Prop where
  string : ∀ s, lib.value_string (.string s) = some s
  integer : ∀ i, lib.value_integer (.integer i) = some i
  boolean : ∀ b, lib.value_boolean (.boolean b) = some b
  real : ∀ d, lib.value_real (.floating_point d) = some d
  real_of_integer : ∀ i d, lib.value_real (.integer i) = some d → d = lib.of_integer i

/-! ### Fields and values -/

namespace Setting

theorem kind_read (r : Reader D) (key : String) (initial : Setting D) : (initial.read r key).kind = initial.kind := by
  cases initial <;> rfl

/-- Without a value a field stays as it is. -/
theorem read_none {r : Reader D} {key : String} (hnone : r.at_path key = none) (initial : Setting D) :
    initial.read r key = initial := by
  cases initial <;> simp [read, Reader.str, Reader.boolean, Reader.real, hnone]

theorem fits_of_is {setting : Setting D} {v : Scalar D} (his : setting.Is lib v) : setting.kind.Fits lib v := by
  cases setting with
  | text s => exact ⟨s, his⟩
  | flag b => exact ⟨b, his⟩
  | seed n =>
    obtain ⟨i, rfl, hi⟩ := his
    exact ⟨i, rfl, hi ▸ Int.natCast_nonneg _⟩
  | count n =>
    obtain ⟨i, rfl, hi⟩ := his
    exact ⟨i, rfl, hi ▸ n.le_toInt, hi ▸ n.toInt_lt⟩
  | amount d =>
    rcases his with rfl | ⟨i, rfl, rfl, hi⟩
    · exact .inl ⟨d, rfl⟩
    · exact .inr ⟨i, rfl, hi⟩
  | level l =>
    obtain ⟨s, rfl, hs⟩ := his
    exact ⟨s, l, rfl, hs⟩

/-- A value gives a field of a kind at most one value. -/
theorem is_unique {setting setting' : Setting D} {v : Scalar D} (hkind : setting.kind = setting'.kind)
    (his : setting.Is lib v) (his' : setting'.Is lib v) : setting = setting' := by
  cases setting with
  | text s =>
    cases setting' with
    | text s' =>
      rw [Is] at his his'
      rw [his] at his'
      rw [Scalar.string.inj his']
    | _ => cases hkind
  | flag b =>
    cases setting' with
    | flag b' =>
      rw [Is] at his his'
      rw [his] at his'
      rw [Scalar.boolean.inj his']
    | _ => cases hkind
  | seed n =>
    cases setting' with
    | seed n' =>
      obtain ⟨i, rfl, hi⟩ := his
      obtain ⟨i', heq, hi'⟩ := his'
      cases heq
      rw [UInt64.toNat_inj.mp (Int.ofNat_inj.mp (hi.trans hi'.symm))]
    | _ => cases hkind
  | count n =>
    cases setting' with
    | count n' =>
      obtain ⟨i, rfl, hi⟩ := his
      obtain ⟨i', heq, hi'⟩ := his'
      cases heq
      rw [Int32.toInt_inj.mp (hi.trans hi'.symm)]
    | _ => cases hkind
  | amount d =>
    cases setting' with
    | amount d' =>
      rcases his with rfl | ⟨i, rfl, rfl, -⟩
      · rcases his' with heq | ⟨i, heq, -⟩
        · rw [Scalar.floating_point.inj heq]
        · cases heq
      · rcases his' with heq | ⟨i', heq, rfl, -⟩
        · cases heq
        · rw [Scalar.integer.inj heq]
    | _ => cases hkind
  | level l =>
    cases setting' with
    | level l' =>
      obtain ⟨s, rfl, hs⟩ := his
      obtain ⟨s', heq, hs'⟩ := his'
      cases heq
      rw [Option.some.inj (hs.symm.trans hs')]
    | _ => cases hkind

theorem real_is (hlib : lib.Documented) {r : Reader D} (hr : r.lib = lib) {key : String} {v : Scalar D}
    (hvalue : r.at_path key = some v) (hfits : Kind.amount.Fits lib v) (fallback : D) :
    Is lib v (.amount (r.real key fallback)) := by
  subst hr
  rcases hfits with ⟨d, rfl⟩ | ⟨i, rfl, hwhole⟩
  · exact .inl (by simp [Reader.real, hvalue, hlib.real])
  · refine .inr ⟨i, rfl, ?_⟩
    have hcast : r.real key fallback = r.lib.of_integer i := by
      rw [Reader.real, hvalue, Option.bind_some, Option.bind_some, hlib.integer]
      split
      · rename_i d hreal
        exact hlib.real_of_integer i d hreal
      · rfl
    exact ⟨hcast, hcast ▸ hwhole⟩

/-- A value that fits is what its field is read as. -/
theorem read_is (hlib : lib.Documented) {r : Reader D} (hr : r.lib = lib) {key : String} {v : Scalar D}
    (hvalue : r.at_path key = some v) {initial : Setting D} (hfits : initial.kind.Fits lib v) :
    (initial.read r key).Is lib v := by
  cases initial with
  | text fallback =>
    obtain ⟨s, rfl⟩ := hfits
    simp [read, Reader.str, hvalue, hr, hlib.string, Is]
  | flag fallback =>
    obtain ⟨b, rfl⟩ := hfits
    simp [read, Reader.boolean, hvalue, hr, hlib.boolean, Is]
  | seed fallback =>
    obtain ⟨i, rfl, hi⟩ := hfits
    refine ⟨i, rfl, ?_⟩
    rw [hvalue, hr, Option.bind_some, hlib.integer, Option.map_some, Option.getD_some,
      Int64.toNat_toUInt64_of_le (Int64.le_iff_toInt_le.mpr hi)]
    exact Int.toNat_of_nonneg hi
  | count fallback =>
    obtain ⟨i, rfl, hlow, hhigh⟩ := hfits
    refine ⟨i, rfl, ?_⟩
    rw [hvalue, hr, Option.bind_some, hlib.integer, Option.map_some, Option.getD_some, Int64.toInt_toInt32]
    exact Int.bmod_eq_of_le (by omega) (by omega)
  | amount fallback => exact real_is hlib hr hvalue hfits fallback
  | level fallback =>
    obtain ⟨s, l, rfl, hs⟩ := hfits
    refine ⟨s, rfl, ?_⟩
    rw [hvalue, hr, Option.bind_some, hlib.string, Option.bind_some, hs, Option.getD_some]

end Setting

/-! ### What overrides leave -/

/-- The name of what is at the end of a path, as the check of the keys has it. -/
def name (path : List String) : String := path.foldl nested ""

/-- What an override sets at a path. -/
def override_value (path : List String) (ov : String) : Option String :=
  match override_parts ov with
  | none => none
  | some (key, value) => if parts key = path then some value else none

/-- The last override of a path. -/
def last_override (path : List String) : List String → Option String
  | [] => none
  | ov :: overrides => (last_override path overrides).or (override_value path ov)

/-- The value that was given for a path: its last override, or else what the document has. -/
def given_at (lib : Toml D) (doc : Document D) (overrides : List String) (path : List String) : Option (Scalar D) :=
  ((last_override path overrides).map (typed lib)).or (value_at path doc.members)

theorem apply_override_ok {root after : Document D} {ov : String} (hok : apply_override lib root ov = .ok after) :
    ∃ key value, override_parts ov = some (key, value) ∧
      put (parts key) (typed lib value) root.members = some after.members := by
  unfold apply_override at hok
  split at hok
  · cases hok
  · rename_i key value hparts
    split at hok
    · cases hok
    · rename_i root' hset
      cases hok
      rw [set_dotted] at hset
      split at hset
      · cases hset
      · exact ⟨key, value, hparts, Table.put_some hset⟩

theorem apply_overrides_cons {root after : Document D} {ov : String} {overrides : List String}
    (hok : apply_overrides lib root (ov :: overrides) = .ok after) :
    ∃ next, apply_override lib root ov = .ok next ∧ apply_overrides lib next overrides = .ok after := by
  rw [apply_overrides] at hok
  split at hok
  · cases hok
  · rename_i next hnext
    exact ⟨next, hnext, hok⟩

theorem covered_apply_overrides {path : List String} {root after : Document D} {overrides : List String}
    (hok : apply_overrides lib root overrides = .ok after) (hcovered : Covered path root.members) :
    Covered path after.members := by
  induction overrides generalizing root with
  | nil =>
    cases hok
    exact hcovered
  | cons ov overrides ih =>
    obtain ⟨next, hnext, hrest⟩ := apply_overrides_cons hok
    obtain ⟨key, value, -, hput⟩ := apply_override_ok hnext
    exact ih hrest (hcovered.put hput)

/-- After the overrides a path has what was given for it, unless a value was put in its way. -/
theorem apply_overrides_at (path : List String) {root after : Document D} {overrides : List String}
    (hok : apply_overrides lib root overrides = .ok after) :
    value_at path after.members = given_at lib root overrides path ∨ Covered path after.members := by
  induction overrides generalizing root with
  | nil =>
    cases hok
    exact .inl rfl
  | cons ov overrides ih =>
    obtain ⟨next, hnext, hrest⟩ := apply_overrides_cons hok
    obtain ⟨key, value, hparts, hput⟩ := apply_override_ok hnext
    rcases value_at_put path hput with hvalue | hcovered
    · refine (ih hrest).imp_left fun hafter => hafter.trans ?_
      rw [given_at, given_at, last_override, override_value, hparts, hvalue]
      dsimp only
      cases last_override path overrides with
      | some last => rfl
      | none => split <;> rfl
    · exact .inr (covered_apply_overrides hrest hcovered)

/-! ### Keys and paths -/

/-- The tables that declared keys are in. -/
def section_names : List String :=
  ["", "run", "data", "data.databento", "market_session", "holdout", "log", "data.t1", "data.t2", "data.t3"]

theorem key_paths : ∀ key ∈ all_known_keys, ('[' ∉ key.toList ∧ '=' ∉ key.toList) ∧ name (parts key) = key ∧
    ∀ short ∈ (parts key).inits, short = parts key ∨ name short ∈ section_names := by decide +kernel

theorem section_names_unknown : ∀ table ∈ section_names, table ∉ all_known_keys := by decide +kernel

theorem name_parts {key : String} (hkey : key ∈ all_known_keys) : name (parts key) = key := (key_paths key hkey).2.1

theorem mem_collect_keys {key parent : String} {node : Node D} {members : List (String × Node D)}
    {e : String × String} (hmem : (key, node) ∈ members) (hentry : e ∈ collect_node lib (nested parent key) node) :
    e ∈ collect_keys lib parent members := by
  induction members with
  | nil => cases hmem
  | cons first members ih =>
    obtain ⟨key', node'⟩ := first
    rw [collect_keys]
    rcases List.mem_cons.mp hmem with heq | hlater
    · cases heq
      exact List.mem_append_left _ hentry
    · exact List.mem_append_right _ (ih hlater)

/-- Every value of a document is listed under the name of its path. -/
theorem mem_collect_of_value_at {path : List String} {parent : String} {members : List (String × Node D)}
    {v : Scalar D} (hvalue : value_at path members = some v) :
    (path.foldl nested parent, canonical_scalar lib v) ∈ collect_keys lib parent members := by
  induction path generalizing parent members with
  | nil => cases hvalue
  | cons key path ih =>
    cases hlookup : members.lookup key with
    | none =>
      rw [value_at_cons_of_none hlookup] at hvalue
      cases hvalue
    | some node =>
      refine mem_collect_keys (mem_of_lookup hlookup) ?_
      cases node with
      | value w =>
        cases path with
        | nil =>
          rw [value_at, reached_cons, hlookup] at hvalue
          cases hvalue
          exact List.mem_singleton_self _
        | cons next path =>
          rw [value_at_cons_of_value (by simp) hlookup] at hvalue
          cases hvalue
      | array elements =>
        rw [value_at, reached_cons, hlookup] at hvalue
        cases path <;> cases hvalue
      | table inner =>
        rw [value_at_cons_of_table hlookup] at hvalue
        exact ih hvalue

/-- In a document whose keys are all known no value stands in the way of a declared key. -/
theorem not_covered {members : List (String × Node D)}
    (hknown : ∀ e ∈ collect_keys lib "" members, e.1 ∈ all_known_keys) {key : String} (hkey : key ∈ all_known_keys) :
    ¬ Covered (parts key) members := by
  rintro ⟨short, v, hshort, hne, hvalue⟩
  rcases (key_paths key hkey).2.2 short ((List.mem_inits _ _).mpr hshort) with heq | htable
  · exact hne heq
  · exact section_names_unknown _ htable (hknown _ (mem_collect_of_value_at hvalue))

/-! ### Given values and their effect -/

section Effect

variable (lib : Toml D) (doc : Document D) (overrides : List String)

/-- What is given for a key, and where: by the last override of a path with the name of the
key, or by the document, where no override has that path or the path of the key itself. -/
inductive Given (key : String) : List String → Node D → Prop
  | override {path : List String} {value : String} (name_ : name path = key)
      (last : last_override path overrides = some value) : Given key path (.value (typed lib value))
  | document {path : List String} {node : Node D} (name_ : name path = key)
      (kept : last_override path overrides = none) (key_ : last_override (parts key) overrides = none)
      (reached_ : reached path (.table doc.members) = some node) : Given key path node

/-- Whatever is given for a key is exactly what its field has. -/
def TakesEffect (cfg : Config D) : Prop :=
  ∀ key ∈ all_known_keys, ∀ path node, Given lib doc overrides key path node →
    ∃ setting v, (key, setting) ∈ cfg.fields ∧ node = .value v ∧ setting.Is lib v

/-- A value says the same as the one at the path of the key, or as the initial value where there
is none. -/
def Agrees (initial : Setting D) (v : Scalar D) : Option (Scalar D) → Prop
  | some w => ∃ setting : Setting D, setting.kind = initial.kind ∧ setting.Is lib w ∧ setting.Is lib v
  | none => initial.Is lib v

/-- Whatever is given for a key is a value of the type of its field and in its range. It is
given at the path of the key, or says nothing that is not said there. -/
def WellGiven : Prop :=
  ∀ key initial, (key, initial) ∈ (Config.initial lib).fields → ∀ path node,
    Given lib doc overrides key path node →
      ∃ v, node = .value v ∧ initial.kind.Fits lib v ∧
        (path = parts key ∨ Agrees lib initial v (given_at lib doc overrides (parts key)))

variable {lib doc overrides} {origin text : String} {cfg : Config D}

/-- The fields of a loaded document are what was given for the paths of their keys. -/
theorem load_ok (hparse : lib.parse text = .ok doc) (hload : load_from_string lib text overrides origin = .ok cfg) :
    ∃ r : Reader D, r.lib = lib ∧
      cfg.fields = ((Config.initial lib).fields.map fun e => (e.1, e.2.read r e.1)) ∧
      ∀ key ∈ all_known_keys, r.at_path key = given_at lib doc overrides (parts key) := by
  rw [load_from_string, hparse] at hload
  dsimp only at hload
  split at hload
  · cases hload
  · rename_i root happly
    obtain ⟨hknown, hfields, -, -⟩ := finish_ok hload
    refine ⟨{ lib, t := root }, rfl, hfields, fun key hkey => ?_⟩
    exact (apply_overrides_at (parts key) happly).resolve_right (not_covered hknown hkey)

theorem mem_keys_of_mem_fields {key : String} {setting : Setting D} (hmem : (key, setting) ∈ cfg.fields) :
    key ∈ all_known_keys :=
  fields_keys cfg ▸ List.mem_map_of_mem hmem

theorem setting_unique {key : String} {setting setting' : Setting D} (hmem : (key, setting) ∈ cfg.fields)
    (hmem' : (key, setting') ∈ cfg.fields) : setting = setting' := by
  have hkeys : (cfg.fields.map Prod.fst).Nodup := (fields_keys cfg).symm ▸ nodup_all_known_keys
  exact congrArg Prod.snd (List.inj_on_of_nodup_map hkeys hmem hmem' rfl)

/-- What is at the path of a key was given for it. -/
theorem given_of_given_at {key : String} (hkey : key ∈ all_known_keys) {v : Scalar D}
    (hgiven : given_at lib doc overrides (parts key) = some v) :
    Given lib doc overrides key (parts key) (.value v) := by
  rw [given_at] at hgiven
  cases hlast : last_override (parts key) overrides with
  | some value =>
    rw [hlast] at hgiven
    cases hgiven
    exact .override (name_parts hkey) hlast
  | none =>
    rw [hlast] at hgiven
    obtain ⟨node, hnode, hvalue⟩ := Option.bind_eq_some_iff.mp hgiven
    cases node with
    | value w =>
      cases hvalue
      exact .document (name_parts hkey) hlast hlast hnode
    | array elements => cases hvalue
    | table members => cases hvalue

/-- A value given at the path of a key is what is there in the end. -/
theorem given_at_of_given {key : String} {v : Scalar D}
    (hgiven : Given lib doc overrides key (parts key) (.value v)) :
    given_at lib doc overrides (parts key) = some v := by
  rw [given_at]
  cases hgiven with
  | override name_ last => rw [last]; rfl
  | document name_ kept key_ reached_ => rw [kept, value_at, reached_]; rfl

/-- In a document that loads, whatever was given for a key takes effect exactly if all that
was given is of the right type, in range and at the right place. -/
theorem takes_effect_iff (hlib : lib.Documented) (hparse : lib.parse text = .ok doc)
    (hload : load_from_string lib text overrides origin = .ok cfg) :
    TakesEffect lib doc overrides cfg ↔ WellGiven lib doc overrides := by
  obtain ⟨r, hr, hfields, hpath⟩ := load_ok hparse hload
  have hread : ∀ {key initial}, (key, initial) ∈ (Config.initial lib).fields →
      (key, initial.read r key) ∈ cfg.fields := fun hmem => hfields ▸ List.mem_map.mpr ⟨_, hmem, rfl⟩
  constructor
  · intro heffect key initial hmem path node hgiven
    have hkey := mem_keys_of_mem_fields hmem
    -- The field is what a value of this key says, whichever it is.
    have hsays : ∀ {path node}, Given lib doc overrides key path node →
        ∃ v, node = .value v ∧ (initial.read r key).Is lib v := by
      intro path node hgiven
      obtain ⟨setting, v, hfield, hnode, his⟩ := heffect key hkey path node hgiven
      exact ⟨v, hnode, setting_unique hfield (hread hmem) ▸ his⟩
    obtain ⟨v, rfl, his⟩ := hsays hgiven
    refine ⟨v, rfl, Setting.kind_read r key initial ▸ Setting.fits_of_is his, .inr ?_⟩
    cases hown : given_at lib doc overrides (parts key) with
    | none =>
      rw [Setting.read_none ((hpath key hkey).trans hown)] at his
      exact his
    | some w =>
      obtain ⟨v', heq, hown'⟩ := hsays (given_of_given_at hkey hown)
      cases heq
      exact ⟨_, Setting.kind_read r key initial, hown', his⟩
  · intro hwell key hkey path node hgiven
    obtain ⟨⟨key', initial⟩, hmem, rfl⟩ := List.mem_map.mp (fields_keys (Config.initial lib) ▸ hkey)
    obtain ⟨v, rfl, hfits, hplace⟩ := hwell key' initial hmem path node hgiven
    refine ⟨_, v, hread hmem, rfl, ?_⟩
    rcases hplace with rfl | hagrees
    · exact Setting.read_is hlib hr ((hpath key' hkey).trans (given_at_of_given hgiven)) hfits
    · cases hown : given_at lib doc overrides (parts key') with
      | none =>
        rw [hown] at hagrees
        rw [Setting.read_none ((hpath key' hkey).trans hown)]
        exact hagrees
      | some w =>
        rw [hown] at hagrees
        obtain ⟨setting, hkind, hw, hv⟩ := hagrees
        have hfits' : initial.kind.Fits lib w := hkind ▸ Setting.fits_of_is hw
        have hsetting := Setting.read_is hlib hr ((hpath key' hkey).trans hown) hfits'
        rw [Setting.is_unique ((Setting.kind_read r key' initial).trans hkind.symm) hsetting hw]
        exact hv

end Effect

/-! ### Concrete loads -/

/-- A library whose doubles are whole numbers. -/
def whole_toml (parse : String → Except SyntaxError (Document Int)) : Toml Int where
  parse
  value_string
    | .string s => some s
    | _ => none
  value_integer
    | .integer i => some i
    | .floating_point d => if -2 ^ 63 ≤ d ∧ d < 2 ^ 63 then some (Int64.ofInt d) else none
    | .boolean b => some (if b then 1 else 0)
    | _ => none
  value_boolean
    | .boolean b => some b
    | .integer i => some (i ≠ 0)
    | _ => none
  value_real
    | .floating_point d => some d
    | .integer i => some i.toInt
    | _ => none
  of_integer := Int64.toInt
  print d := toString d
  stod text :=
    if (takeSign text.toList).2.all Char.isDigit then
      (signed text.toList).map fun read => (if read.1 then -(read.2 : Int) else read.2, text.utf8ByteSize)
    else none
  negative d := d < 0
  whole := some

theorem whole_toml_documented (parse : String → Except SyntaxError (Document Int)) :
    (whole_toml parse).Documented where
  string _ := rfl
  integer _ := rfl
  boolean _ := rfl
  real _ := rfl
  real_of_integer _ _ hreal := (Option.some.inj hreal).symm

/-- Every text is an empty document. -/
def blank : Toml Int := whole_toml fun _ => .ok .empty

/-- The configuration of an empty document, but for the given section. -/
def otherwise_initial (run : RunSection) (canonical : String) : Config Int where
  run
  databento := { max_spend_usd := 25 }
  session := { open_offset := 34200000000000, close_offset := 57600000000000 }
  canonical

theorem blank_loads :
    load_from_string blank "" ["run.seed=7"] "" = .ok (otherwise_initial { seed := 7 } "run.seed=7\n") ∧
      load_from_string blank "" ["run.tag=42"] "" = .ok (otherwise_initial {} "run.tag=42\n") := by
  have hloads : (load_from_string blank "" ["run.seed=7"] "").toOption =
        some (otherwise_initial { seed := 7 } "run.seed=7\n") ∧
      (load_from_string blank "" ["run.tag=42"] "").toOption = some (otherwise_initial {} "run.tag=42\n") := by
    decide +kernel
  exact hloads.imp Result.toOption_eq_some.mp Result.toOption_eq_some.mp

/-- A seed given by an override takes effect. -/
theorem takes_effect_seed :
    load_from_string blank "" ["run.seed=7"] "" = .ok (otherwise_initial { seed := 7 } "run.seed=7\n") ∧
      TakesEffect blank .empty ["run.seed=7"] (otherwise_initial { seed := 7 } "run.seed=7\n") := by
  refine ⟨blank_loads.1, (takes_effect_iff (whole_toml_documented _) rfl blank_loads.1).mpr ?_⟩
  intro key initial hmem path node hgiven
  have hkey := mem_keys_of_mem_fields hmem
  cases hgiven with
  | override name_ last =>
    have hvalue : override_value path "run.seed=7" = if parts "run.seed" = path then some "7" else none := by
      rw [override_value, show override_parts "run.seed=7" = some ("run.seed", "7") by decide +kernel]
    rw [last_override, last_override, Option.none_or, hvalue] at last
    split at last
    · rename_i hpath
      cases last
      subst hpath
      obtain rfl : "run.seed" = key := (name_parts (by decide +kernel)).symm.trans name_
      have hseed : ("run.seed", Setting.seed 20240101) ∈ (Config.initial blank).fields := List.mem_cons_self
      obtain rfl := setting_unique hseed hmem
      have htyped : typed blank "7" = .integer 7 := by decide +kernel
      exact ⟨_, rfl, ⟨7, htyped, by decide⟩, .inl rfl⟩
    · cases last
  | document name_ kept key_ reached_ =>
    cases path with
    | nil =>
      subst name_
      exact absurd hkey (by decide +kernel)
    | cons first path => cases reached_

/-- A tag of digits is accepted, and ignored. -/
theorem tag_ignored :
    load_from_string blank "" ["run.tag=42"] "" = .ok (otherwise_initial {} "run.tag=42\n") ∧
      ¬ TakesEffect blank .empty ["run.tag=42"] (otherwise_initial {} "run.tag=42\n") := by
  refine ⟨blank_loads.2, fun heffect => ?_⟩
  have hgiven : Given blank .empty ["run.tag=42"] "run.tag" ["run", "tag"] (.value (typed blank "42")) :=
    .override (by decide +kernel) (by decide +kernel)
  obtain ⟨setting, v, hmem, hnode, his⟩ := heffect "run.tag" (by decide +kernel) _ _ hgiven
  cases hnode
  have htag : ("run.tag", Setting.text "") ∈ (otherwise_initial {} "run.tag=42\n").fields :=
    .tail _ (.tail _ List.mem_cons_self)
  obtain rfl := setting_unique htag hmem
  have htyped : typed blank "42" = .integer 42 := by decide +kernel
  exact nomatch htyped.symm.trans his

end ptl.config
