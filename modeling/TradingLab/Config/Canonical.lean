import TradingLab.Config.Effect
import TradingLab.Config.RunId

open Entries Keyed

namespace ptl.config

variable {D : Type} {lib : Toml D}

/-! ### Where an entry comes from -/

theorem mark_nested {mark : Char} {parent : String} (hparent : mark ∈ parent.toList) (key : String) :
    mark ∈ (nested parent key).toList := by
  have hne : parent ≠ "" := by
    rintro rfl
    cases hparent
  rw [nested, if_neg hne]
  simp [hparent]

theorem mark_indexed (key : String) (i : Nat) : '[' ∈ (indexed key i).toList := by
  simp [indexed]

/-! What is under an element of an array has a bracket in its name. -/

mutual

theorem mark_collect_node {key : String} (hkey : '[' ∈ key.toList) :
    ∀ (node : Node D), ∀ e ∈ collect_node lib key node, '[' ∈ e.1.toList
  | .value v, e, hmem => by
    cases List.mem_singleton.mp hmem
    exact hkey
  | .array elements, e, hmem => mark_collect_elements key 0 elements e hmem
  | .table members, e, hmem => mark_collect_keys hkey members e hmem

theorem mark_collect_keys {parent : String} (hparent : '[' ∈ parent.toList) :
    ∀ (members : List (String × Node D)), ∀ e ∈ collect_keys lib parent members, '[' ∈ e.1.toList
  | [], _, hmem => nomatch hmem
  | (key, node) :: members, e, hmem => by
    rw [collect_keys] at hmem
    rcases List.mem_append.mp hmem with hfirst | hlater
    · exact mark_collect_node (mark_nested hparent key) node e hfirst
    · exact mark_collect_keys hparent members e hlater

theorem mark_collect_elements (key : String) :
    ∀ (i : Nat) (elements : List (Node D)), ∀ e ∈ collect_elements lib key i elements, '[' ∈ e.1.toList
  | _, [], _, hmem => nomatch hmem
  | i, .table members :: elements, e, hmem => by
    rw [collect_elements] at hmem
    rcases List.mem_append.mp hmem with hfirst | hlater
    · exact mark_collect_keys (mark_indexed key i) members e hfirst
    · exact mark_collect_elements key (i + 1) elements e hlater
  | i, .value v :: elements, e, hmem => by
    rw [collect_elements] at hmem
    rcases List.mem_cons.mp hmem with rfl | hlater
    · exact mark_indexed key i
    · exact mark_collect_elements key (i + 1) elements e hlater
  | i, .array _ :: elements, e, hmem => by
    rw [collect_elements] at hmem
    rcases List.mem_cons.mp hmem with rfl | hlater
    · exact mark_indexed key i
    · exact mark_collect_elements key (i + 1) elements e hlater

end

/-! An entry is a value under the name of its path, or comes from an array. -/

mutual

theorem collect_node_cases (key : String) :
    ∀ (node : Node D), ∀ e ∈ collect_node lib key node, '[' ∈ e.1.toList ∨
      ∃ path v, (path, v) ∈ node.leaves ∧ e = (path.foldl nested key, canonical_scalar lib v)
  | .value v, _, hmem => .inr ⟨[], v, List.mem_singleton_self _, List.mem_singleton.mp hmem⟩
  | .array elements, _, hmem => .inl (mark_collect_elements key 0 elements _ hmem)
  | .table members, _, hmem => collect_keys_cases key members _ hmem

theorem collect_keys_cases (parent : String) :
    ∀ (members : List (String × Node D)), ∀ e ∈ collect_keys lib parent members, '[' ∈ e.1.toList ∨
      ∃ path v, (path, v) ∈ leaves members ∧ e = (path.foldl nested parent, canonical_scalar lib v)
  | [], _, hmem => nomatch hmem
  | (key, node) :: members, e, hmem => by
    rw [collect_keys] at hmem
    rw [leaves]
    rcases List.mem_append.mp hmem with hfirst | hlater
    · refine (collect_node_cases (nested parent key) node e hfirst).imp_right ?_
      rintro ⟨path, v, hleaf, rfl⟩
      exact ⟨key :: path, v, List.mem_append_left _ (List.mem_map.mpr ⟨_, hleaf, rfl⟩), rfl⟩
    · refine (collect_keys_cases parent members e hlater).imp_right ?_
      rintro ⟨path, v, hleaf, rfl⟩
      exact ⟨path, v, List.mem_append_right _ hleaf, rfl⟩

end

/-- Where all keys are known, every entry is a value at the end of a path. -/
theorem value_of_entry {doc : Document D} (hknown : ∀ e ∈ collect_keys lib "" doc.members, e.1 ∈ all_known_keys)
    {e : String × String} (hmem : e ∈ collect_keys lib "" doc.members) :
    ∃ path v, value_at path doc.members = some v ∧ e = (name path, canonical_scalar lib v) := by
  rcases collect_keys_cases "" doc.members e hmem with hmark | ⟨path, v, hleaf, rfl⟩
  · exact absurd hmark (key_paths _ (hknown e hmem)).1.1
  · exact ⟨path, v, value_at_of_mem_leaves doc.ordered hleaf, rfl⟩

/-! ### Reading a canonical form -/

/-- What the library documents of the texts of doubles: they tell doubles apart, also from
integers, and are of one line. -/
structure Toml.Prints (lib : Toml D) : Prop where
  injective : Function.Injective lib.print
  integer : ∀ d (i : Int64), lib.print d = toString i → d = lib.of_integer i
  one_line : ∀ d, '\n' ∉ (lib.print d).toList

/-- A document where each value is at the path of its key. -/
def Placed (doc : Document D) : Prop :=
  ∀ path v, value_at path doc.members = some v → path = parts (name path)

/-- A document where each value is of the type of its field and in its range. -/
def WellTyped (lib : Toml D) (doc : Document D) : Prop :=
  ∀ path v, value_at path doc.members = some v →
    ∀ initial, (name path, initial) ∈ (Config.initial lib).fields → initial.kind.Fits lib v

/-- A document where no text has more than one line. -/
def OneLined (doc : Document D) : Prop :=
  ∀ path s, value_at path doc.members = some (.string s) → '\n' ∉ s.toList

theorem mark_not_mem_toString_int {mark : Char} (hmark : mark.isDigit = false) (hminus : mark ≠ '-') (n : Int) :
    mark ∉ (toString n).toList := by
  rw [toString_int]
  split
  · rw [String.toList_append, List.mem_append, not_or]
    exact ⟨fun hmem => hminus (List.mem_singleton.mp hmem), not_mem_toString hmark _⟩
  · exact not_mem_toString hmark _

theorem initial_of_known (lib : Toml D) {key : String} (hkey : key ∈ all_known_keys) :
    ∃ initial, (key, initial) ∈ (Config.initial lib).fields := by
  obtain ⟨⟨_, initial⟩, hmem, rfl⟩ := List.mem_map.mp (fields_keys (Config.initial lib) ▸ hkey)
  exact ⟨initial, hmem⟩

/-- The text of a value that fits a field has one line, if the value has. -/
theorem one_line_of_fits (hprints : lib.Prints) {kind : Kind} {v : Scalar D} (hfits : kind.Fits lib v)
    (hline : ∀ s, v = .string s → '\n' ∉ s.toList) : '\n' ∉ (canonical_scalar lib v).toList := by
  have hinteger : ∀ i : Int64, '\n' ∉ (canonical_scalar lib (.integer i)).toList := fun i =>
    mark_not_mem_toString_int (by decide) (by decide) i.toInt
  cases kind with
  | text =>
    obtain ⟨s, rfl⟩ := hfits
    exact hline s rfl
  | flag =>
    obtain ⟨_ | _, rfl⟩ := hfits
    · simp [canonical_scalar]
    · simp [canonical_scalar]
  | seed =>
    obtain ⟨i, rfl, -⟩ := hfits
    exact hinteger i
  | count =>
    obtain ⟨i, rfl, -⟩ := hfits
    exact hinteger i
  | amount =>
    rcases hfits with ⟨d, rfl⟩ | ⟨i, rfl, -⟩
    · exact hprints.one_line d
    · exact hinteger i
  | level =>
    obtain ⟨s, l, rfl, -⟩ := hfits
    exact hline s rfl

/-- What makes two documents tell their settings apart by their canonical forms. -/
structure Tidy (lib : Toml D) (doc : Document D) : Prop where
  known : ∀ e ∈ collect_keys lib "" doc.members, e.1 ∈ all_known_keys
  placed : Placed doc
  typed : WellTyped lib doc
  lines : OneLined doc

/-- The sorted entries of a document can be read back from their lines. -/
theorem Tidy.forwardFree (hprints : lib.Prints) {doc : Document D} (h : Tidy lib doc) {es : List (String × String)}
    (hperm : es.Perm (collect_keys lib "" doc.members)) : ForwardFree '=' '\n' (es.map spelled) := by
  intro _ hmem
  obtain ⟨e, he, rfl⟩ := List.mem_map.mp hmem
  have hentry := hperm.mem_iff.mp he
  obtain ⟨path, v, hvalue, rfl⟩ := value_of_entry h.known hentry
  have hkey := h.known _ hentry
  obtain ⟨initial, hinitial⟩ := initial_of_known lib hkey
  refine ⟨(key_paths _ hkey).1.2, ?_⟩
  exact one_line_of_fits hprints (h.typed path v hvalue initial hinitial) fun s hs => h.lines path s (hs ▸ hvalue)

/-- Documents of one canonical form have the same entries. -/
theorem entries_of_canonical_form (hprints : lib.Prints) {doc doc' : Document D} (h : Tidy lib doc)
    (h' : Tidy lib doc') (heq : canonical_form (collect_keys lib "" doc.members) =
      canonical_form (collect_keys lib "" doc'.members)) :
    (collect_keys lib "" doc.members).Perm (collect_keys lib "" doc'.members) := by
  have hlists := congrArg String.toList heq
  have hline : ∀ e : String × String, (e.1 ++ "=" ++ e.2 ++ "\n").toList = entry '=' '\n' (spelled e) :=
    fun e => by simp [entry, spelled]
  rw [canonical_form, canonical_form, join_entries hline, join_entries hline] at hlists
  have hsorted := written_inj_forward (h.forwardFree hprints (List.perm_insertionSort _ _))
    (h'.forwardFree hprints (List.perm_insertionSort _ _)) hlists
  rw [spelled_injective.list_map.eq_iff] at hsorted
  have hperm := List.perm_insertionSort (fun e e' => entry_le e e') (collect_keys lib "" doc.members)
  rw [hsorted] at hperm
  exact hperm.symm.trans (List.perm_insertionSort _ _)

theorem Setting.amount_of_real {d x : D} (his : Setting.Is lib (.floating_point d) (.amount x)) : x = d := by
  rcases his with heq | ⟨i, heq, -⟩
  · exact (Scalar.floating_point.inj heq).symm
  · cases heq

theorem Setting.amount_of_integer {i : Int64} {x : D} (his : Setting.Is lib (.integer i) (.amount x)) :
    x = lib.of_integer i := by
  rcases his with heq | ⟨i', heq, hx, -⟩
  · cases heq
  · rw [hx, Scalar.integer.inj heq]

/-- Two values of one text that fit the same field say the same. -/
theorem Setting.read_eq_of_text (hlib : lib.Documented) (hprints : lib.Prints) {r r' : Reader D} (hr : r.lib = lib)
    (hr' : r'.lib = lib) {key : String} {initial : Setting D} {v v' : Scalar D} (hvalue : r.at_path key = some v)
    (hvalue' : r'.at_path key = some v') (hfits : initial.kind.Fits lib v) (hfits' : initial.kind.Fits lib v')
    (htext : canonical_scalar lib v = canonical_scalar lib v') : initial.read r key = initial.read r' key := by
  have his := Setting.read_is hlib hr hvalue hfits
  have his' := Setting.read_is hlib hr' hvalue' hfits'
  have hsame : ∀ w, v = w → v' = w → initial.read r key = initial.read r' key := by
    rintro w rfl rfl
    exact Setting.is_unique ((kind_read r key initial).trans (kind_read r' key initial).symm) his his'
  have hinteger : ∀ i i' : Int64, v = .integer i → v' = .integer i' → i = i' := by
    rintro i i' rfl rfl
    exact Int64.toInt_inj.mp (toString_int_inj htext)
  cases initial with
  | text fallback =>
    obtain ⟨s, rfl⟩ := hfits
    obtain ⟨s', rfl⟩ := hfits'
    exact hsame _ rfl (congrArg Scalar.string htext.symm)
  | flag fallback =>
    obtain ⟨b, rfl⟩ := hfits
    obtain ⟨b', rfl⟩ := hfits'
    refine hsame _ rfl (congrArg Scalar.boolean ?_)
    cases b <;> cases b' <;> simp [canonical_scalar] at htext ⊢
  | seed fallback =>
    obtain ⟨i, rfl, -⟩ := hfits
    obtain ⟨i', rfl, -⟩ := hfits'
    exact hsame _ rfl (congrArg Scalar.integer (hinteger i i' rfl rfl).symm)
  | count fallback =>
    obtain ⟨i, rfl, -⟩ := hfits
    obtain ⟨i', rfl, -⟩ := hfits'
    exact hsame _ rfl (congrArg Scalar.integer (hinteger i i' rfl rfl).symm)
  | amount fallback =>
    rcases hfits with ⟨d, rfl⟩ | ⟨i, rfl, -⟩
    · rcases hfits' with ⟨d', rfl⟩ | ⟨i', rfl, -⟩
      · exact hsame _ rfl (congrArg Scalar.floating_point (hprints.injective htext).symm)
      · have hcast := hprints.integer d i' htext
        rw [read, read, amount_of_real his, amount_of_integer his', hcast]
    · rcases hfits' with ⟨d', rfl⟩ | ⟨i', rfl, -⟩
      · have hcast := hprints.integer d' i htext.symm
        rw [read, read, amount_of_integer his, amount_of_real his', hcast]
      · exact hsame _ rfl (congrArg Scalar.integer (hinteger i i' rfl rfl).symm)
  | level fallback =>
    obtain ⟨s, l, rfl, -⟩ := hfits
    obtain ⟨s', l', rfl, -⟩ := hfits'
    exact hsame _ rfl (congrArg Scalar.string htext.symm)

/-- What one of two documents of one canonical form has at the path of a key, the other has
with the same text. -/
theorem value_at_of_entries {doc doc' : Document D} (h' : Tidy lib doc')
    (hperm : (collect_keys lib "" doc.members).Perm (collect_keys lib "" doc'.members)) {key : String}
    (hkey : key ∈ all_known_keys) {v : Scalar D} (hvalue : value_at (parts key) doc.members = some v) :
    ∃ v', value_at (parts key) doc'.members = some v' ∧ canonical_scalar lib v = canonical_scalar lib v' := by
  have hentry := hperm.mem_iff.mp (mem_collect_of_value_at hvalue)
  obtain ⟨path, v', hvalue', heq⟩ := value_of_entry h'.known hentry
  obtain ⟨hname, htext⟩ := Prod.mk.inj heq
  have hpath : path = parts key := by
    rw [h'.placed path v' hvalue', ← hname]
    exact congrArg parts (name_parts hkey)
  exact ⟨v', hpath ▸ hvalue', htext⟩

/-- Documents of one canonical form are read alike. -/
theorem read_eq_of_canonical_form (hlib : lib.Documented) (hprints : lib.Prints) {doc doc' : Document D}
    (h : Tidy lib doc) (h' : Tidy lib doc') (hform : canonical_form (collect_keys lib "" doc.members) =
      canonical_form (collect_keys lib "" doc'.members)) {key : String} {initial : Setting D}
    (hmem : (key, initial) ∈ (Config.initial lib).fields) :
    initial.read { lib, t := doc } key = initial.read { lib, t := doc' } key := by
  have hperm := entries_of_canonical_form hprints h h' hform
  have hkey := mem_keys_of_mem_fields hmem
  cases hvalue : value_at (parts key) doc.members with
  | some v =>
    obtain ⟨v', hvalue', htext⟩ := value_at_of_entries h' hperm hkey hvalue
    have hfits : ∀ {doc : Document D} {v}, Tidy lib doc → value_at (parts key) doc.members = some v →
        initial.kind.Fits lib v := by
      intro doc v h hvalue
      exact h.typed _ v hvalue initial ((name_parts hkey).symm ▸ hmem)
    exact Setting.read_eq_of_text hlib hprints rfl rfl hvalue hvalue' (hfits h hvalue) (hfits h' hvalue') htext
  | none =>
    cases hvalue' : value_at (parts key) doc'.members with
    | some v' =>
      obtain ⟨v, hfound, -⟩ := value_at_of_entries h hperm.symm hkey hvalue'
      rw [hvalue] at hfound
      cases hfound
    | none =>
      have hnone : ({ lib, t := doc } : Reader D).at_path key = none := hvalue
      have hnone' : ({ lib, t := doc' } : Reader D).at_path key = none := hvalue'
      rw [Setting.read_none hnone, Setting.read_none hnone']

/-- The fields say what the configuration is, apart from where it comes from. -/
theorem Config.eq_of_fields {cfg cfg' : Config D} (hfields : cfg.fields = cfg'.fields) (h : Checked cfg)
    (h' : Checked cfg') (hcanonical : cfg.canonical = cfg'.canonical) :
    cfg = { cfg' with source_path := cfg.source_path } := by
  obtain ⟨hopen, hclose, hboundary⟩ := h
  obtain ⟨hopen', hclose', hboundary'⟩ := h'
  obtain ⟨⟨_, _, _, _⟩, ⟨_, _, _, _⟩, ⟨_, _, _, _, _, _⟩, ⟨_, _, _, _, _, _⟩, ⟨_, _, _, _, _, _⟩, ⟨_, _⟩,
    ⟨_, _, _, _, _, _, _⟩, ⟨_, _, _, _, _⟩, ⟨_, _, _, _⟩, _, _⟩ := cfg
  obtain ⟨⟨_, _, _, _⟩, ⟨_, _, _, _⟩, ⟨_, _, _, _, _, _⟩, ⟨_, _, _, _, _, _⟩, ⟨_, _, _, _, _, _⟩, ⟨_, _⟩,
    ⟨_, _, _, _, _, _, _⟩, ⟨_, _, _, _, _⟩, ⟨_, _, _, _⟩, _, _⟩ := cfg'
  simp only [Config.fields, DataTier.fields, List.cons_append, List.nil_append, List.cons.injEq, Prod.mk.injEq,
    Setting.text.injEq, Setting.flag.injEq, Setting.seed.injEq, Setting.count.injEq, Setting.amount.injEq,
    Setting.level.injEq, true_and, and_true] at hfields hopen hclose hboundary hopen' hclose' hboundary' hcanonical
  obtain ⟨rfl, rfl, rfl, rfl, rfl, rfl, rfl, rfl, rfl, rfl, rfl, rfl, rfl, rfl, rfl, rfl, rfl, rfl, rfl, rfl, rfl,
    rfl, rfl, rfl, rfl, rfl, rfl, rfl, rfl, rfl, rfl, rfl, rfl, rfl, rfl, rfl, rfl, rfl, rfl, rfl, rfl⟩ := hfields
  obtain rfl := hcanonical
  obtain rfl := Option.some.inj (hopen.symm.trans hopen')
  obtain rfl := Option.some.inj (hclose.symm.trans hclose')
  obtain rfl := Option.some.inj (hboundary.symm.trans hboundary')
  rfl

/-! ### Equal canonical forms -/

/-- What the loader is given. -/
structure Source where
  toml_text : String := ""
  overrides : List String := []
  origin : String := ""

def Source.load (lib : Toml D) (src : Source) : Result (Config D) :=
  load_from_string lib src.toml_text src.overrides src.origin

/-- The document with its overrides applied, where there is one. -/
def Source.merged (lib : Toml D) (src : Source) : Option (Document D) :=
  (lib.parse src.toml_text).toOption.bind fun doc => (apply_overrides lib doc src.overrides).toOption

/-- What documents may do that makes them hard to tell apart. -/
structure Habits where
  /-- Values away from the path of their key. -/
  misplaced : Prop
  /-- Values of another type than their field, or out of its range. -/
  mistyped : Prop
  /-- Texts of several lines. -/
  broken : Prop

structure Habits.Allow (h : Habits) (lib : Toml D) (doc : Document D) : Prop where
  placed : h.misplaced ∨ Placed doc
  typed : h.mistyped ∨ WellTyped lib doc
  lines : h.broken ∨ OneLined doc

/-- Whatever the library, documents that load with one canonical form load with one
configuration, but for where they come from. -/
def Distinguishes (h : Habits) : Prop :=
  ∀ (D : Type) (lib : Toml D), lib.Documented → lib.Prints → ∀ (src src' : Source) (doc doc' : Document D)
    (cfg cfg' : Config D), src.merged lib = some doc → src'.merged lib = some doc' → h.Allow lib doc →
    h.Allow lib doc' → src.load lib = .ok cfg → src'.load lib = .ok cfg' → cfg.canonical = cfg'.canonical →
    cfg = { cfg' with source_path := cfg.source_path }

theorem finish_of_load {src : Source} {doc : Document D} {cfg : Config D} (hmerged : src.merged lib = some doc)
    (hload : src.load lib = .ok cfg) : finish lib doc src.origin = .ok cfg := by
  rw [Source.load, load_from_string] at hload
  rw [Source.merged] at hmerged
  split at hload
  · cases hload
  · rename_i root hparse
    rw [hparse] at hmerged
    obtain hmerged : (apply_overrides lib root src.overrides).toOption = some doc := hmerged
    rw [Result.toOption_eq_some.mp hmerged] at hload
    exact hload

/-- Where no value is misplaced, mistyped or broken over lines, the canonical form determines
the configuration. -/
theorem distinguishes_of_tidy {h : Habits} (hplaced : ¬ h.misplaced) (htyped : ¬ h.mistyped) (hlines : ¬ h.broken) :
    Distinguishes h := by
  intro D lib hlib hprints src src' doc doc' cfg cfg' hmerged hmerged' hallow hallow' hload hload' hcanonical
  obtain ⟨hknown, hfields, hchecked, hform⟩ := finish_ok (finish_of_load hmerged hload)
  obtain ⟨hknown', hfields', hchecked', hform'⟩ := finish_ok (finish_of_load hmerged' hload')
  have htidy : Tidy lib doc := ⟨hknown, hallow.placed.resolve_left hplaced, hallow.typed.resolve_left htyped,
    hallow.lines.resolve_left hlines⟩
  have htidy' : Tidy lib doc' := ⟨hknown', hallow'.placed.resolve_left hplaced, hallow'.typed.resolve_left htyped,
    hallow'.lines.resolve_left hlines⟩
  rw [hform, hform'] at hcanonical
  refine Config.eq_of_fields ?_ hchecked hchecked' (hform.trans (hcanonical.trans hform'.symm))
  rw [hfields, hfields']
  refine List.map_congr_left fun e he => Prod.ext rfl ?_
  exact read_eq_of_canonical_form hlib hprints htidy htidy' hcanonical he

/-! ### Documents that look alike -/

/-- A document with these values. -/
def written_out (values : List (List String × Scalar Int)) : Document Int :=
  values.foldl (fun doc e => (doc.put e.1 e.2).getD doc) .empty

/-- The documents of a few texts. -/
def sample (text : String) : Except SyntaxError (Document Int) :=
  if text = "" then .ok .empty
  else if text = "run.seed = \"5\"" then .ok (written_out [(["run", "seed"], .string "5")])
  else if text = "run.results_dir = \"a\\nrun.tag=b\"" then
    .ok (written_out [(["run", "results_dir"], .string "a\nrun.tag=b")])
  else if text = "run.results_dir = \"a\"\nrun.tag = \"b\"" then
    .ok (written_out [(["run", "results_dir"], .string "a"), (["run", "tag"], .string "b")])
  else .error { description := "unexpected character", line := 1 }

def sampled : Toml Int := whole_toml sample

theorem whole_toml_prints (parse : String → Except SyntaxError (Document Int)) : (whole_toml parse).Prints where
  injective _ _ heq := toString_int_inj heq
  integer _ _ heq := toString_int_inj heq
  one_line d := mark_not_mem_toString_int (by decide) (by decide) d

/-- A seed. -/
def counted : Source := { overrides := ["run.seed=5"] }

/-- A seed under a table without a name, which the check of the keys takes for the same key. -/
def astray : Source := { overrides := [".run.seed=5"] }

/-- A seed that is a text. -/
def quoted : Source := { toml_text := "run.seed = \"5\"" }

def broken : Source := { toml_text := "run.results_dir = \"a\\nrun.tag=b\"" }

def lined : Source := { toml_text := "run.results_dir = \"a\"\nrun.tag = \"b\"" }

theorem sampled_loads :
    counted.load sampled = .ok (otherwise_initial { seed := 5 } "run.seed=5\n") ∧
      astray.load sampled = .ok (otherwise_initial {} "run.seed=5\n") ∧
      quoted.load sampled = .ok (otherwise_initial {} "run.seed=5\n") ∧
      broken.load sampled =
        .ok (otherwise_initial { results_dir := "a\nrun.tag=b" } "run.results_dir=a\nrun.tag=b\n") ∧
      lined.load sampled =
        .ok (otherwise_initial { results_dir := "a", tag := "b" } "run.results_dir=a\nrun.tag=b\n") := by
  have hloads : (counted.load sampled).toOption = some (otherwise_initial { seed := 5 } "run.seed=5\n") ∧
      (astray.load sampled).toOption = some (otherwise_initial {} "run.seed=5\n") ∧
      (quoted.load sampled).toOption = some (otherwise_initial {} "run.seed=5\n") ∧
      (broken.load sampled).toOption =
        some (otherwise_initial { results_dir := "a\nrun.tag=b" } "run.results_dir=a\nrun.tag=b\n") ∧
      (lined.load sampled).toOption =
        some (otherwise_initial { results_dir := "a", tag := "b" } "run.results_dir=a\nrun.tag=b\n") := by
    decide +kernel
  obtain ⟨hcounted, hastray, hquoted, hbroken, hlined⟩ := hloads
  exact ⟨Result.toOption_eq_some.mp hcounted, Result.toOption_eq_some.mp hastray, Result.toOption_eq_some.mp hquoted,
    Result.toOption_eq_some.mp hbroken, Result.toOption_eq_some.mp hlined⟩

/-- The values of a document with its overrides. -/
def Source.values (src : Source) : Option (List (List String × Scalar Int)) :=
  (src.merged sampled).map fun doc => leaves doc.members

theorem sampled_values :
    counted.values = some [(["run", "seed"], .integer 5)] ∧
      astray.values = some [(["", "run", "seed"], .integer 5)] ∧
      quoted.values = some [(["run", "seed"], .string "5")] ∧
      broken.values = some [(["run", "results_dir"], .string "a\nrun.tag=b")] ∧
      lined.values = some [(["run", "results_dir"], .string "a"), (["run", "tag"], .string "b")] :=
  ⟨by decide +kernel, by decide +kernel, by decide +kernel, by decide +kernel, by decide +kernel⟩

/-- Two configurations of one canonical form that documents with certain habits have, and
that differ. -/
theorem not_distinguishes {h : Habits} {src src' : Source} {values values' : List (List String × Scalar Int)}
    (hvalues : src.values = some values) (hvalues' : src'.values = some values')
    (hallow : ∀ doc : Document Int, leaves doc.members = values ∨ leaves doc.members = values' → h.Allow sampled doc)
    {run run' : RunSection} {canonical : String} (hload : src.load sampled = .ok (otherwise_initial run canonical))
    (hload' : src'.load sampled = .ok (otherwise_initial run' canonical)) (hne : run ≠ run') :
    ¬ Distinguishes h := by
  intro hdistinguishes
  obtain ⟨doc, hmerged, hleaves⟩ := Option.map_eq_some_iff.mp hvalues
  obtain ⟨doc', hmerged', hleaves'⟩ := Option.map_eq_some_iff.mp hvalues'
  have hsame := hdistinguishes Int sampled (whole_toml_documented _) (whole_toml_prints _) src src' doc doc' _ _ hmerged
    hmerged' (hallow doc (.inl hleaves)) (hallow doc' (.inr hleaves')) hload hload' rfl
  exact hne (congrArg Config.run hsame)

theorem placed_of_leaves {doc : Document Int} (h : ∀ e ∈ leaves doc.members, e.1 = parts (name e.1)) : Placed doc :=
  fun _ _ hvalue => h _ (mem_leaves_of_value_at hvalue)

theorem oneLined_of_leaves {doc : Document Int}
    (h : ∀ e ∈ leaves doc.members, ∀ s, e.2 = .string s → '\n' ∉ s.toList) : OneLined doc :=
  fun _ s hvalue => h _ (mem_leaves_of_value_at hvalue) s rfl

theorem wellTyped_of_leaves {doc : Document Int} (h : ∀ e ∈ leaves doc.members,
    ∃ initial, (name e.1, initial) ∈ (Config.initial sampled).fields ∧ initial.kind.Fits sampled e.2) :
    WellTyped sampled doc := by
  intro path v hvalue initial hmem
  obtain ⟨initial', hmem', hfits⟩ := h _ (mem_leaves_of_value_at hvalue)
  exact setting_unique hmem' hmem ▸ hfits

theorem seed_mem : ("run.seed", Setting.seed 20240101) ∈ (Config.initial sampled).fields := List.mem_cons_self

theorem results_dir_mem : ("run.results_dir", Setting.text "results") ∈ (Config.initial sampled).fields :=
  .tail _ List.mem_cons_self

theorem tag_mem : ("run.tag", Setting.text "") ∈ (Config.initial sampled).fields := .tail _ (.tail _ List.mem_cons_self)

/-- An integer under the name of the seed fits, wherever it stands. -/
theorem wellTyped_of_seed {doc : Document Int} {path : List String} (hname : name path = "run.seed")
    (hleaves : leaves doc.members = [(path, .integer 5)]) : WellTyped sampled doc := by
  have hmem : (name path, Setting.seed 20240101) ∈ (Config.initial sampled).fields := hname ▸ seed_mem
  refine wellTyped_of_leaves ?_
  rw [hleaves, List.forall_mem_singleton]
  exact ⟨_, hmem, 5, rfl, by decide⟩

theorem not_distinguishes_of_misplaced {h : Habits} (hmisplaced : h.misplaced) : ¬ Distinguishes h := by
  refine not_distinguishes sampled_values.1 sampled_values.2.1 ?_ sampled_loads.1 sampled_loads.2.1 (by decide)
  have hlines : ∀ {doc : Document Int} {path}, leaves doc.members = [(path, .integer 5)] → OneLined doc := by
    intro doc path hleaves
    refine oneLined_of_leaves fun e he s hs => ?_
    rw [hleaves] at he
    cases List.mem_singleton.mp he
    cases hs
  rintro doc (hleaves | hleaves)
  · exact ⟨.inl hmisplaced, .inr (wellTyped_of_seed (by decide +kernel) hleaves), .inr (hlines hleaves)⟩
  · exact ⟨.inl hmisplaced, .inr (wellTyped_of_seed (by decide +kernel) hleaves), .inr (hlines hleaves)⟩

theorem not_distinguishes_of_mistyped {h : Habits} (hmistyped : h.mistyped) : ¬ Distinguishes h := by
  refine not_distinguishes sampled_values.1 sampled_values.2.2.1 ?_ sampled_loads.1 sampled_loads.2.2.1 (by decide)
  have hplaced : ["run", "seed"] = parts (name ["run", "seed"]) := by decide +kernel
  rintro doc (hleaves | hleaves)
  · refine ⟨.inr (placed_of_leaves ?_), .inl hmistyped, .inr (oneLined_of_leaves ?_)⟩
    · simpa [hleaves] using hplaced
    · simp [hleaves]
  · refine ⟨.inr (placed_of_leaves ?_), .inl hmistyped, .inr (oneLined_of_leaves ?_)⟩
    · simpa [hleaves] using hplaced
    · rw [hleaves]
      simp

theorem not_distinguishes_of_broken {h : Habits} (hbroken : h.broken) : ¬ Distinguishes h := by
  refine not_distinguishes sampled_values.2.2.2.1 sampled_values.2.2.2.2 ?_ sampled_loads.2.2.2.1 sampled_loads.2.2.2.2
    (by decide +kernel)
  have hdir : ["run", "results_dir"] = parts (name ["run", "results_dir"]) := by decide +kernel
  have htag : ["run", "tag"] = parts (name ["run", "tag"]) := by decide +kernel
  have hdirname : name ["run", "results_dir"] = "run.results_dir" := by decide +kernel
  have htagname : name ["run", "tag"] = "run.tag" := by decide +kernel
  have hdirmem : (name ["run", "results_dir"], Setting.text "results") ∈ (Config.initial sampled).fields :=
    hdirname ▸ results_dir_mem
  have htagmem : (name ["run", "tag"], Setting.text "") ∈ (Config.initial sampled).fields := htagname ▸ tag_mem
  rintro doc (hleaves | hleaves)
  · refine ⟨.inr (placed_of_leaves ?_), .inr (wellTyped_of_leaves ?_), .inl hbroken⟩
    · simpa [hleaves] using hdir
    · rw [hleaves, List.forall_mem_singleton]
      exact ⟨_, hdirmem, _, rfl⟩
  · refine ⟨.inr (placed_of_leaves ?_), .inr (wellTyped_of_leaves ?_), .inl hbroken⟩
    · rw [hleaves, List.forall_mem_cons, List.forall_mem_singleton]
      exact ⟨hdir, htag⟩
    · rw [hleaves, List.forall_mem_cons, List.forall_mem_singleton]
      exact ⟨⟨_, hdirmem, _, rfl⟩, _, htagmem, _, rfl⟩

/-- Configurations of one canonical form are one exactly among documents that keep each value
at the path of its key, of its type and range, and on one line. -/
theorem distinguishes_iff (h : Habits) : Distinguishes h ↔ ¬ h.misplaced ∧ ¬ h.mistyped ∧ ¬ h.broken := by
  constructor
  · intro hdistinguishes
    exact ⟨fun hmisplaced => not_distinguishes_of_misplaced hmisplaced hdistinguishes,
      fun hmistyped => not_distinguishes_of_mistyped hmistyped hdistinguishes,
      fun hbroken => not_distinguishes_of_broken hbroken hdistinguishes⟩
  · rintro ⟨hplaced, htyped, hlines⟩
    exact distinguishes_of_tidy hplaced htyped hlines

/-- A seed and a text of the same digit: one canonical form, two configurations. -/
theorem canonical_conflates :
    (∃ cfg cfg', counted.load sampled = .ok cfg ∧ quoted.load sampled = .ok cfg' ∧ cfg.canonical = cfg'.canonical ∧
      cfg.run.seed = 5 ∧ cfg'.run.seed = 20240101) ∧ ¬ Distinguishes ⟨True, True, True⟩ :=
  ⟨⟨_, _, sampled_loads.1, sampled_loads.2.2.1, rfl, rfl, rfl⟩, not_distinguishes_of_mistyped trivial⟩

end ptl.config
