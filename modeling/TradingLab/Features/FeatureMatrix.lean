import TradingLab.Core.Pod
import TradingLab.Core.Types

open Codec

/-! ### The matrix as it is stored

Doubles are their sixty-four bits here, and texts their bytes: the file keeps both
as they are. -/

namespace ptl.features.stored

structure FeatureRow where
  feature_end_time : Int64 := Int64.minValue
  instrument : InstrumentId := kInvalidInstrument
  data_version : UInt64 := 0
  feature_set_id : UInt64 := 0
  ready_mask : UInt64 := 0
  values : List UInt64
  deriving DecidableEq, Repr

structure RowKey where
  feature_end_time : Int64 := Int64.minValue
  instrument : InstrumentId := kInvalidInstrument
  ready_mask : UInt64 := 0
  deriving DecidableEq, Repr

/-- A column for each name, with a value for each key. -/
@[ext] structure FeatureMatrix where
  names : List (List UInt8)
  keys : List RowKey
  columns : List (List UInt64)
  data_version : UInt64
  feature_set_id : UInt64
  width : columns.length = names.length
  shape : ∀ column ∈ columns, column.length = keys.length

namespace FeatureMatrix

def new (names : List (List UInt8)) (data_version feature_set_id : UInt64) : FeatureMatrix where
  names := names
  keys := []
  columns := List.replicate names.length []
  data_version := data_version
  feature_set_id := feature_set_id
  width := List.length_replicate
  shape column hmem := by
    rw [List.eq_of_mem_replicate hmem]
    rfl

/-- A row at the end of every column. -/
def extended (m : FeatureMatrix) (row : FeatureRow) (hwidth : row.values.length = m.names.length) :
    FeatureMatrix where
  names := m.names
  keys := m.keys ++ [{
    feature_end_time := row.feature_end_time, instrument := row.instrument, ready_mask := row.ready_mask }]
  columns := List.zipWith (fun column value => column ++ [value]) m.columns row.values
  data_version := m.data_version
  feature_set_id := m.feature_set_id
  width := by
    rw [List.length_zipWith, m.width, hwidth, min_self]
  shape column hmem := by
    obtain ⟨j, hj, rfl⟩ := List.getElem_of_mem hmem
    rw [List.getElem_zipWith, List.length_append, List.length_append, m.shape _ (List.getElem_mem _)]
    rfl

/-- A refused row changes nothing. -/
def append (m : FeatureMatrix) (row : FeatureRow) : Result FeatureMatrix :=
  if hwidth : row.values.length ≠ m.names.length then
    .error (bad ("feature row width " ++ toString row.values.length ++ " does not match matrix width " ++
      toString m.names.length))
  else if row.feature_set_id ≠ m.feature_set_id then
    .error (bad "feature row was produced by a different feature-set definition")
  else if row.data_version ≠ m.data_version then
    .error (bad "feature row derives from a different dataset version")
  else if ¬ is_set row.feature_end_time.toInt then .error (bad "feature row has no feature_end_time")
  else if m.keys.getLast?.any fun last => row.feature_end_time < last.feature_end_time then
    .error (bad "feature rows must be appended in non-decreasing time order")
  else .ok (m.extended row (not_not.mp hwidth))

/-! ### The file -/

def kMagic : Nat := 0x50544C46
def kFormatVersion : Nat := 1

def write_key (key : RowKey) : List UInt8 :=
  sizeof64 key.feature_end_time.toUInt64 ++ (sizeof32 key.instrument ++ sizeof64 key.ready_mask)

/-- The length takes four bytes, and as much of the name follows. -/
def write_name (name : List UInt8) : List UInt8 :=
  let len := name.length % 2 ^ 32
  memory 4 len ++ name.take len

/-- Over the bits of the values. -/
def content_hash (m : FeatureMatrix) : UInt64 :=
  let h := hash_bytes (hash_bytes kFnvOffset (sizeof64 m.data_version)) (sizeof64 m.feature_set_id)
  let h := m.names.foldl hash_bytes h
  let h := m.keys.foldl (fun h key =>
    hash_bytes (hash_bytes (hash_bytes h (sizeof64 key.feature_end_time.toUInt64)) (sizeof32 key.instrument))
      (sizeof64 key.ready_mask)) h
  m.columns.foldl (fun h column => column.foldl (fun h value => hash_bytes h (sizeof64 value)) h) h

/-- The bytes that are written. -/
def save (m : FeatureMatrix) : List UInt8 :=
  memory 4 kMagic ++ (memory 4 kFormatVersion ++ (sizeof64 m.data_version ++ (sizeof64 m.feature_set_id ++
    (sizeof64 m.content_hash ++ (memory 8 m.names.length ++ (memory 8 m.keys.length ++
      (m.names.flatMap write_name ++ (m.keys.flatMap write_key ++
        m.columns.flatMap fun column => column.flatMap sizeof64))))))))

/-! ### Reading it -/

section Reading

variable (path : String)

def read_name : Reader UInt8 Error (List UInt8) :=
  let truncated := bad "truncated name table" path
  andThen (read_pod truncated 4) fun len => mapped Subtype.val (block truncated len)

def read_key : Reader UInt8 Error RowKey :=
  let truncated := bad "truncated row keys" path
  andThen (read64 truncated) fun ns => andThen (read32 truncated) fun inst =>
    mapped (fun mask => { feature_end_time := ns.toInt64, instrument := inst, ready_mask := mask }) (read64 truncated)

/-- A matrix from its parts, if their hash is the one that was stored. -/
def verified (m : FeatureMatrix) (stored_hash : UInt64) : Reader UInt8 Error FeatureMatrix := fun is =>
  if m.content_hash ≠ stored_hash then
    .error (bad ("feature matrix content hash mismatch: the file is corrupt or was " ++
      "written by a different build") path)
  else .ok (m, is)

def read_matrix : Reader UInt8 Error FeatureMatrix :=
  let header := bad "truncated feature matrix header" path
  let unsupported (version : Nat) := bad ("unsupported feature matrix format version " ++ toString version) path
  andThen (expect_pod (fun _ => bad "not a feature matrix file" path) 4 kMagic) fun _ =>
  andThen (expect_pod unsupported 4 kFormatVersion) fun _ =>
  andThen (read64 header) fun data_version =>
  andThen (read64 header) fun feature_set_id =>
  andThen (read64 header) fun stored_hash =>
  andThen (read_pod header 8) fun ncols =>
  andThen (read_pod header 8) fun nrows =>
  andThen (many (read_name path) ncols) fun names =>
  andThen (many (read_key path) nrows) fun keys =>
  andThen (many (many (read64 (bad "truncated value block" path)) nrows) ncols) fun columns =>
  verified path {
    names := names.1
    keys := keys.1
    columns := columns.1.map Subtype.val
    data_version := data_version
    feature_set_id := feature_set_id
    width := by rw [List.length_map, columns.2, names.2]
    shape := by
      intro column hmem
      obtain ⟨c, -, rfl⟩ := List.mem_map.mp hmem
      rw [c.2, keys.2] } stored_hash

/-- What follows the last value is not looked at. -/
def load (file : Option (List UInt8)) : Result FeatureMatrix :=
  match file with
  | none => .error (make_error .NotFound "cannot open matrix" path)
  | some is => (read_matrix path is).map Prod.fst

end Reading

/-! ### The format -/

/-- What the counts and lengths of a file can say. -/
structure Storable (m : FeatureMatrix) : Prop where
  cols : m.names.length < 2 ^ 64
  rows : m.keys.length < 2 ^ 64
  names : ∀ name ∈ m.names, name.length < 2 ^ 32

theorem read_key_parses (path : String) : Parses (read_key path) write_key fun _ => True where
  sound hread := by
    unfold read_key at hread
    obtain ⟨ns, rest₁, hns, hread⟩ := andThen_ok_iff.mp hread
    obtain ⟨inst, rest₂, hinst, hread⟩ := andThen_ok_iff.mp hread
    obtain ⟨mask, hmask, rfl⟩ := mapped_ok_iff.mp hread
    refine ⟨?_, trivial⟩
    rw [((read64_parses _).sound hns).1, ((read32_parses _).sound hinst).1, ((read64_parses _).sound hmask).1,
      write_key, List.append_assoc, List.append_assoc]
    rfl
  complete {key} rest _ := by
    rw [write_key, List.append_assoc, List.append_assoc]
    unfold read_key
    refine andThen_ok_iff.mpr ⟨_, _, (read64_parses _).complete _ trivial, ?_⟩
    refine andThen_ok_iff.mpr ⟨_, _, (read32_parses _).complete _ trivial, ?_⟩
    exact mapped_ok_iff.mpr ⟨_, (read64_parses _).complete rest trivial, rfl⟩

theorem write_name_eq {name : List UInt8} (hfits : name.length < 2 ^ 32) :
    write_name name = memory 4 name.length ++ name := by
  rw [write_name, Nat.mod_eq_of_lt hfits, List.take_length]

theorem read_name_parses (path : String) : Parses (read_name path) write_name fun name => name.length < 2 ^ 32 where
  sound hread := by
    unfold read_name at hread
    obtain ⟨len, rest₁, hlen, hread⟩ := andThen_ok_iff.mp hread
    obtain ⟨⟨name, hlength⟩, hname, rfl⟩ := mapped_ok_iff.mp hread
    obtain ⟨hinput, hfits⟩ := (read_pod_parses _ 4).sound hlen
    obtain ⟨hrest, -⟩ := (block_parses _ len).sound hname
    subst hlength
    refine ⟨?_, hfits⟩
    rw [write_name_eq hfits, hinput, hrest, List.append_assoc]
  complete {name} rest hfits := by
    rw [write_name_eq hfits, List.append_assoc]
    unfold read_name
    refine andThen_ok_iff.mpr ⟨_, _, (read_pod_parses _ 4).complete _ hfits, ?_⟩
    exact mapped_ok_iff.mpr ⟨⟨name, rfl⟩, (block_parses _ _).complete (a := ⟨name, rfl⟩) rest trivial, rfl⟩

theorem exists_columns (m : FeatureMatrix) :
    ∃ columns : { l : List { c : List UInt64 // c.length = m.keys.length } //
        l.length = m.names.length },
      columns.1.map Subtype.val = m.columns := by
  refine ⟨⟨m.columns.attach.map fun c => ⟨c.1, m.shape c.1 c.2⟩, ?_⟩, ?_⟩
  · rw [List.length_map, List.length_attach, m.width]
  · rw [List.map_map]
    exact List.attach_map_subtype_val _

/-- Reading takes exactly what saving writes. -/
theorem read_matrix_parses (path : String) : Parses (read_matrix path) save Storable where
  sound hread := by
    unfold read_matrix at hread
    obtain ⟨⟨⟩, is₁, hmagic, hread⟩ := andThen_ok_iff.mp hread
    obtain ⟨⟨⟩, is₂, hversion, hread⟩ := andThen_ok_iff.mp hread
    obtain ⟨data_version, is₃, hdata, hread⟩ := andThen_ok_iff.mp hread
    obtain ⟨feature_set_id, is₄, hset, hread⟩ := andThen_ok_iff.mp hread
    obtain ⟨stored_hash, is₅, hhash, hread⟩ := andThen_ok_iff.mp hread
    obtain ⟨ncols, is₆, hcols, hread⟩ := andThen_ok_iff.mp hread
    obtain ⟨nrows, is₇, hrows, hread⟩ := andThen_ok_iff.mp hread
    obtain ⟨⟨names, hnames⟩, is₈, hreadNames, hread⟩ := andThen_ok_iff.mp hread
    obtain ⟨⟨keys, hkeys⟩, is₉, hreadKeys, hread⟩ := andThen_ok_iff.mp hread
    obtain ⟨columns, is₁₀, hreadColumns, hread⟩ := andThen_ok_iff.mp hread
    unfold verified at hread
    split at hread
    · exact nomatch hread
    rename_i hsame
    obtain ⟨rfl, rfl⟩ := Prod.mk.inj (Except.ok.inj hread)
    obtain ⟨hcount, hfits⟩ := (read_pod_parses _ 8).sound hcols
    obtain ⟨hcount', hfits'⟩ := (read_pod_parses _ 8).sound hrows
    obtain ⟨hnamed, hshort⟩ := ((read_name_parses path).many ncols).sound hreadNames
    obtain ⟨hkeyed, -⟩ := ((read_key_parses path).many nrows).sound hreadKeys
    obtain ⟨hvalues, -⟩ := (((read64_parses _).many nrows).many ncols).sound hreadColumns
    subst hnames hkeys
    refine ⟨?_, ⟨hfits, hfits', hshort⟩⟩
    rw [((expect_pod_parses _ (by decide)).sound hmagic).1, ((expect_pod_parses _ (by decide)).sound hversion).1,
      ((read64_parses _).sound hdata).1, ((read64_parses _).sound hset).1, ((read64_parses _).sound hhash).1, hcount,
      hcount', hnamed, hkeyed, hvalues, save, not_not.mp hsame]
    simp only [List.append_assoc, List.flatMap_map]
  complete {m} rest hfits := by
    obtain ⟨columns, hcolumns⟩ := m.exists_columns
    have hvalues : (m.columns.flatMap fun column => column.flatMap sizeof64) =
        columns.1.flatMap fun column => column.1.flatMap sizeof64 := by
      rw [← hcolumns, List.flatMap_map]
    rw [save, hvalues]
    simp only [List.append_assoc]
    unfold read_matrix
    refine andThen_ok_iff.mpr ⟨(), _, (expect_pod_parses _ (by decide)).complete (a := ()) _ trivial, ?_⟩
    refine andThen_ok_iff.mpr ⟨(), _, (expect_pod_parses _ (by decide)).complete (a := ()) _ trivial, ?_⟩
    refine andThen_ok_iff.mpr ⟨_, _, (read64_parses _).complete _ trivial, ?_⟩
    refine andThen_ok_iff.mpr ⟨_, _, (read64_parses _).complete _ trivial, ?_⟩
    refine andThen_ok_iff.mpr ⟨_, _, (read64_parses _).complete _ trivial, ?_⟩
    refine andThen_ok_iff.mpr ⟨_, _, (read_pod_parses _ 8).complete _ hfits.cols, ?_⟩
    refine andThen_ok_iff.mpr ⟨_, _, (read_pod_parses _ 8).complete _ hfits.rows, ?_⟩
    refine andThen_ok_iff.mpr ⟨⟨m.names, rfl⟩, _,
      ((read_name_parses path).many _).complete (a := ⟨m.names, rfl⟩) _ hfits.names, ?_⟩
    refine andThen_ok_iff.mpr ⟨⟨m.keys, rfl⟩, _,
      ((read_key_parses path).many _).complete (a := ⟨m.keys, rfl⟩) _ fun _ _ => trivial, ?_⟩
    refine andThen_ok_iff.mpr ⟨columns, rest,
      (((read64_parses _).many _).many _).complete rest fun _ _ _ _ => trivial, ?_⟩
    have hsame : ∀ width shape, FeatureMatrix.mk m.names m.keys (columns.1.map Subtype.val) m.data_version
        m.feature_set_id width shape = m := fun _ _ => FeatureMatrix.ext rfl rfl hcolumns rfl rfl
    rw [hsame]
    exact if_neg (not_not.mpr rfl)

theorem load_ok_iff {path : String} {file : List UInt8} {m : FeatureMatrix} :
    load path (some file) = .ok m ↔ ∃ rest, read_matrix path file = .ok (m, rest) := by
  rw [load]
  cases hread : read_matrix path file with
  | error e => exact iff_of_false (nomatch ·) fun ⟨_, hok⟩ => nomatch hok
  | ok r =>
    constructor
    · intro hok
      obtain rfl := Except.ok.inj hok
      exact ⟨r.2, rfl⟩
    · rintro ⟨rest, hok⟩
      rw [Except.ok.inj hok]
      rfl

/-- The file format: what is saved is loaded, nothing that is cut short is, and
whatever is loaded starts with what saving it writes. -/
theorem file_format (path : String) :
    (∀ m : FeatureMatrix, m.Storable → load path (some m.save) = .ok m ∧
      ∀ cut, cut <+: m.save → cut ≠ m.save → ∃ e, load path (some cut) = .error e) ∧
    ∀ (file : List UInt8) (m : FeatureMatrix), load path (some file) = .ok m → m.save <+: file := by
  have hparses := read_matrix_parses path
  refine ⟨fun m hfits => ⟨?_, fun cut hstart hshort => ?_⟩, fun file m hload => ?_⟩
  · have hwhole := hparses.complete [] hfits
    rw [List.append_nil] at hwhole
    exact load_ok_iff.mpr ⟨[], hwhole⟩
  · cases hload : load path (some cut) with
    | error e => exact ⟨e, rfl⟩
    | ok b =>
      obtain ⟨rest, hread⟩ := load_ok_iff.mp hload
      exact absurd hread (hparses.not_ok_of_cut hfits hstart hshort b rest)
  · obtain ⟨rest, hread⟩ := load_ok_iff.mp hload
    obtain ⟨hfile, -⟩ := hparses.sound hread
    exact ⟨rest, hfile.symm⟩

/-- A name without characters, and a value that is not a number. -/
def one_row : FeatureMatrix :=
  (new [[], [0x61]] 7 9).extended { feature_end_time := 1, values := [0x7ff8000000000001, 0] } rfl

theorem file_format_one_row :
    (load "features.fmx" (some one_row.save) = .ok one_row ∧
      ∀ cut, cut <+: one_row.save → cut ≠ one_row.save → ∃ e, load "features.fmx" (some cut) = .error e) ∧
    one_row.save <+: one_row.save ++ [0] := by
  have hformat := file_format "features.fmx"
  have hfits : one_row.Storable := ⟨by decide, by decide, by decide⟩
  have hmore := (read_matrix_parses "features.fmx").complete [0] hfits
  exact ⟨hformat.1 one_row hfits, hformat.2 _ one_row (load_ok_iff.mpr ⟨[0], hmore⟩)⟩

end FeatureMatrix

end ptl.features.stored
