import TradingLab.Core.Types
import TradingLab.DepthFirst
import TradingLab.TableSum

open Std (TreeMap TransOrd LawfulEqOrd LawfulEqCmp TransCmp)

namespace ptl.strategy

/-! ### Identity -/

/-- The characters that need no escape in a file name, a key or a text. -/
def safe_char (c : Char) : Bool :=
  ('a' ≤ c ∧ c ≤ 'z') ∨ ('A' ≤ c ∧ c ≤ 'Z') ∨ ('0' ≤ c ∧ c ≤ '9') ∨ c = '_' ∨ c = '-' ∨ c = '.'

/-- An id is empty until it is created. -/
structure StrategyId where
  value : String
  safe : value.toList.all safe_char = true
  short : value.utf8ByteSize ≤ 128
  deriving DecidableEq

@[ext] theorem StrategyId.ext {a b : StrategyId} (hvalue : a.value = b.value) : a = b := by
  cases a
  cases b
  cases hvalue
  rfl

def StrategyId.create (value : String) : Result StrategyId :=
  if value = "" then .error (bad "strategy id cannot be empty")
  else if hshort : value.utf8ByteSize ≤ 128 then
    if hsafe : value.toList.all safe_char = true then .ok ⟨value, hsafe, hshort⟩
    else
      .error (bad "strategy id contains an unsafe character"
        ("'" ++ String.ofList ((value.toList.find? fun c => !safe_char c).toList) ++ "' in " ++ value))
  else .error (bad "strategy id exceeds 128 characters" (String.ofList (value.toList.take 32)))

structure StrategyVersion where
  major : UInt32 := 0
  minor : UInt32 := 0
  patch : UInt32 := 0
  deriving DecidableEq, Repr

def StrategyVersion.to_string (v : StrategyVersion) : String :=
  toString v.major ++ "." ++ toString v.minor ++ "." ++ toString v.patch

instance StrategyVersion.instOrd : Ord StrategyVersion where
  compare := compareLex (compareOn (·.major)) (compareLex (compareOn (·.minor)) (compareOn (·.patch)))

instance StrategyVersion.instTransOrd : TransOrd StrategyVersion :=
  inferInstanceAs (TransCmp (compareLex _ _))

instance StrategyVersion.instLawfulEqOrd : LawfulEqOrd StrategyVersion where
  eq_of_compare := by
    intro a b heq
    obtain ⟨hmajor, hrest⟩ := compareLex_eq_eq.mp heq
    obtain ⟨hminor, hpatch⟩ := compareLex_eq_eq.mp hrest
    obtain ⟨amajor, aminor, apatch⟩ := a
    obtain ⟨bmajor, bminor, bpatch⟩ := b
    have hmajor : amajor = bmajor := LawfulEqCmp.compare_eq_iff_eq.mp (hmajor : compare amajor bmajor = .eq)
    have hminor : aminor = bminor := LawfulEqCmp.compare_eq_iff_eq.mp (hminor : compare aminor bminor = .eq)
    have hpatch : apatch = bpatch := LawfulEqCmp.compare_eq_iff_eq.mp (hpatch : compare apatch bpatch = .eq)
    rw [hmajor, hminor, hpatch]

/-- An id and a version, by name and then by version. -/
abbrev Key := String × StrategyVersion

instance Key.instOrd : Ord Key := lexOrd

inductive StrategyState where
  | Draft
  | Research
  | Candidate
  | Production
  | Deprecated
  | Retired
  deriving DecidableEq, Repr

/-! ### Descriptors -/

/-- `std::stoll` and `std::stod`: how many characters of a text they consume,
or nothing where they throw. -/
structure NumberReaders where
  stoll : String → Option Nat
  stod : String → Option Nat

structure ParameterSpec where
  name : String
  type : String
  required : Bool := false
  default_value : String := ""
  deriving DecidableEq, Repr

def ParameterSpec.numeric (spec : ParameterSpec) (consumed : Option Nat) (kind value : String) : Result Bool :=
  match consumed with
  | none => .error (bad ("parameter '" ++ spec.name ++ "' is not a " ++ kind) value)
  | some n =>
    if n ≠ value.utf8ByteSize then
      .error (bad ("parameter '" ++ spec.name ++ "' has trailing characters") value)
    else .ok true

def ParameterSpec.validate_value (readers : NumberReaders) (spec : ParameterSpec) (value : String) :
    Result Bool :=
  if value = "" then
    if spec.required then .error (bad ("required parameter '" ++ spec.name ++ "' is empty")) else .ok true
  else if spec.type = "double" then spec.numeric (readers.stod value) "number" value
  else if spec.type = "int" then spec.numeric (readers.stoll value) "integer" value
  else if spec.type = "bool" then
    if value = "true" ∨ value = "false" then .ok true
    else .error (bad ("parameter '" ++ spec.name ++ "' must be true or false") value)
  else if spec.type = "string" then .ok true
  else .error (bad ("parameter '" ++ spec.name ++ "' has an unknown type") spec.type)

structure StrategyDescriptor where
  id : StrategyId
  version : StrategyVersion := {}
  state : StrategyState := .Draft
  parameters : List ParameterSpec := []
  depends_on : List StrategyId := []
  deriving DecidableEq

def StrategyDescriptor.key (d : StrategyDescriptor) : Key := (d.id.value, d.version)

/-- The text of an id at a version. -/
def label (id : StrategyId) (version : StrategyVersion) : String := id.value ++ "@" ++ version.to_string

/-- What is wrong with the first parameter that is wrong. -/
def parameters_refusal (readers : NumberReaders) : List String → List ParameterSpec → Option Error
  | _, [] => none
  | seen, spec :: rest =>
    if spec.name = "" then some (bad "parameter has no name")
    else if spec.name ∈ seen then some (bad ("duplicate parameter '" ++ spec.name ++ "'"))
    else if spec.type ≠ "double" ∧ spec.type ≠ "int" ∧ spec.type ≠ "bool" ∧ spec.type ≠ "string" then
      some (bad ("parameter '" ++ spec.name ++ "' has an unsupported type") spec.type)
    else if spec.default_value ≠ "" ∧ ¬ (spec.validate_value readers spec.default_value).isOk then
      some (bad ("default for '" ++ spec.name ++ "' fails its own schema") spec.default_value)
    else parameters_refusal readers (seen ++ [spec.name]) rest

/-- Why a descriptor is refused, if it is. -/
def StrategyDescriptor.refusal (readers : NumberReaders) (d : StrategyDescriptor) : Option Error :=
  if d.id.value = "" then some (bad "descriptor has no strategy id")
  else
    match parameters_refusal readers [] d.parameters with
    | some err => some err
    | none =>
      if d.id ∈ d.depends_on then some (bad "strategy depends on itself" d.id.value) else none

def StrategyDescriptor.validate (readers : NumberReaders) (d : StrategyDescriptor) : Result Bool :=
  match d.refusal readers with
  | some err => .error err
  | none => .ok true

/-! ### The registry -/

/-- Every descriptor stands under its own key. -/
structure StrategyRegistry where
  descriptors : TreeMap Key StrategyDescriptor := ∅
  keyed : ∀ (key : Key) (d : StrategyDescriptor), descriptors[key]? = some d → d.key = key := by simp

theorem keyed_empty (key : Key) (d : StrategyDescriptor)
    (hlookup : (∅ : TreeMap Key StrategyDescriptor)[key]? = some d) : d.key = key := by
  simp at hlookup

def StrategyRegistry.empty : StrategyRegistry where
  keyed := keyed_empty

def StrategyRegistry.find (r : StrategyRegistry) (id : StrategyId) (version : StrategyVersion) :
    Option StrategyDescriptor := r.descriptors[((id.value, version) : Key)]?

theorem keyed_insert (r : StrategyRegistry) {key : Key} {d : StrategyDescriptor} (hkey : d.key = key)
    (key' : Key) (d' : StrategyDescriptor) (hlookup : (r.descriptors.insert key d)[key']? = some d') :
    d'.key = key' := by
  obtain ⟨rfl, rfl⟩ | ⟨_, hold⟩ := Table.getElem?_insert_eq_some.mp hlookup
  · exact hkey
  · exact r.keyed key' d' hold

def StrategyRegistry.register_strategy (readers : NumberReaders) (r : StrategyRegistry)
    (d : StrategyDescriptor) : Result Bool × StrategyRegistry :=
  match d.refusal readers with
  | some err => (.error err, r)
  | none =>
    if r.descriptors.contains d.key then
      (.error (bad "strategy already registered at this version" (label d.id d.version)), r)
    else (.ok true, ⟨r.descriptors.insert d.key d, keyed_insert r rfl⟩)

/-- The better of what was found and the next entry. -/
def keep_latest (id : StrategyId) (best : Option StrategyDescriptor) (key : Key) (d : StrategyDescriptor) :
    Option StrategyDescriptor :=
  if key.1 ≠ id.value then best
  else
    match best with
    | none => some d
    | some b => if compare b.version d.version = .lt then some d else some b

/-- The highest registered version of an id. -/
def StrategyRegistry.latest (r : StrategyRegistry) (id : StrategyId) : Option StrategyDescriptor :=
  r.descriptors.foldl (keep_latest id) none

def StrategyRegistry.transition (r : StrategyRegistry) (id : StrategyId) (version : StrategyVersion)
    (target : StrategyState) : Result Bool × StrategyRegistry :=
  match hfind : r.find id version with
  | none => (.error (bad "no such strategy" (label id version)), r)
  | some d =>
    if d.state = target then (.ok true, r)
    else if d.state = .Retired then
      (.error (bad "a retired strategy cannot be transitioned; register a new version instead"
        (label id version)), r)
    else if d.state = .Draft ∧ target = .Production then
      (.error (bad ("a draft strategy cannot go straight to production; it must " ++
        "pass through research and candidate first") id.value), r)
    else
      (.ok true, ⟨r.descriptors.insert (id.value, version) { d with state := target },
        keyed_insert r (r.keyed _ d hfind)⟩)

/-! ### Dependencies -/

/-- A descriptor on the stack and the next of its dependencies. -/
structure Frame where
  descriptor : StrategyDescriptor
  next : Nat := 0

/-- The top of the stack is the head of the list. -/
structure Walk where
  stack : List Frame
  mark : StrategyId → DepthFirst.Mark
  ordered : List StrategyId

/-- One turn of the loop, while the stack is not empty. -/
def StrategyRegistry.turn (r : StrategyRegistry) (w : Walk) : Except Error (Option Walk) :=
  match w.stack with
  | [] => .ok none
  | frame :: below =>
    match frame.descriptor.depends_on[frame.next]? with
    | some dependency =>
      let stack := { frame with next := frame.next + 1 } :: below
      match w.mark dependency with
      | .visiting => .error (bad "dependency cycle detected" dependency.value)
      | .done => .ok (some { w with stack })
      | .unseen =>
        match r.latest dependency with
        | none => .error (bad "unresolved dependency" dependency.value)
        | some next =>
          .ok (some { w with
            stack := { descriptor := next } :: stack
            mark := Function.update w.mark dependency .visiting })
    | none =>
      .ok (some {
        stack := below
        mark := Function.update w.mark frame.descriptor.id .done
        ordered := w.ordered ++ [frame.descriptor.id] })

/-- More turns than a walk of this registry can take. -/
def StrategyRegistry.turns (r : StrategyRegistry) : Nat :=
  (r.descriptors.size + 1) *
    (r.descriptors.foldl (fun total _ d => total + d.depends_on.length) 0 + 2) + 1

/-- The loop with fuel for its turns; `none` when they do not suffice. -/
def StrategyRegistry.resolve_dependencies (r : StrategyRegistry) (id : StrategyId) (version : StrategyVersion) :
    Option (Result (List StrategyId)) :=
  match r.find id version with
  | none => some (.error (bad "no such strategy" (label id version)))
  | some root =>
    (Driver.drain r.turn 1 r.turns
      { stack := [{ descriptor := root }]
        mark := Function.update (fun _ => .unseen) root.id .visiting
        ordered := [] }).map fun result => result.map Walk.ordered

end ptl.strategy
