import Mathlib.Data.List.Basic
import Mathlib.Order.Lattice
import Mathlib.Tactic.Common

/-! Values under nested keys: what a path leads to, and what is left of it where a value is
set under another path. -/

namespace Keyed

inductive Tree (K V : Type*)
  | value (v : V)
  | array (elements : List (Tree K V))
  | table (members : List (K × Tree K V))

variable {K V : Type*} [LinearOrder K]

/-- Inserts a member, or replaces it, in the order of the keys. -/
def assign {A : Type*} (key : K) (a : A) : List (K × A) → List (K × A)
  | [] => [(key, a)]
  | (k, b) :: rest =>
    if key = k then (key, a) :: rest
    else if key < k then (key, a) :: (k, b) :: rest
    else (k, b) :: assign key a rest

/-- The tree at the end of a path. -/
def reached : List K → Tree K V → Option (Tree K V)
  | [], t => some t
  | key :: path, .table members => (members.lookup key).bind (reached path)
  | _ :: _, .value _ => none
  | _ :: _, .array _ => none

def Tree.value? : Tree K V → Option V
  | .value v => some v
  | .array _ => none
  | .table _ => none

/-- The value at the end of a path. -/
def value_at (path : List K) (members : List (K × Tree K V)) : Option V :=
  (reached path (.table members)).bind Tree.value?

/-- Sets the value at the end of a path, with the tables on the way that are missing. A path
that goes through anything else is refused. -/
def put : List K → V → List (K × Tree K V) → Option (List (K × Tree K V))
  | [], _, _ => none
  | [leaf], v, members => some (assign leaf (.value v) members)
  | key :: next :: path, v, members =>
    match members.lookup key with
    | none => (put (next :: path) v []).map fun inner => assign key (.table inner) members
    | some (.table inner) => (put (next :: path) v inner).map fun inner => assign key (.table inner) members
    | some (.value _) => none
    | some (.array _) => none

/-! ### Lookups -/

section Assign

variable {A : Type*} (key : K) (a : A) (members : List (K × A))

@[simp] theorem lookup_assign_self : (assign key a members).lookup key = some a := by
  induction members with
  | nil => simp [assign]
  | cons e rest ih =>
    obtain ⟨k, b⟩ := e
    rw [assign]
    split
    · simp
    · rename_i hne
      split
      · simp
      · rw [List.lookup_cons, beq_false_of_ne hne]
        exact ih

theorem lookup_assign_of_ne {other : K} (hne : other ≠ key) :
    (assign key a members).lookup other = members.lookup other := by
  induction members with
  | nil => simp [assign, List.lookup_cons, beq_false_of_ne hne]
  | cons e rest ih =>
    obtain ⟨k, b⟩ := e
    rw [assign]
    split
    · rename_i heq
      subst heq
      simp [List.lookup_cons, beq_false_of_ne hne]
    · split
      · simp [List.lookup_cons, beq_false_of_ne hne]
      · rw [List.lookup_cons, List.lookup_cons, ih]

end Assign

theorem reached_cons (key : K) (path : List K) (members : List (K × Tree K V)) :
    reached (key :: path) (.table members) = (members.lookup key).bind (reached path) := rfl

/-- Nothing but the value itself is reached from a value. -/
theorem reached_value {path : List K} (hpath : path ≠ []) (v : V) : reached path (.value v) = none := by
  cases path with
  | nil => exact absurd rfl hpath
  | cons key path => rfl

/-! ### Setting a value -/

theorem value_at_cons_of_table {key : K} {path : List K} {members inner : List (K × Tree K V)}
    (hlookup : members.lookup key = some (.table inner)) : value_at (key :: path) members = value_at path inner := by
  rw [value_at, reached_cons, hlookup]
  rfl

theorem value_at_cons_of_none {key : K} {path : List K} {members : List (K × Tree K V)}
    (hlookup : members.lookup key = none) : value_at (key :: path) members = none := by
  rw [value_at, reached_cons, hlookup]
  rfl

theorem value_at_cons_of_value {key : K} {path : List K} {members : List (K × Tree K V)} {v : V}
    (hpath : path ≠ []) (hlookup : members.lookup key = some (.value v)) : value_at (key :: path) members = none := by
  rw [value_at, reached_cons, hlookup, Option.bind_some, reached_value hpath, Option.bind_none]

@[simp] theorem value_at_empty (path : List K) : value_at path ([] : List (K × Tree K V)) = none := by
  cases path with
  | nil => rfl
  | cons key path => exact value_at_cons_of_none rfl

/-- What lies under other first keys stays. -/
theorem value_at_assign_of_ne {key other : K} (hne : other ≠ key) (path : List K) (t : Tree K V)
    (members : List (K × Tree K V)) :
    value_at (other :: path) (assign key t members) = value_at (other :: path) members := by
  rw [value_at, reached_cons, lookup_assign_of_ne key t members hne, ← reached_cons, ← value_at]

/-- A path that is set goes through tables only, and the one at its first key is left with
the rest of it set. -/
theorem put_cons {key next : K} {path : List K} {v : V} {members after : List (K × Tree K V)}
    (hput : put (key :: next :: path) v members = some after) :
    ∃ inner inner', (members.lookup key = some (.table inner) ∨ members.lookup key = none ∧ inner = []) ∧
      put (next :: path) v inner = some inner' ∧ after = assign key (.table inner') members := by
  rw [put] at hput
  split at hput
  · rename_i hlookup
    obtain ⟨inner', hinner, rfl⟩ := Option.map_eq_some_iff.mp hput
    exact ⟨[], inner', .inr ⟨hlookup, rfl⟩, hinner, rfl⟩
  · rename_i inner hlookup
    obtain ⟨inner', hinner, rfl⟩ := Option.map_eq_some_iff.mp hput
    exact ⟨inner, inner', .inl hlookup, hinner, rfl⟩
  · cases hput
  · cases hput

theorem value_at_put_self {path : List K} {v : V} {members after : List (K × Tree K V)}
    (hput : put path v members = some after) : value_at path after = some v := by
  induction path generalizing members after with
  | nil => cases hput
  | cons key path ih =>
    cases path with
    | nil =>
      cases hput
      rw [value_at, reached_cons, lookup_assign_self]
      rfl
    | cons next path =>
      obtain ⟨inner, inner', -, hinner, rfl⟩ := put_cons hput
      rw [value_at_cons_of_table (lookup_assign_self _ _ _)]
      exact ih hinner

/-- Whatever is at another path stays there, unless a value was put in its way. -/
theorem value_at_put_of_ne {path other : List K} {v : V} {members after : List (K × Tree K V)}
    (hput : put path v members = some after) (hne : other ≠ path) :
    value_at other after = value_at other members ∨ path <+: other := by
  induction path generalizing other members after with
  | nil => cases hput
  | cons key path ih =>
    cases other with
    | nil => exact .inl rfl
    | cons first other =>
      by_cases hkey : first = key
      · subst hkey
        cases path with
        | nil => exact .inr ⟨other, rfl⟩
        | cons next path =>
          obtain ⟨inner, inner', hlookup, hinner, rfl⟩ := put_cons hput
          have hother : value_at (first :: other) members = value_at other inner := by
            rcases hlookup with htable | ⟨hnone, rfl⟩
            · exact value_at_cons_of_table htable
            · rw [value_at_cons_of_none hnone, value_at_empty]
          rw [value_at_cons_of_table (lookup_assign_self _ _ _), hother]
          refine (ih hinner fun heq => hne (heq ▸ rfl)).imp_right fun hshort => ?_
          exact List.cons_prefix_cons.mpr ⟨rfl, hshort⟩
      · cases path with
        | nil =>
          cases hput
          exact .inl (value_at_assign_of_ne hkey _ _ _)
        | cons next path =>
          obtain ⟨inner, inner', -, -, rfl⟩ := put_cons hput
          exact .inl (value_at_assign_of_ne hkey _ _ _)

/-- A value stands on the way to the end of a path. -/
def Covered (path : List K) (members : List (K × Tree K V)) : Prop :=
  ∃ short v, short <+: path ∧ short ≠ path ∧ value_at short members = some v

/-- A path that is covered stays so. -/
theorem Covered.put {path other : List K} {v : V} {members after : List (K × Tree K V)}
    (hput : put path v members = some after) (hcovered : Covered other members) : Covered other after := by
  obtain ⟨short, w, hshort, hne, hvalue⟩ := hcovered
  by_cases hsame : short = path
  · exact ⟨short, v, hshort, hne, hsame ▸ value_at_put_self hput⟩
  · rcases value_at_put_of_ne hput hsame with hkept | hshorter
    · exact ⟨short, w, hshort, hne, hkept.trans hvalue⟩
    · refine ⟨path, v, hshorter.trans hshort, fun heq => hsame ?_, value_at_put_self hput⟩
      exact (hshort.eq_of_length_le (heq ▸ hshorter.length_le)).trans heq.symm

/-- What is at a path after a value was put somewhere. -/
theorem value_at_put {path : List K} (other : List K) {v : V} {members after : List (K × Tree K V)}
    (hput : put path v members = some after) :
    value_at other after = (if path = other then some v else value_at other members) ∨ Covered other after := by
  by_cases hsame : path = other
  · subst hsame
    exact .inl (by rw [if_pos rfl, value_at_put_self hput])
  · rw [if_neg hsame]
    refine (value_at_put_of_ne hput (Ne.symm hsame)).imp_right fun hshort => ?_
    exact ⟨path, v, hshort, hsame, value_at_put_self hput⟩

/-! ### Tables in order -/

/-- Every table lists its members in the order of their keys. -/
inductive Ordered : Tree K V → Prop
  | value (v : V) : Ordered (.value v)
  | array {elements : List (Tree K V)} (elements_ : ∀ t ∈ elements, Ordered t) : Ordered (.array elements)
  | table {members : List (K × Tree K V)} (keys : members.Pairwise fun e e' => e.1 < e'.1)
      (members_ : ∀ e ∈ members, Ordered e.2) : Ordered (.table members)

theorem mem_assign {A : Type*} {key : K} {a : A} {members : List (K × A)} {e : K × A}
    (hmem : e ∈ assign key a members) : e = (key, a) ∨ e ∈ members := by
  induction members with
  | nil => exact .inl (List.mem_singleton.mp hmem)
  | cons e' rest ih =>
    obtain ⟨k, b⟩ := e'
    rw [assign] at hmem
    split at hmem
    · exact (List.mem_cons.mp hmem).imp_right (List.mem_cons_of_mem _)
    · split at hmem
      · exact List.mem_cons.mp hmem
      · rcases List.mem_cons.mp hmem with rfl | hlater
        · exact .inr List.mem_cons_self
        · exact (ih hlater).imp_right (List.mem_cons_of_mem _)

theorem pairwise_assign {A : Type*} (key : K) (a : A) {members : List (K × A)}
    (hkeys : members.Pairwise fun e e' => e.1 < e'.1) :
    (assign key a members).Pairwise fun e e' => e.1 < e'.1 := by
  induction members with
  | nil => exact List.pairwise_singleton _ _
  | cons e rest ih =>
    obtain ⟨k, b⟩ := e
    obtain ⟨hfirst, hrest⟩ := List.pairwise_cons.mp hkeys
    rw [assign]
    split
    · rename_i heq
      exact List.pairwise_cons.mpr ⟨fun e he => heq ▸ hfirst e he, hrest⟩
    · rename_i hne
      split
      · rename_i hlt
        refine List.pairwise_cons.mpr ⟨fun e he => ?_, hkeys⟩
        rcases List.mem_cons.mp he with rfl | hlater
        · exact hlt
        · exact lt_trans hlt (hfirst e hlater)
      · rename_i hnot
        refine List.pairwise_cons.mpr ⟨fun e he => ?_, ih hrest⟩
        rcases mem_assign he with rfl | hlater
        · exact lt_of_le_of_ne (not_lt.mp hnot) (Ne.symm hne)
        · exact hfirst e hlater

theorem mem_of_lookup {A : Type*} {key : K} {a : A} {members : List (K × A)}
    (hlookup : members.lookup key = some a) : (key, a) ∈ members := by
  obtain ⟨before, behind, rfl, -⟩ := List.lookup_eq_some_iff.mp hlookup
  exact List.mem_append_right before List.mem_cons_self

/-- In an ordered table every member is found under its key. -/
theorem lookup_of_mem {A : Type*} {key : K} {a : A} {members : List (K × A)}
    (hkeys : members.Pairwise fun e e' => e.1 < e'.1) (hmem : (key, a) ∈ members) :
    members.lookup key = some a := by
  induction members with
  | nil => cases hmem
  | cons e rest ih =>
    obtain ⟨hfirst, hrest⟩ := List.pairwise_cons.mp hkeys
    rcases List.mem_cons.mp hmem with rfl | hlater
    · simp
    · obtain ⟨k, b⟩ := e
      rw [List.lookup_cons, beq_false_of_ne (ne_of_lt (hfirst (key, a) hlater)).symm]
      exact ih hrest hlater

theorem Ordered.assign {key : K} {t : Tree K V} {members : List (K × Tree K V)}
    (hmembers : Ordered (.table members)) (ht : Ordered t) : Ordered (.table (assign key t members)) := by
  cases hmembers with
  | table keys members_ =>
    refine .table (pairwise_assign key t keys) fun e he => ?_
    rcases mem_assign he with rfl | hold
    · exact ht
    · exact members_ e hold

theorem Ordered.put {path : List K} {v : V} {members after : List (K × Tree K V)}
    (hmembers : Ordered (.table members)) (hput : put path v members = some after) : Ordered (.table after) := by
  induction path generalizing members after with
  | nil => cases hput
  | cons key path ih =>
    cases path with
    | nil =>
      cases hput
      exact hmembers.assign (.value v)
    | cons next path =>
      obtain ⟨inner, inner', hlookup, hinner, rfl⟩ := put_cons hput
      refine hmembers.assign (ih ?_ hinner)
      rcases hlookup with htable | ⟨-, rfl⟩
      · cases hmembers with
        | table keys members_ => exact members_ _ (mem_of_lookup htable)
      · exact .table .nil fun e he => nomatch he

/-- Members in order, all the way down. -/
structure Table (K V : Type*) [LinearOrder K] where
  members : List (K × Tree K V)
  ordered : Ordered (.table members)

def Table.empty : Table K V where
  members := []
  ordered := .table .nil fun _ he => nomatch he

def Table.put (path : List K) (v : V) (t : Table K V) : Option (Table K V) :=
  match hput : Keyed.put path v t.members with
  | none => none
  | some members => some { members, ordered := t.ordered.put hput }

theorem Table.put_some {path : List K} {v : V} {t after : Table K V} (hput : t.put path v = some after) :
    Keyed.put path v t.members = some after.members := by
  unfold Table.put at hput
  split at hput
  · cases hput
  · rename_i members hmembers
    cases hput
    exact hmembers

/-! ### All values of a table -/

mutual

/-- The values under nested tables, with their paths. -/
def Tree.leaves : Tree K V → List (List K × V)
  | .value v => [([], v)]
  | .array _ => []
  | .table members => leaves members

def leaves : List (K × Tree K V) → List (List K × V)
  | [] => []
  | (key, t) :: members => (t.leaves.map fun e => (key :: e.1, e.2)) ++ leaves members

end

omit [LinearOrder K] in
theorem mem_leaves {e : List K × V} {members : List (K × Tree K V)} (hmem : e ∈ leaves members) :
    ∃ key t path, (key, t) ∈ members ∧ (path, e.2) ∈ t.leaves ∧ e.1 = key :: path := by
  induction members with
  | nil => exact nomatch hmem
  | cons first members ih =>
    obtain ⟨key, t⟩ := first
    rw [leaves] at hmem
    rcases List.mem_append.mp hmem with hfirst | hlater
    · obtain ⟨e', he', rfl⟩ := List.mem_map.mp hfirst
      exact ⟨key, t, e'.1, List.mem_cons_self, he', rfl⟩
    · obtain ⟨key', t', path, hmem', hpath, heq⟩ := ih hlater
      exact ⟨key', t', path, List.mem_cons_of_mem _ hmem', hpath, heq⟩

/-- In an ordered table every value is found at its path. -/
theorem value_at_of_mem_leaves {path : List K} {v : V} {members : List (K × Tree K V)}
    (hordered : Ordered (.table members)) (hmem : (path, v) ∈ leaves members) : value_at path members = some v := by
  induction path generalizing members with
  | nil =>
    obtain ⟨key, t, path, -, -, heq⟩ := mem_leaves hmem
    cases heq
  | cons key path ih =>
    obtain ⟨key', t, path', hmember, hpath, heq⟩ := mem_leaves hmem
    cases heq
    cases hordered with
    | table keys members_ =>
      have hlookup := lookup_of_mem keys hmember
      cases t with
      | value w =>
        cases List.mem_singleton.mp hpath
        rw [value_at, reached_cons, hlookup]
        rfl
      | array elements => cases hpath
      | table inner =>
        rw [value_at_cons_of_table hlookup]
        exact ih (members_ _ hmember) hpath

omit [LinearOrder K] in
theorem mem_leaves_of_mem {key : K} {t : Tree K V} {path : List K} {v : V} {members : List (K × Tree K V)}
    (hmem : (key, t) ∈ members) (hleaf : (path, v) ∈ t.leaves) : (key :: path, v) ∈ leaves members := by
  induction members with
  | nil => cases hmem
  | cons first members ih =>
    obtain ⟨key', t'⟩ := first
    rw [leaves]
    rcases List.mem_cons.mp hmem with heq | hlater
    · cases heq
      exact List.mem_append_left _ (List.mem_map.mpr ⟨_, hleaf, rfl⟩)
    · exact List.mem_append_right _ (ih hlater)

theorem mem_leaves_of_value_at {path : List K} {v : V} {members : List (K × Tree K V)}
    (hvalue : value_at path members = some v) : (path, v) ∈ leaves members := by
  induction path generalizing members with
  | nil => cases hvalue
  | cons key path ih =>
    cases hlookup : members.lookup key with
    | none =>
      rw [value_at_cons_of_none hlookup] at hvalue
      cases hvalue
    | some t =>
      refine mem_leaves_of_mem (mem_of_lookup hlookup) ?_
      cases t with
      | value w =>
        cases path with
        | nil =>
          rw [value_at, reached_cons, hlookup] at hvalue
          cases hvalue
          exact List.mem_singleton_self _
        | cons next path =>
          rw [value_at_cons_of_value (by simp) hlookup] at hvalue
          cases hvalue
      | array elements =>
        rw [value_at, reached_cons, hlookup] at hvalue
        cases path <;> cases hvalue
      | table inner =>
        rw [value_at_cons_of_table hlookup] at hvalue
        exact ih hvalue

end Keyed
