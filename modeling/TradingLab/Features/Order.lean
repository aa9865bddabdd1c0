import Mathlib.Data.List.Sort
import TradingLab.Core.Types
import TradingLab.TableSum
import TradingLab.Worklist

/-! Named computations with declared dependencies. Values are of any type that
says which of them are finite. -/

open Std (TreeMap)

namespace ptl.features

/-- The values a factor sees, and the names it may read. -/
structure FactorInputs (V : Type) where
  values : TreeMap String V
  allowed : List String

section

variable {V : Type}

def FactorInputs.declared (inputs : FactorInputs V) (name : String) : Bool := name ∈ inputs.allowed

def FactorInputs.get (inputs : FactorInputs V) (name : String) : Result V :=
  if ¬ inputs.declared name then .error (bad ("factor read an undeclared dependency: " ++ name))
  else
    match inputs.values[name]? with
    | none => .error (bad ("declared dependency has no value: " ++ name))
    | some v => .ok v

end

structure FactorDefinition (V : Type) where
  name : String
  dependencies : List String
  compute : FactorInputs V → V

structure FactorGraph (V : Type) where
  definitions : TreeMap String (FactorDefinition V) := ∅
  order : List String := []
  finalized : Bool := false

variable {V : Type}

def FactorGraph.add (g : FactorGraph V) (definition : FactorDefinition V) : Result Bool × FactorGraph V :=
  if definition.name = "" then (.error (bad "factor name cannot be empty"), g)
  else if g.definitions.contains definition.name then
    (.error (bad ("duplicate factor registration: " ++ definition.name)), g)
  else (.ok true, { definitions := g.definitions.insert definition.name definition })

/-! ### Resolving the order -/

def sorted (names : List String) : List String := names.insertionSort fun a b => (compare a b).isLE

/-- How many dependencies of each factor are factors, counted as often as they
    are declared. A name outside the graph is a base feature. -/
def FactorGraph.indegree (g : FactorGraph V) : TreeMap String Nat :=
  g.definitions.map fun _ f => f.dependencies.countP fun dep => g.definitions.contains dep

/-- The factors that declare a name, as often as they do. -/
def FactorGraph.dependents (g : FactorGraph V) (dep : String) : List String :=
  g.definitions.toList.flatMap fun e => List.replicate (e.2.dependencies.count dep) e.1

/-- What the loop of `finalize` changes. -/
structure Resolution where
  order : List String := []
  indegree : TreeMap String Nat
  ready : List String

/-- One dependency of a factor has been emitted. -/
def Resolution.settle (r : Resolution) (d : String) : Resolution :=
  let degree := r.indegree.getD d 0 - 1
  { r with
    indegree := r.indegree.insert d degree
    ready := if degree = 0 then sorted (r.ready ++ [d]) else r.ready }

/-- Emit the first ready factor, until none is ready. Each turn emits one, so
    the fuel is the number of factors. -/
def FactorGraph.resolve (g : FactorGraph V) : Nat → Resolution → Resolution
  | 0, r => r
  | fuel + 1, r =>
    match r.ready with
    | [] => r
    | current :: ready =>
      g.resolve fuel ((sorted (g.dependents current)).foldl Resolution.settle
        { r with order := r.order ++ [current], ready })

def FactorGraph.resolution (g : FactorGraph V) : Resolution :=
  g.resolve g.definitions.size {
    indegree := g.indegree
    ready := sorted (g.indegree.keys.filter fun name => g.indegree.getD name 0 = 0) }

/-- The factors left with an unresolved dependency, joined with commas. -/
def Resolution.stuck (r : Resolution) : String :=
  r.indegree.foldl (fun stuck name degree =>
    if degree = 0 then stuck else if stuck = "" then name else stuck ++ ", " ++ name) ""

def FactorGraph.finalize (g : FactorGraph V) : Result Bool × FactorGraph V :=
  let r := g.resolution
  if r.order.length ≠ g.definitions.size then
    (.error (bad ("factor dependency cycle detected among: " ++ r.stuck)), { g with order := r.order })
  else (.ok true, { g with order := r.order, finalized := true })

/-! ### Evaluation -/

def FactorGraph.uses (g : FactorGraph V) (other current : String) : Bool :=
  match g.definitions[other]? with
  | none => false
  | some f => current ∈ f.dependencies

/-- Every factor that depends on a name, directly or transitively. -/
def FactorGraph.dependents_of (g : FactorGraph V) (name : String) : List String :=
  sorted (Worklist.closure g.definitions.keys g.uses (g.definitions.keys.length + 1) [] [name])

def FactorGraph.to_compute (g : FactorGraph V) (dirty : List String) : List String :=
  if dirty.isEmpty then g.order else dirty.flatMap fun d => d :: g.dependents_of d

variable (is_finite : V → Bool)

/-- One factor of the order, if it is to be computed. -/
def FactorGraph.refresh (g : FactorGraph V) (to_compute : List String) (values : TreeMap String V)
    (name : String) : Result (TreeMap String V) :=
  if name ∉ to_compute then .ok values
  else
    match g.definitions[name]? with
    | none => .ok values
    | some f =>
      let v := f.compute { values, allowed := f.dependencies }
      if ¬ is_finite v then .error (bad ("factor produced a non-finite value: " ++ name))
      else .ok (values.insert name v)

def FactorGraph.evaluate (g : FactorGraph V) (base : TreeMap String V) (dirty : List String := []) :
    Result (TreeMap String V) :=
  if ¬ g.finalized then .error (bad "factor graph must be finalized before evaluation")
  else g.order.foldlM (g.refresh is_finite (g.to_compute dirty)) base

end ptl.features

/-! The order in which the factors are computed: each once, and after the
factors it reads. -/

namespace ptl.features

variable {V : Type}

theorem mem_sorted {names : List String} {name : String} : name ∈ sorted names ↔ name ∈ names :=
  List.mem_insertionSort _

theorem perm_sorted (names : List String) : (sorted names).Perm names := List.perm_insertionSort _ names

theorem count_sorted (names : List String) (name : String) : (sorted names).count name = names.count name :=
  (perm_sorted names).count_eq name

/-- Every factor of a list comes after the factors it reads. -/
def FactorGraph.Topological (g : FactorGraph V) (order : List String) : Prop :=
  ∀ before name, before ++ [name] <+: order → ∀ f, g.definitions[name]? = some f →
    ∀ dep ∈ f.dependencies, dep ∈ g.definitions → dep ∈ before

theorem FactorGraph.Topological.snoc {g : FactorGraph V} {order : List String} {current : String}
    (horder : g.Topological order)
    (hcurrent : ∀ f, g.definitions[current]? = some f → ∀ dep ∈ f.dependencies, dep ∈ g.definitions → dep ∈ order) :
    g.Topological (order ++ [current]) := by
  intro before name hprefixed
  obtain heq | hbefore := List.prefix_concat_iff.mp hprefixed
  · obtain ⟨rfl, hname⟩ := List.append_inj' heq rfl
    obtain rfl := List.singleton_inj.mp hname
    exact hcurrent
  · exact horder before name hbefore

/-- How many dependencies of a factor are factors that were not emitted. -/
def FactorGraph.waiting (g : FactorGraph V) (order : List String) (f : FactorDefinition V) : Nat :=
  f.dependencies.countP fun dep => g.definitions.contains dep ∧ dep ∉ order

theorem FactorGraph.waiting_eq_zero {g : FactorGraph V} {order : List String} {f : FactorDefinition V} :
    g.waiting order f = 0 ↔ ∀ dep ∈ f.dependencies, dep ∈ g.definitions → dep ∈ order := by
  rw [waiting, List.countP_eq_zero]
  simp

/-- A factor that is emitted leaves the waiting of each that declared it. -/
theorem FactorGraph.waiting_snoc {g : FactorGraph V} {order : List String} {current : String}
    (hknown : current ∈ g.definitions) (hfresh : current ∉ order) (f : FactorDefinition V) :
    g.waiting order f = g.waiting (order ++ [current]) f + f.dependencies.count current := by
  unfold waiting
  induction f.dependencies with
  | nil => rfl
  | cons dep deps ih =>
    rw [List.countP_cons, List.countP_cons, List.count_cons, ih]
    by_cases hdep : dep = current
    · subst hdep
      simp [hknown, hfresh]
      omega
    · simp [hdep]
      omega

/-- Each key of a table is repeated as often as its value says, and no more. -/
theorem count_flatMap_replicate {entries : List (String × V)} (hkeys : (entries.map Prod.fst).Nodup)
    {name : String} {v : V} (hmem : (name, v) ∈ entries) (times : V → Nat) :
    (entries.flatMap fun e => List.replicate (times e.2) e.1).count name = times v := by
  induction entries with
  | nil => cases hmem
  | cons e entries ih =>
    rw [List.map_cons, List.nodup_cons] at hkeys
    rw [List.flatMap_cons, List.count_append, List.count_replicate]
    obtain rfl | hmem := List.mem_cons.mp hmem
    · have hrest : name ∉ entries.flatMap fun e => List.replicate (times e.2) e.1 := by
        intro hname
        obtain ⟨e, he, hrepeat⟩ := List.mem_flatMap.mp hname
        exact hkeys.1 (List.mem_map.mpr ⟨e, he, (List.eq_of_mem_replicate hrepeat).symm⟩)
      rw [List.count_eq_zero_of_not_mem hrest]
      simp
    · have hne : e.1 ≠ name := fun heq => hkeys.1 (heq ▸ List.mem_map_of_mem hmem)
      rw [ih hkeys.2 hmem, if_neg (by simpa using hne), zero_add]

theorem FactorGraph.count_dependents {g : FactorGraph V} {name : String} {f : FactorDefinition V}
    (hf : g.definitions[name]? = some f) (dep : String) :
    (g.dependents dep).count name = f.dependencies.count dep := by
  refine count_flatMap_replicate ?_ (TreeMap.mem_toList_iff_getElem?_eq_some.mpr hf)
    fun f => f.dependencies.count dep
  rw [TreeMap.map_fst_toList_eq_keys]
  exact Table.nodup_keys _

theorem FactorGraph.mem_of_mem_dependents {g : FactorGraph V} {name dep : String}
    (hmem : name ∈ g.dependents dep) : name ∈ g.definitions := by
  obtain ⟨e, he, hname⟩ := List.mem_flatMap.mp hmem
  rw [List.eq_of_mem_replicate hname, TreeMap.mem_iff_isSome_getElem?,
    TreeMap.mem_toList_iff_getElem?_eq_some.mp he]
  rfl

/-- What holds before each of the factors left in a batch is settled. The batch
    holds what the last factor emitted still has to be taken from. -/
structure Settling (g : FactorGraph V) (batch : List String) (r : Resolution) : Prop where
  degree : ∀ name f, g.definitions[name]? = some f →
    r.indegree[name]? = some (g.waiting r.order f + batch.count name)
  settled : ∀ name ∈ r.order ++ r.ready, ∃ f, g.definitions[name]? = some f ∧
    g.waiting r.order f + batch.count name = 0
  nodup : (r.order ++ r.ready).Nodup
  topological : g.Topological r.order

/-- A factor that is settled was not ready before. It becomes ready with its
    last dependency. -/
theorem Settling.settle {g : FactorGraph V} {d : String} {batch : List String} {r : Resolution}
    (hsettling : Settling g (d :: batch) r) (hknown : d ∈ g.definitions) : Settling g batch (r.settle d) := by
  obtain ⟨f, hf⟩ := Option.isSome_iff_exists.mp (TreeMap.isSome_getElem?_iff_mem.mpr hknown)
  have hleft : r.indegree.getD d 0 - 1 = g.waiting r.order f + batch.count d := by
    rw [TreeMap.getD_eq_getD_getElem?, hsettling.degree d f hf, List.count_cons_self]
    rfl
  have hbefore : ∀ name ∈ r.order ++ r.ready, name ≠ d ∧ ∃ f, g.definitions[name]? = some f ∧
      g.waiting r.order f + batch.count name = 0 := by
    intro name hname
    obtain ⟨f, hf, hzero⟩ := hsettling.settled name hname
    rw [List.count_cons] at hzero
    refine ⟨?_, f, hf, by omega⟩
    rintro rfl
    simp at hzero
  have hdegree : ∀ name f, g.definitions[name]? = some f →
      (r.settle d).indegree[name]? = some (g.waiting r.order f + batch.count name) := by
    intro name f' hf'
    change (r.indegree.insert d (r.indegree.getD d 0 - 1))[name]? = _
    rw [Table.getElem?_insert_eq_ite]
    split
    next heq =>
      subst heq
      rw [hleft, Option.some_inj.mp (hf.symm.trans hf')]
    next hne => rw [hsettling.degree name f' hf', List.count_cons_of_ne hne]
  by_cases hzero : r.indegree.getD d 0 - 1 = 0
  · have hready : (r.settle d).ready = sorted (r.ready ++ [d]) := if_pos hzero
    have hperm : (r.order ++ (r.settle d).ready).Perm (d :: (r.order ++ r.ready)) := by
      rw [hready]
      calc (r.order ++ sorted (r.ready ++ [d])).Perm (r.order ++ (r.ready ++ [d])) :=
            (perm_sorted _).append_left _
        _ = r.order ++ r.ready ++ [d] := (List.append_assoc _ _ _).symm
        List.Perm _ (d :: (r.order ++ r.ready)) := List.perm_append_singleton _ _
    refine ⟨hdegree, fun name hname => ?_, ?_, hsettling.topological⟩
    · obtain rfl | hname := List.mem_cons.mp (hperm.mem_iff.mp hname)
      · exact ⟨f, hf, by change g.waiting r.order f + _ = 0; omega⟩
      · exact (hbefore name hname).2
    · refine hperm.nodup_iff.mpr (List.nodup_cons.mpr ⟨?_, hsettling.nodup⟩)
      exact fun hmem => (hbefore d hmem).1 rfl
  · have hready : (r.settle d).ready = r.ready := if_neg hzero
    refine ⟨hdegree, fun name hname => ?_, ?_, hsettling.topological⟩
    · rw [hready] at hname
      exact (hbefore name hname).2
    · rw [hready]
      exact hsettling.nodup

theorem Settling.batch {g : FactorGraph V} {batch : List String} {r : Resolution}
    (hsettling : Settling g batch r) (hknown : ∀ d ∈ batch, d ∈ g.definitions) :
    Settling g [] (batch.foldl Resolution.settle r) := by
  induction batch generalizing r with
  | nil => exact hsettling
  | cons d batch ih =>
    exact ih (hsettling.settle (hknown d List.mem_cons_self))
      fun d' hd' => hknown d' (List.mem_cons_of_mem _ hd')

/-- A ready factor has all its dependencies behind it, and is taken from those
    that declared it. -/
theorem Settling.emit {g : FactorGraph V} {r : Resolution} {current : String} {ready : List String}
    (hsettling : Settling g [] r) (hready : r.ready = current :: ready) :
    Settling g (sorted (g.dependents current)) { r with order := r.order ++ [current], ready } := by
  have hmem : current ∈ r.order ++ r.ready := by simp [hready]
  obtain ⟨f, hf, hzero⟩ := hsettling.settled current hmem
  have hknown : current ∈ g.definitions := TreeMap.mem_iff_isSome_getElem?.mpr (by rw [hf]; rfl)
  have hsplit : r.order ++ r.ready = (r.order ++ [current]) ++ ready := by simp [hready]
  have hnodup := hsettling.nodup
  rw [hsplit] at hnodup
  have hfresh : current ∉ r.order := (List.nodup_append.mp hnodup).1 |> fun h => by
    rw [List.nodup_append_comm] at h
    exact (List.nodup_cons.mp h).1
  have hwaiting : ∀ name f, g.definitions[name]? = some f → g.waiting r.order f =
      g.waiting (r.order ++ [current]) f + (sorted (g.dependents current)).count name := by
    intro name f hf
    rw [count_sorted, g.count_dependents hf, g.waiting_snoc hknown hfresh]
  refine ⟨fun name f hf => ?_, fun name hname => ?_, hnodup, ?_⟩
  · change r.indegree[name]? = some (g.waiting (r.order ++ [current]) f + _)
    rw [← hwaiting name f hf, hsettling.degree name f hf]
    rfl
  · rw [← hsplit] at hname
    obtain ⟨f, hf, hzero⟩ := hsettling.settled name hname
    refine ⟨f, hf, ?_⟩
    change g.waiting (r.order ++ [current]) f + _ = 0
    rw [← hwaiting name f hf]
    exact hzero
  · refine hsettling.topological.snoc fun f' hf' => ?_
    rw [Option.some_inj.mp (hf.symm.trans hf')] at hzero
    exact FactorGraph.waiting_eq_zero.mp hzero

theorem Settling.length_le {g : FactorGraph V} {batch : List String} {r : Resolution}
    (hsettling : Settling g batch r) : r.order.length + r.ready.length ≤ g.definitions.size := by
  rw [← List.length_append, ← TreeMap.length_keys]
  refine (List.subperm_of_subset hsettling.nodup fun name hname => ?_).length_le
  obtain ⟨f, hf, _⟩ := hsettling.settled name hname
  exact TreeMap.mem_keys.mpr (TreeMap.mem_iff_isSome_getElem?.mpr (by rw [hf]; rfl))

theorem foldl_settle_order (batch : List String) (r : Resolution) :
    (batch.foldl Resolution.settle r).order = r.order := by
  induction batch generalizing r with
  | nil => rfl
  | cons d batch ih => exact ih (r.settle d)

/-- With fuel for every factor not yet emitted, none is ready at the end. -/
theorem Settling.resolve {g : FactorGraph V} (fuel : Nat) {r : Resolution} (hsettling : Settling g [] r)
    (hfuel : g.definitions.size ≤ r.order.length + fuel) :
    Settling g [] (g.resolve fuel r) ∧ (g.resolve fuel r).ready = [] := by
  induction fuel generalizing r with
  | zero =>
    have hlength := hsettling.length_le
    have hready : r.ready = [] := List.eq_nil_of_length_eq_zero (by omega)
    exact ⟨hsettling, hready⟩
  | succ fuel ih =>
    cases hready : r.ready with
    | nil =>
      have hdone : g.resolve (fuel + 1) r = r := by rw [FactorGraph.resolve, hready]
      rw [hdone]
      exact ⟨hsettling, hready⟩
    | cons current ready =>
      have hturn : g.resolve (fuel + 1) r = g.resolve fuel
          ((sorted (g.dependents current)).foldl Resolution.settle
            { r with order := r.order ++ [current], ready }) := by
        rw [FactorGraph.resolve, hready]
      rw [hturn]
      refine ih ((hsettling.emit hready).batch fun d hd => ?_) ?_
      · exact g.mem_of_mem_dependents (mem_sorted.mp hd)
      · rw [foldl_settle_order, List.length_append, List.length_singleton]
        omega

theorem FactorGraph.settling_initial (g : FactorGraph V) : Settling g [] {
    indegree := g.indegree
    ready := sorted (g.indegree.keys.filter fun name => g.indegree.getD name 0 = 0) } := by
  have hdegree : ∀ (name : String) f, g.definitions[name]? = some f →
      g.indegree[name]? = some (g.waiting [] f) := by
    intro name f hf
    rw [indegree, TreeMap.getElem?_map, hf]
    simp only [waiting, List.not_mem_nil, not_false_eq_true, and_true, Bool.decide_eq_true, Option.map_some]
  refine ⟨hdegree, fun name hname => ?_, ?_, ?_⟩
  · rw [List.nil_append, mem_sorted, List.mem_filter, TreeMap.mem_keys, decide_eq_true_iff] at hname
    obtain ⟨hname, hzero⟩ := hname
    rw [indegree, TreeMap.mem_map] at hname
    obtain ⟨f, hf⟩ := Option.isSome_iff_exists.mp (TreeMap.isSome_getElem?_iff_mem.mpr hname)
    rw [TreeMap.getD_eq_getD_getElem?, hdegree name f hf] at hzero
    exact ⟨f, hf, hzero⟩
  · rw [List.nil_append, (perm_sorted _).nodup_iff]
    exact (Table.nodup_keys _).filter _
  · intro before name hprefixed
    simp at hprefixed

/-- What `finalize` has resolved when it succeeds. -/
structure FactorGraph.Resolved (g : FactorGraph V) : Prop where
  finalized : g.finalized = true
  nodup : g.order.Nodup
  perm : g.order.Perm g.definitions.keys
  topological : g.Topological g.order

theorem FactorGraph.finalize_resolved {g g' : FactorGraph V} (hfinal : g.finalize = (.ok true, g')) :
    g'.Resolved ∧ g'.definitions = g.definitions := by
  obtain ⟨hdone, hready⟩ := g.settling_initial.resolve g.definitions.size (by simp)
  rw [finalize] at hfinal
  split at hfinal
  · cases hfinal
  next hlength =>
    cases hfinal
    have hnodup := hdone.nodup
    rw [hready, List.append_nil] at hnodup
    refine ⟨⟨rfl, hnodup, ?_, hdone.topological⟩, rfl⟩
    refine (List.subperm_of_subset hnodup fun name hname => ?_).perm_of_length_le ?_
    · obtain ⟨f, hf, _⟩ := hdone.settled name (List.mem_append_left _ hname)
      exact TreeMap.mem_keys.mpr (TreeMap.mem_iff_isSome_getElem?.mpr (by rw [hf]; rfl))
    · rw [TreeMap.length_keys]
      exact (not_not.mp hlength).ge

end ptl.features
