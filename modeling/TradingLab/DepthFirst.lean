import Mathlib.Algebra.GroupWithZero.Nat
import Mathlib.Algebra.Order.BigOperators.Group.Finset
import Mathlib.Data.List.Nodup
import Mathlib.Logic.Function.Basic
import Mathlib.Logic.Relation
import TradingLab.Driver

/-! A depth-first search with an explicit stack, which lists each node after
those it depends on, and stops at a cycle or at a node that is unknown. -/

namespace DepthFirst

open Relation (ReflTransGen TransGen)

inductive Mark where
  | unseen
  | visiting
  | done
  deriving DecidableEq, Repr

/-- A node on the stack, and what it depends on that was not looked at yet. -/
structure Frame (A : Type*) where
  node : A
  rest : List A

/-- The top of the stack is the head of the list. -/
structure Search (A : Type*) where
  stack : List (Frame A)
  mark : A → Mark
  ordered : List A

inductive Failure (A : Type*) where
  | cycle (a : A)
  | unresolved (a : A)

variable {A : Type*} [DecidableEq A] (deps : A → Option (List A))

/-- One turn of the loop, while the stack is not empty. -/
def turn (s : Search A) : Except (Failure A) (Option (Search A)) :=
  match s.stack with
  | [] => .ok none
  | ⟨a, b :: rest⟩ :: below =>
    match s.mark b with
    | .visiting => .error (.cycle b)
    | .done => .ok (some { s with stack := ⟨a, rest⟩ :: below })
    | .unseen =>
      match deps b with
      | none => .error (.unresolved b)
      | some ds =>
        .ok (some { s with stack := ⟨b, ds⟩ :: ⟨a, rest⟩ :: below, mark := Function.update s.mark b .visiting })
  | ⟨a, []⟩ :: below =>
    .ok (some ⟨below, Function.update s.mark a .done, s.ordered ++ [a]⟩)

/-- The search from a node with the given dependencies. -/
def start (root : A) (ds : List A) : Search A where
  stack := [⟨root, ds⟩]
  mark := Function.update (fun _ => .unseen) root .visiting
  ordered := []

/-- `a` depends on `b`. -/
def Edge (a b : A) : Prop := ∃ ds, deps a = some ds ∧ b ∈ ds

/-- Every node of a list comes after all it depends on. -/
def Topological (order : List A) : Prop :=
  ∀ before a, before ++ [a] <+: order → ∀ b, Edge deps a b → b ∈ before

variable {deps}

omit [DecidableEq A] in
theorem Topological.nil : Topological deps ([] : List A) := by
  intro before a hprefixed
  have hlength := hprefixed.length_le
  rw [List.length_append, List.length_singleton, List.length_nil] at hlength
  omega

omit [DecidableEq A] in
theorem Topological.snoc {order : List A} {a : A} (horder : Topological deps order)
    (hdeps : ∀ b, Edge deps a b → b ∈ order) : Topological deps (order ++ [a]) := by
  intro before c hprefixed
  obtain heq | hbefore := List.prefix_concat_iff.mp hprefixed
  · obtain ⟨rfl, hlast⟩ := List.append_inj' heq rfl
    obtain rfl := List.singleton_inj.mp hlast
    exact hdeps
  · exact horder before c hbefore

omit [DecidableEq A] in
/-- Whatever a node of the list depends on, directly or not, comes before it. -/
theorem Topological.mem_before {order before : List A} {a b : A} (horder : Topological deps order)
    (hpath : TransGen (Edge deps) a b) (hprefixed : before ++ [a] <+: order) : b ∈ before := by
  induction hpath with
  | single hedge => exact horder before a hprefixed _ hedge
  | @tail b c _ hedge ih =>
    obtain ⟨front, back, rfl⟩ := List.append_of_mem ih
    have hshorter : front ++ [b] <+: order := by
      exact List.IsPrefix.trans ⟨back ++ [a], by simp⟩ hprefixed
    exact List.mem_append_left _ (horder front b hshorter c hedge)

omit [DecidableEq A] in
/-- No node of a list without duplicates is on a cycle. -/
theorem Topological.acyclic {order : List A} {a : A} (horder : Topological deps order)
    (hnodup : order.Nodup) (hmem : a ∈ order) : ¬ TransGen (Edge deps) a a := by
  intro hcycle
  obtain ⟨front, back, rfl⟩ := List.append_of_mem hmem
  have hprefixed : front ++ [a] <+: front ++ a :: back := ⟨back, by simp⟩
  have hbefore := horder.mem_before hcycle hprefixed
  exact (List.nodup_append.mp hnodup).2.2 a hbefore a List.mem_cons_self rfl

/-! ### A turn -/

variable (deps)

/-- What a turn can come to. -/
inductive Turned : Search A → Except (Failure A) (Option (Search A)) → Prop
  | ended {mark : A → Mark} {ordered : List A} : Turned ⟨[], mark, ordered⟩ (.ok none)
  | cycle {a b : A} {rest : List A} {below : List (Frame A)} {mark : A → Mark} {ordered : List A}
      (visiting : mark b = .visiting) :
      Turned ⟨⟨a, b :: rest⟩ :: below, mark, ordered⟩ (.error (.cycle b))
  | skip {a b : A} {rest : List A} {below : List (Frame A)} {mark : A → Mark} {ordered : List A}
      (done : mark b = .done) :
      Turned ⟨⟨a, b :: rest⟩ :: below, mark, ordered⟩ (.ok (some ⟨⟨a, rest⟩ :: below, mark, ordered⟩))
  | unresolved {a b : A} {rest : List A} {below : List (Frame A)} {mark : A → Mark} {ordered : List A}
      (unseen : mark b = .unseen) (unknown : deps b = none) :
      Turned ⟨⟨a, b :: rest⟩ :: below, mark, ordered⟩ (.error (.unresolved b))
  | push {a b : A} {rest ds : List A} {below : List (Frame A)} {mark : A → Mark} {ordered : List A}
      (unseen : mark b = .unseen) (known : deps b = some ds) :
      Turned ⟨⟨a, b :: rest⟩ :: below, mark, ordered⟩
        (.ok (some ⟨⟨b, ds⟩ :: ⟨a, rest⟩ :: below, Function.update mark b .visiting, ordered⟩))
  | pop {a : A} {below : List (Frame A)} {mark : A → Mark} {ordered : List A} :
      Turned ⟨⟨a, []⟩ :: below, mark, ordered⟩
        (.ok (some ⟨below, Function.update mark a .done, ordered ++ [a]⟩))

theorem turned (s : Search A) : Turned deps s (turn deps s) := by
  obtain ⟨stack, mark, ordered⟩ := s
  match stack with
  | [] => exact .ended
  | ⟨a, []⟩ :: below => exact .pop
  | ⟨a, b :: rest⟩ :: below =>
    cases hmark : mark b with
    | visiting =>
      simp only [turn, hmark]
      exact .cycle hmark
    | done =>
      simp only [turn, hmark]
      exact .skip hmark
    | unseen =>
      cases hb : deps b with
      | none =>
        simp only [turn, hmark, hb]
        exact .unresolved hmark hb
      | some ds =>
        simp only [turn, hmark, hb]
        exact .push hmark hb

variable {deps}

theorem Turned.of_turn {s : Search A} {r : Except (Failure A) (Option (Search A))}
    (hturn : turn deps s = r) : Turned deps s r := by
  rw [← hturn]
  exact turned deps s

/-! ### The invariant -/

variable (deps)

/-- What each node of the stack has looked at is done, but for the node above it,
which it is waiting for. -/
def Looked (ordered : List A) : List A → List (Frame A) → Prop
  | _, [] => True
  | above, f :: below =>
    (∃ seen, deps f.node = some (seen ++ f.rest) ∧ ∀ b ∈ seen, b ∈ ordered ∨ b ∈ above) ∧
      Looked ordered [f.node] below

/-- What holds before each turn of a search from `root`. -/
structure Searching (root : A) (s : Search A) : Prop where
  visiting : ∀ a, s.mark a = .visiting ↔ a ∈ s.stack.map Frame.node
  done : ∀ a, s.mark a = .done ↔ a ∈ s.ordered
  single : (s.stack.map Frame.node).Nodup
  path : (s.stack.map Frame.node).IsChain fun a b => Edge deps b a
  bottom : ∀ a ∈ (s.stack.map Frame.node).getLast?, a = root
  finished : s.stack = [] → s.ordered.getLast? = some root
  looked : Looked deps s.ordered [] s.stack
  topological : Topological deps s.ordered
  reached : ∀ a ∈ s.stack.map Frame.node ++ s.ordered, ReflTransGen (Edge deps) root a
  resolved : ∀ a ∈ s.ordered, (deps a).isSome
  distinct : s.ordered.Nodup

variable {deps}

omit [DecidableEq A] in
theorem Looked.mono {ordered more above : List A} {stack : List (Frame A)}
    (hlooked : Looked deps ordered above stack) : Looked deps (ordered ++ more) above stack := by
  induction stack generalizing above with
  | nil => trivial
  | cons f below ih =>
    obtain ⟨⟨seen, hdeps, hseen⟩, hbelow⟩ := hlooked
    exact ⟨⟨seen, hdeps, fun b hb => (hseen b hb).imp_left (List.mem_append_left more)⟩, ih hbelow⟩

theorem Searching.initial {root : A} {ds : List A} (hroot : deps root = some ds) :
    Searching deps root (start root ds) where
  visiting := by
    intro a
    by_cases ha : a = root
    · simp [start, ha]
    · simp [start, ha]
  done := by
    intro a
    by_cases ha : a = root
    · simp [start, ha]
    · simp [start, ha]
  single := by simp [start]
  path := by simp [start]
  bottom := by simp [start]
  finished := by simp [start]
  looked := ⟨⟨[], by simpa using hroot, by simp⟩, trivial⟩
  topological := Topological.nil
  reached := by
    intro a ha
    obtain rfl : a = root := by simpa [start] using ha
    exact .refl
  resolved := by simp [start]
  distinct := .nil

omit [DecidableEq A] in
/-- A dependency that is done is passed over. -/
theorem Searching.skip {root a b : A} {rest : List A} {below : List (Frame A)} {mark : A → Mark}
    {ordered : List A} (hs : Searching deps root ⟨⟨a, b :: rest⟩ :: below, mark, ordered⟩)
    (hdone : mark b = .done) : Searching deps root ⟨⟨a, rest⟩ :: below, mark, ordered⟩ where
  visiting := hs.visiting
  done := hs.done
  single := hs.single
  path := hs.path
  bottom := hs.bottom
  finished := by
    intro hempty
    cases hempty
  looked := by
    obtain ⟨⟨seen, hdeps, hseen⟩, hbelow⟩ := hs.looked
    refine ⟨⟨seen ++ [b], by simpa using hdeps, fun c hc => ?_⟩, hbelow⟩
    obtain hc | hc := List.mem_append.mp hc
    · exact hseen c hc
    · rw [List.mem_singleton.mp hc]
      exact .inl ((hs.done b).mp hdone)
  topological := hs.topological
  reached := hs.reached
  resolved := hs.resolved
  distinct := hs.distinct

omit [DecidableEq A] in
/-- The next dependency of the top of the stack is one. -/
theorem Looked.edge {ordered above rest : List A} {a b : A} {below : List (Frame A)}
    (hlooked : Looked deps ordered above (⟨a, b :: rest⟩ :: below)) : Edge deps a b := by
  obtain ⟨⟨seen, hdeps, _⟩, _⟩ := hlooked
  exact ⟨_, hdeps, by simp⟩

/-- A dependency that was not seen goes on the stack. -/
theorem Searching.push {root a b : A} {rest ds : List A} {below : List (Frame A)} {mark : A → Mark}
    {ordered : List A} (hs : Searching deps root ⟨⟨a, b :: rest⟩ :: below, mark, ordered⟩)
    (hunseen : mark b = .unseen) (hb : deps b = some ds) :
    Searching deps root
      ⟨⟨b, ds⟩ :: ⟨a, rest⟩ :: below, Function.update mark b .visiting, ordered⟩ where
  visiting := by
    intro c
    by_cases hc : c = b
    · simp [hc]
    · have hvisiting := hs.visiting c
      simp only [List.map_cons, List.mem_cons] at hvisiting
      simp only [Function.update_of_ne hc, hvisiting, List.map_cons, List.mem_cons, hc, false_or]
  done := by
    intro c
    change Function.update mark b .visiting c = .done ↔ c ∈ ordered
    by_cases hc : c = b
    · have hnot : b ∉ ordered := fun hmem => by
        have hdone : mark b = .done := (hs.done b).mpr hmem
        rw [hdone] at hunseen
        cases hunseen
      simp [hc, hnot]
    · rw [Function.update_of_ne hc]
      exact hs.done c
  single := by
    refine List.nodup_cons.mpr ⟨fun hmem => ?_, hs.single⟩
    have hvisiting : mark b = .visiting := (hs.visiting b).mpr hmem
    rw [hvisiting] at hunseen
    cases hunseen
  path := by
    rw [List.map_cons, List.map_cons, List.isChain_cons_cons]
    exact ⟨hs.looked.edge, hs.path⟩
  bottom := by
    rw [List.map_cons, List.map_cons, List.getLast?_cons_cons]
    exact hs.bottom
  finished := by
    intro hempty
    cases hempty
  looked := by
    obtain ⟨⟨seen, hdeps, hseen⟩, hbelow⟩ := hs.looked
    refine ⟨⟨[], hb, by simp⟩, ⟨seen ++ [b], by simpa using hdeps, fun c hc => ?_⟩, hbelow⟩
    obtain hc | hc := List.mem_append.mp hc
    · exact .inl ((hseen c hc).resolve_right List.not_mem_nil)
    · exact .inr hc
  topological := hs.topological
  reached := by
    intro c hc
    rw [List.map_cons, List.cons_append, List.mem_cons] at hc
    rcases hc with rfl | hc
    · exact (hs.reached a (by simp)).tail hs.looked.edge
    · exact hs.reached c hc
  resolved := hs.resolved
  distinct := hs.distinct

/-- A node all of whose dependencies are done is done. -/
theorem Searching.pop {root a : A} {below : List (Frame A)} {mark : A → Mark} {ordered : List A}
    (hs : Searching deps root ⟨⟨a, []⟩ :: below, mark, ordered⟩) :
    Searching deps root ⟨below, Function.update mark a .done, ordered ++ [a]⟩ where
  visiting := by
    intro c
    change Function.update mark a .done c = .visiting ↔ c ∈ below.map Frame.node
    by_cases hc : c = a
    · have hfresh : a ∉ below.map Frame.node := (List.nodup_cons.mp hs.single).1
      simp only [hc, Function.update_self, hfresh]
      simp
    · have hvisiting := hs.visiting c
      simp only [List.map_cons, List.mem_cons, hc, false_or] at hvisiting
      rw [Function.update_of_ne hc]
      exact hvisiting
  done := by
    intro c
    change Function.update mark a .done c = .done ↔ c ∈ ordered ++ [a]
    by_cases hc : c = a
    · simp [hc]
    · rw [Function.update_of_ne hc, List.mem_append, List.mem_singleton]
      simpa [hc] using hs.done c
  single := hs.single.tail
  path := hs.path.tail
  bottom := by
    intro c hc
    refine hs.bottom c ?_
    cases below with
    | nil => cases hc
    | cons f below => simpa using hc
  finished := by
    rintro rfl
    rw [List.getLast?_append, List.getLast?_singleton]
    exact congrArg some (hs.bottom a (by simp))
  looked := by
    obtain ⟨_, hbelow⟩ := hs.looked
    cases below with
    | nil => trivial
    | cons f below =>
      obtain ⟨⟨seen, hdeps, hseen⟩, hrest⟩ := hbelow
      refine ⟨⟨seen, hdeps, fun b hb => .inl ?_⟩, hrest.mono⟩
      rw [List.mem_append]
      exact hseen b hb
  topological := by
    obtain ⟨⟨seen, hdeps, hseen⟩, _⟩ := hs.looked
    refine hs.topological.snoc fun b hedge => ?_
    obtain ⟨ds, hds, hb⟩ := hedge
    rw [hdeps, List.append_nil, Option.some.injEq] at hds
    subst hds
    exact (hseen b hb).resolve_right List.not_mem_nil
  reached := by
    intro c hc
    refine hs.reached c ?_
    simp only [List.map_cons, List.cons_append, List.mem_cons, List.mem_append, List.not_mem_nil,
      or_false] at hc ⊢
    tauto
  resolved := by
    intro c hc
    obtain hc | hc := List.mem_append.mp hc
    · exact hs.resolved c hc
    · obtain ⟨⟨seen, hdeps, _⟩, _⟩ := hs.looked
      rw [List.mem_singleton.mp hc, hdeps]
      rfl
  distinct := by
    have hnot : a ∉ ordered := fun hmem => by
      have hvisiting := (hs.visiting a).mpr (by simp)
      have hdone := (hs.done a).mpr hmem
      rw [hvisiting] at hdone
      cases hdone
    exact hs.distinct.append (List.nodup_singleton a) (by simpa using hnot)

/-- A turn keeps the invariant. -/
theorem Searching.turn {root : A} {s t : Search A} (hs : Searching deps root s)
    (hturn : DepthFirst.turn deps s = .ok (some t)) : Searching deps root t := by
  cases Turned.of_turn hturn with
  | skip done => exact hs.skip done
  | push unseen known => exact hs.push unseen known
  | pop => exact hs.pop

omit [DecidableEq A] in
/-- Along the stack each node leads to those above it. -/
theorem Searching.leads {root a b : A} {s : Search A} {above : List (Frame A)}
    (hs : Searching deps root s) {rest : List A} (hstack : s.stack = ⟨a, rest⟩ :: above)
    (hb : b ∈ s.stack.map Frame.node) : ReflTransGen (Edge deps) b a := by
  have hpath := hs.path
  rw [hstack, List.map_cons] at hpath hb
  obtain rfl | hb := List.mem_cons.mp hb
  · exact .refl
  · have hchain : (a :: above.map Frame.node).IsChain fun x y => ReflTransGen (Edge deps) y x :=
      hpath.imp fun _ _ hedge => .single hedge
    have htrans : IsTrans A fun x y => ReflTransGen (Edge deps) y x := ⟨fun _ _ _ hxy hyz => hyz.trans hxy⟩
    exact List.rel_of_pairwise_cons (List.isChain_iff_pairwise.mp hchain) hb

/-- A failure names a node on a cycle, or one that is unknown. -/
inductive Failure.Explains (deps : A → Option (List A)) (root : A) : Failure A → Prop
  | cycle {a : A} (reached : ReflTransGen (Edge deps) root a) (cyclic : TransGen (Edge deps) a a) :
      Explains deps root (.cycle a)
  | unresolved {a : A} (reached : ReflTransGen (Edge deps) root a) (unknown : deps a = none) :
      Explains deps root (.unresolved a)

theorem Searching.fail {root : A} {s : Search A} {f : Failure A} (hs : Searching deps root s)
    (hturn : DepthFirst.turn deps s = .error f) : f.Explains deps root := by
  cases Turned.of_turn hturn with
  | @cycle a b _ _ _ _ visiting =>
    have hreached : ReflTransGen (Edge deps) root b := (hs.reached a (by simp)).tail hs.looked.edge
    have hback := hs.leads rfl ((hs.visiting b).mp visiting)
    exact .cycle hreached (.tail' hback hs.looked.edge)
  | @unresolved a _ _ _ _ _ _ unknown =>
    exact .unresolved ((hs.reached a (by simp)).tail hs.looked.edge) unknown

/-! ### The end of a search -/

section Work

variable (deps) (known : Finset A)

/-- What a node costs: its frame, and the turns that look at what it depends on. -/
def weight (a : A) : Nat := ((deps a).elim 0 List.length) + 2

/-- What is left to do: the nodes not seen, and what the stack has not looked at. -/
def work (s : Search A) : Nat :=
  ∑ a ∈ known.filter (fun a => s.mark a = .unseen), weight deps a +
    (s.stack.map fun f => f.rest.length + 1).sum

variable {deps known}

/-- A node that is marked and was not seen is one node less to see. -/
theorem unseen_of_push (known : Finset A) (mark : A → Mark) (b : A) :
    known.filter (fun a => Function.update mark b .visiting a = .unseen) =
      (known.filter (fun a => mark a = .unseen)).erase b := by
  ext c
  simp only [Finset.mem_filter, Finset.mem_erase]
  by_cases hc : c = b
  · simp [hc]
  · simp [hc]

/-- A node that is done is not to be seen. -/
theorem unseen_of_pop (known : Finset A) (mark : A → Mark) (a : A) :
    known.filter (fun c => Function.update mark a .done c = .unseen) ⊆
      known.filter (fun c => mark c = .unseen) := by
  intro c hc
  obtain ⟨hmem, hmark⟩ := Finset.mem_filter.mp hc
  refine Finset.mem_filter.mpr ⟨hmem, ?_⟩
  by_cases hca : c = a
  · simp [hca] at hmark
  · rwa [Function.update_of_ne hca] at hmark

theorem turn_work (hknown : ∀ a, (deps a).isSome → a ∈ known) {s t : Search A}
    (hturn : DepthFirst.turn deps s = .ok (some t)) : work deps known t < work deps known s := by
  cases Turned.of_turn hturn with
  | skip done =>
    simp only [work, List.map_cons, List.sum_cons, List.length_cons]
    omega
  | @push _ b _ ds _ mark _ unseen hb =>
    have hunseen : b ∈ known.filter (fun a => mark a = .unseen) :=
      Finset.mem_filter.mpr ⟨hknown b (by rw [hb]; rfl), unseen⟩
    have hsum := Finset.add_sum_erase _ (weight deps) hunseen
    have hweight : weight deps b = ds.length + 2 := by simp [weight, hb]
    simp only [work, unseen_of_push, List.map_cons, List.sum_cons, List.length_cons]
    omega
  | @pop a _ mark =>
    have hsum := Finset.sum_le_sum_of_subset (f := weight deps) (unseen_of_pop known mark a)
    simp only [work, List.map_cons, List.sum_cons, List.length_nil]
    omega

end Work

/-- The list of a search that ends well: what can be reached, each node once and
after all it depends on, the root last. -/
structure Resolved (deps : A → Option (List A)) (root : A) (order : List A) : Prop where
  distinct : order.Nodup
  mem_iff : ∀ a, a ∈ order ↔ ReflTransGen (Edge deps) root a
  topological : Topological deps order
  last : order.getLast? = some root
  resolved : ∀ a ∈ order, (deps a).isSome

/-- Every node that can be reached is known, and on no cycle. -/
def Sound (deps : A → Option (List A)) (root : A) : Prop :=
  ∀ a, ReflTransGen (Edge deps) root a → (deps a).isSome ∧ ¬ TransGen (Edge deps) a a

omit [DecidableEq A] in
theorem Resolved.sound {root : A} {order : List A} (hresolved : Resolved deps root order) :
    Sound deps root := by
  intro a hreached
  have hmem := (hresolved.mem_iff a).mpr hreached
  exact ⟨hresolved.resolved a hmem, hresolved.topological.acyclic hresolved.distinct hmem⟩

omit [DecidableEq A] in
theorem Failure.Explains.not_sound {root : A} {f : Failure A} (hexplains : f.Explains deps root) :
    ¬ Sound deps root := by
  intro hsound
  cases hexplains with
  | cycle reached cyclic => exact (hsound _ reached).2 cyclic
  | unresolved reached unknown =>
    have hknown := (hsound _ reached).1
    rw [unknown] at hknown
    cases hknown

omit [DecidableEq A] in
/-- With an empty stack the list is what a search is for. -/
theorem Searching.resolve {root : A} {s : Search A} (hs : Searching deps root s)
    (hempty : s.stack = []) : Resolved deps root s.ordered where
  distinct := hs.distinct
  mem_iff := by
    intro a
    constructor
    · exact fun hmem => hs.reached a (List.mem_append_right _ hmem)
    · intro hreached
      induction hreached with
      | refl => exact List.mem_of_getLast? (hs.finished hempty)
      | tail _ hedge ih =>
        obtain ⟨front, back, hsplit⟩ := List.append_of_mem ih
        have hbefore := hs.topological front _ ⟨back, by rw [hsplit]; simp⟩ _ hedge
        rw [hsplit]
        exact List.mem_append_left _ hbefore
  topological := hs.topological
  last := hs.finished hempty
  resolved := hs.resolved

theorem turn_none {s : Search A} (hturn : DepthFirst.turn deps s = .ok none) : s.stack = [] := by
  cases Turned.of_turn hturn with
  | ended => rfl

/-- A run of a search that ends well gives what it is for. -/
theorem resolved_of_drains {root : A} {ds : List A} {s : Search A} (hroot : deps root = some ds)
    (hdrains : Driver.Drains (DepthFirst.turn deps) (start root ds) (.ok s)) :
    Resolved deps root s.ordered := by
  obtain ⟨hs, hend⟩ := hdrains.invariant (fun _ _ hs hturn => hs.turn hturn) (Searching.initial hroot)
  exact hs.resolve (turn_none hend)

/-- A run that fails has found why. -/
theorem explains_of_drains {root : A} {ds : List A} {f : Failure A} (hroot : deps root = some ds)
    (hdrains : Driver.Drains (DepthFirst.turn deps) (start root ds) (.error f)) : f.Explains deps root := by
  obtain ⟨s, hs, hfail⟩ := hdrains.failure (fun _ _ hs hturn => hs.turn hturn) (Searching.initial hroot)
  exact hs.fail hfail

end DepthFirst
