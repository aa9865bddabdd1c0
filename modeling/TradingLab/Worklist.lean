import Mathlib.Data.List.Nodup
import Mathlib.Data.List.Perm.Subperm
import Mathlib.Logic.Relation

/-! A stack of names whose users are still to be found. -/

namespace Worklist

variable {A : Type*} [DecidableEq A] (names : List A) (uses : A → A → Bool)

/-- The users of a name that were not found before. -/
def fresh (found : List A) (current : A) : List A :=
  names.filter fun other => other ∉ found ∧ uses other current

/-- Pop a name, push its users, until the stack is empty. -/
def closure : Nat → List A → List A → List A
  | 0, found, _ => found
  | _ + 1, found, [] => found
  | fuel + 1, found, current :: rest =>
    closure fuel (found ++ fresh names uses found current) ((fresh names uses found current).reverse ++ rest)

/-- One name uses another, and is one of the names looked through. -/
def User (a b : A) : Prop := b ∈ names ∧ uses b a = true

variable {names uses}

theorem mem_fresh {found : List A} {current other : A} :
    other ∈ fresh names uses found current ↔ User names uses current other ∧ other ∉ found := by
  rw [fresh, List.mem_filter, decide_eq_true_iff, User]
  tauto

variable (names uses)

/-- What holds before each turn. Every name found was pushed once and the stack
    holds those not yet popped, so the names bound the turns. -/
structure Closing (start : A) (popped found stack : List A) : Prop where
  covered : ∀ a ∈ popped, ∀ b, User names uses a b → b ∈ found
  pending : ∀ a, a = start ∨ a ∈ found → a ∈ popped ∨ a ∈ stack
  sound : ∀ a ∈ found, Relation.TransGen (User names uses) start a
  pushed : ∀ a ∈ stack, a = start ∨ a ∈ found
  nodup : found.Nodup
  known : found ⊆ names
  room : popped.length + stack.length = found.length + 1

variable {names uses}

omit [DecidableEq A] in
theorem Closing.initial (start : A) : Closing names uses start [] [] [start] where
  covered := by simp
  pending := by simp
  sound := by simp
  pushed := by simp
  nodup := .nil
  known := by simp
  room := rfl

theorem Closing.pop {start current : A} {popped found rest : List A} (hnames : names.Nodup)
    (hclosing : Closing names uses start popped found (current :: rest)) :
    Closing names uses start (current :: popped) (found ++ fresh names uses found current)
      ((fresh names uses found current).reverse ++ rest) where
  covered := by
    intro a ha b huser
    rw [List.mem_append, mem_fresh]
    by_cases hfound : b ∈ found
    · exact .inl hfound
    obtain rfl | ha := List.mem_cons.mp ha
    · exact .inr ⟨huser, hfound⟩
    · exact .inl (hclosing.covered a ha b huser)
  pending := by
    intro a ha
    rw [List.mem_append] at ha
    rw [List.mem_cons, List.mem_append, List.mem_reverse]
    by_cases hfresh : a ∈ fresh names uses found current
    · exact .inr (.inl hfresh)
    have hbefore := hclosing.pending a (by tauto)
    rw [List.mem_cons] at hbefore
    tauto
  sound := by
    intro a ha
    obtain ha | ha := List.mem_append.mp ha
    · exact hclosing.sound a ha
    have huser := (mem_fresh.mp ha).1
    obtain rfl | hcurrent := hclosing.pushed current List.mem_cons_self
    · exact .single huser
    · exact (hclosing.sound current hcurrent).tail huser
  pushed := by
    intro a ha
    rw [List.mem_append, List.mem_reverse] at ha
    rw [List.mem_append]
    obtain ha | ha := ha
    · exact .inr (.inr ha)
    · have hbefore := hclosing.pushed a (List.mem_cons_of_mem _ ha)
      tauto
  nodup := by
    refine List.Nodup.append hclosing.nodup (hnames.filter _) fun a ha hfresh => ?_
    exact (mem_fresh.mp hfresh).2 ha
  known := List.append_subset.mpr ⟨hclosing.known, List.filter_subset_self _⟩
  room := by
    have hroom := hclosing.room
    simp only [List.length_cons, List.length_append, List.length_reverse] at hroom ⊢
    omega

/-- A run whose fuel reaches the number of names ends with an empty stack. -/
theorem Closing.run (uses : A → A → Bool) {start : A} (hnames : names.Nodup) (fuel : Nat) {popped found stack : List A}
    (hclosing : Closing names uses start popped found stack) (hfuel : names.length + 1 ≤ popped.length + fuel) :
    ∃ popped', Closing names uses start popped' (closure names uses fuel found stack) [] := by
  induction fuel generalizing popped found stack with
  | zero =>
    have hroom := hclosing.room
    have hbound := (List.subperm_of_subset hclosing.nodup hclosing.known).length_le
    have hempty : stack = [] := List.eq_nil_of_length_eq_zero (by omega)
    subst hempty
    exact ⟨popped, hclosing⟩
  | succ fuel ih =>
    cases stack with
    | nil => exact ⟨popped, hclosing⟩
    | cons current rest =>
      refine ih (hclosing.pop hnames) ?_
      rw [List.length_cons]
      omega

/-- The names found are the transitive users of the first one. -/
theorem mem_closure {start : A} (hnames : names.Nodup) {a : A} :
    a ∈ closure names uses (names.length + 1) [] [start] ↔
      Relation.TransGen (User names uses) start a := by
  obtain ⟨popped, hdone⟩ := (Closing.initial start).run uses hnames (names.length + 1) (by simp)
  refine ⟨hdone.sound a, fun hpath => ?_⟩
  have hpopped : ∀ {b : A}, b = start ∨ b ∈ closure names uses (names.length + 1) [] [start] → b ∈ popped :=
    fun hb => (hdone.pending _ hb).resolve_right List.not_mem_nil
  induction hpath with
  | single huser => exact hdone.covered start (hpopped (.inl rfl)) _ huser
  | tail _ huser ih => exact hdone.covered _ (hpopped (.inr ih)) _ huser

end Worklist
