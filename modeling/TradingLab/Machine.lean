import Mathlib.Logic.Basic

/-- A machine: where it may start, and a step that may refuse a label. Refusal
is how a run ends, so a refused step has no successor. -/
structure Machine (S L : Type*) where
  Init : S → Prop
  step : S → L → Option S

namespace Machine

variable {S L : Type*} (M : Machine S L)

/-- States reached from a start by steps that all satisfy the guard. -/
inductive Reaches (G : S → L → Prop) : S → Prop where
  | init {s : S} (hinit : M.Init s) : Reaches G s
  | step {s t : S} {l : L} (hreach : Reaches G s) (hguard : G s l)
      (hstep : M.step s l = some t) : Reaches G t

/-- States reached by any steps at all. -/
abbrev Reachable : S → Prop :=
  M.Reaches fun _ _ => True

variable {M}

/-- A guard that is weaker wherever the stronger one leads reaches at least as
much. -/
theorem Reaches.mono {G G' : S → L → Prop} (hweaker : ∀ s l, M.Reaches G s → G s l → G' s l) {s : S}
    (hreach : M.Reaches G s) : M.Reaches G' s := by
  induction hreach with
  | init hinit => exact .init hinit
  | step hs hguard hstep ih => exact .step ih (hweaker _ _ hs hguard) hstep

theorem Reaches.reachable {G : S → L → Prop} {s : S} (hreach : M.Reaches G s) :
    M.Reachable s :=
  hreach.mono fun _ _ _ _ => trivial

/-- What holds at every start and survives every guarded step holds of every
state reached. The step may use that its source is itself reached, so an
invariant can rest on one proved before. -/
theorem Reaches.invariant {G : S → L → Prop} {I : S → Prop}
    (hinit : ∀ s, M.Init s → I s)
    (hstep : ∀ s l t, M.Reaches G s → I s → G s l → M.step s l = some t → I t)
    {s : S} (hreach : M.Reaches G s) : I s := by
  induction hreach with
  | init h => exact hinit _ h
  | step hs hguard hs' ih => exact hstep _ _ _ hs ih hguard hs'

/-- A machine that refuses nothing reaches the end of every list of labels. -/
theorem Reaches.foldl {f : S → L → S} (htotal : ∀ s l, M.step s l = some (f s l)) {s : S}
    (hreach : M.Reachable s) (ls : List L) : M.Reachable (ls.foldl f s) := by
  induction ls generalizing s with
  | nil => exact hreach
  | cons l ls ih => exact ih (.step hreach trivial (htotal s l))

/-- Follow a list of labels, stopping at the first refusal. -/
def exec (M : Machine S L) : S → List L → Option S
  | s, [] => some s
  | s, l :: ls =>
    match M.step s l with
    | some t => exec M t ls
    | none => none

/-- Every label of a list meets the guard where it is taken. -/
def Along (M : Machine S L) (G : S → L → Prop) : S → List L → Prop
  | _, [] => True
  | s, l :: ls => G s l ∧ ∀ t ∈ M.step s l, Along M G t ls

instance decidableAlong (M : Machine S L) (G : S → L → Prop) [hdecidable : ∀ s l, Decidable (G s l)] :
    (s : S) → (ls : List L) → Decidable (M.Along G s ls)
  | _, [] => isTrue trivial
  | s, l :: ls =>
    have : ∀ t, Decidable (M.Along G t ls) := fun t => decidableAlong M G t ls
    inferInstanceAs (Decidable (G s l ∧ ∀ t ∈ M.step s l, M.Along G t ls))

theorem Reaches.exec {G : S → L → Prop} {s t : S} {ls : List L} (hreach : M.Reaches G s)
    (halong : M.Along G s ls) (hexec : M.exec s ls = some t) : M.Reaches G t := by
  induction ls generalizing s with
  | nil =>
    cases hexec
    exact hreach
  | cons l ls ih =>
    simp only [Machine.exec] at hexec
    obtain ⟨hguard, hrest⟩ := halong
    cases hstep : M.step s l with
    | none => simp [hstep] at hexec
    | some u =>
      simp only [hstep] at hexec
      exact ih (.step hreach hguard hstep) (hrest u hstep) hexec

/-- What an execution shows of its last state is true of a state reached. -/
theorem Reaches.exec_map {B : Type*} {G : S → L → Prop} {s : S} (hreach : M.Reaches G s)
    (ls : List L) (f : S → B) {b : B} (halong : M.Along G s ls) (hexec : (M.exec s ls).map f = some b) :
    ∃ t, M.Reaches G t ∧ f t = b := by
  obtain ⟨t, ht, rfl⟩ := Option.map_eq_some_iff.mp hexec
  exact ⟨t, hreach.exec halong ht, rfl⟩

theorem along_of_forall {G : S → L → Prop} (hguard : ∀ s l, G s l) (s : S) (ls : List L) :
    M.Along G s ls := by
  induction ls generalizing s with
  | nil => trivial
  | cons l ls ih => exact ⟨hguard s l, fun t _ => ih t⟩

end Machine
