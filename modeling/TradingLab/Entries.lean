import Mathlib.Data.List.Basic
import Mathlib.Tactic.Common

/-! Labelled entries run together into one text, and when it can be read in one way only. -/

namespace Entries

variable {A : Type*} {equals stop : A}

/-- A part up to the first mark that ends it. -/
theorem append_cons_inj {mark : A} {a a' rest rest' : List A} (ha : mark ∉ a) (ha' : mark ∉ a')
    (heq : a ++ mark :: rest = a' ++ mark :: rest') : a = a' ∧ rest = rest' := by
  induction a generalizing a' with
  | nil =>
    cases a' with
    | nil => exact ⟨rfl, (List.cons.inj heq).2⟩
    | cons b a' => exact absurd (List.cons.inj heq).1 fun hmark => ha' (hmark ▸ List.mem_cons_self)
  | cons b a ih =>
    cases a' with
    | nil => exact absurd (List.cons.inj heq).1 fun hmark => ha (hmark ▸ List.mem_cons_self)
    | cons b' a' =>
      obtain ⟨hhead, htail⟩ := List.cons.inj heq
      obtain ⟨hrest, hend⟩ := ih (fun h => ha (List.mem_cons_of_mem _ h))
        (fun h => ha' (List.mem_cons_of_mem _ h)) htail
      exact ⟨by rw [hhead, hrest], hend⟩

/-- A label, a mark, a text and a mark. -/
def entry (equals stop : A) (e : List A × List A) : List A := e.1 ++ equals :: (e.2 ++ [stop])

/-- Entries one after the other. -/
def written (equals stop : A) (es : List (List A × List A)) : List A := es.flatMap (entry equals stop)

theorem written_cons (e : List A × List A) (es : List (List A × List A)) :
    written equals stop (e :: es) = e.1 ++ equals :: (e.2 ++ stop :: written equals stop es) := by
  simp [written, entry]

/-- Labels are free of the mark that ends them, and texts of theirs. -/
def ForwardFree (equals stop : A) (es : List (List A × List A)) : Prop :=
  ∀ e ∈ es, equals ∉ e.1 ∧ stop ∉ e.2

theorem written_inj_forward {es es' : List (List A × List A)} (hes : ForwardFree equals stop es)
    (hes' : ForwardFree equals stop es') (heq : written equals stop es = written equals stop es') : es = es' := by
  induction es generalizing es' with
  | nil =>
    cases es' with
    | nil => rfl
    | cons e' es' =>
      rw [written_cons] at heq
      exact absurd heq.symm (by simp [written])
  | cons e es ih =>
    cases es' with
    | nil =>
      rw [written_cons] at heq
      exact absurd heq (by simp [written])
    | cons e' es' =>
      obtain ⟨hlabel, htext⟩ := hes e List.mem_cons_self
      obtain ⟨hlabel', htext'⟩ := hes' e' List.mem_cons_self
      rw [written_cons, written_cons] at heq
      obtain ⟨hfirst, hafter⟩ := append_cons_inj hlabel hlabel' heq
      obtain ⟨hsecond, hrest⟩ := append_cons_inj htext htext' hafter
      have hes := ih (fun x hx => hes x (List.mem_cons_of_mem _ hx))
        (fun x hx => hes' x (List.mem_cons_of_mem _ hx)) hrest
      rw [hes, Prod.ext hfirst hsecond]

/-! ### Read from the end -/

/-- Read from the end, texts come before their labels. -/
def turned (es : List (List A × List A)) : List (List A × List A) :=
  (es.map fun e => (e.2.reverse, e.1.reverse)).reverse

theorem turned_inj {es es' : List (List A × List A)} (heq : turned es = turned es') : es = es' := by
  have hmap := List.reverse_injective heq
  refine List.map_injective_iff.mpr (fun e e' hturned => ?_) hmap
  obtain ⟨htext, hlabel⟩ := Prod.mk.inj hturned
  exact Prod.ext (List.reverse_injective hlabel) (List.reverse_injective htext)

theorem written_turned (es : List (List A × List A)) :
    stop :: written equals stop (turned es) = (written equals stop es).reverse ++ [stop] := by
  induction es with
  | nil => rfl
  | cons e es ih =>
    have hturned : turned (e :: es) = turned es ++ [(e.2.reverse, e.1.reverse)] := by simp [turned]
    have hlast : written equals stop (turned es ++ [(e.2.reverse, e.1.reverse)]) =
        written equals stop (turned es) ++ entry equals stop (e.2.reverse, e.1.reverse) := by
      simp [written]
    rw [hturned, hlast, ← List.cons_append, ih, written_cons]
    simp [entry]

/-- Texts free of the mark before them, and labels of the mark that ends a text: the
entries can be read from the end. -/
def BackwardFree (equals stop : A) (es : List (List A × List A)) : Prop :=
  ∀ e ∈ es, stop ∉ e.1 ∧ equals ∉ e.2

theorem written_inj_backward {es es' : List (List A × List A)} (hes : BackwardFree equals stop es)
    (hes' : BackwardFree equals stop es') (heq : written equals stop es = written equals stop es') : es = es' := by
  have hforward : ∀ {es : List (List A × List A)}, BackwardFree equals stop es →
      ForwardFree equals stop (turned es) := by
    intro es hes e he
    obtain ⟨original, horiginal, rfl⟩ := List.mem_map.mp (List.mem_reverse.mp he)
    obtain ⟨hlabel, htext⟩ := hes original horiginal
    exact ⟨by simpa using htext, by simpa using hlabel⟩
  have hturned : stop :: written equals stop (turned es) = stop :: written equals stop (turned es') := by
    rw [written_turned, written_turned, heq]
  exact turned_inj (written_inj_forward (hforward hes) (hforward hes') (List.cons.inj hturned).2)

end Entries

/-! Values written into one stream, part after part. -/

namespace Feed

variable {A B I : Type*}

/-- Whatever writes the stream of `a` has the identity of `a`. -/
def Identified (feed : A → List B) (identity : A → I) (a : A) : Prop :=
  ∀ a', feed a' = feed a → identity a' = identity a

theorem Identified.not_of_twin {feed : A → List B} {identity : A → I} {a a' : A}
    (hfeed : feed a' = feed a) (hne : identity a' ≠ identity a) : ¬ Identified feed identity a :=
  fun hidentified => hne (hidentified a' hfeed)

/-- Two values whose parts are as long, one by one. -/
def Aligned (parts : A → List (List B)) (a a' : A) : Prop :=
  (parts a).map List.length = (parts a').map List.length

/-- The stream of aligned values shows each of their parts. -/
theorem Aligned.parts_eq {parts : A → List (List B)} {a a' : A} (haligned : Aligned parts a a')
    (hfeed : (parts a).flatten = (parts a').flatten) : parts a = parts a' :=
  List.eq_iff_flatten_eq.mpr ⟨hfeed, haligned⟩

/-- Groups of parts, each with at least one and no two with the same parts, are
read off the parts of a list of known length. -/
theorem flatMap_inj_of_length {f : A → List B} (n : ℕ) (hlength : ∀ a, (f a).length = n)
    (hinj : ∀ a a', f a = f a' → a = a') {as as' : List A} {rest rest' : List B}
    (hcount : as.length = as'.length) (heq : as.flatMap f ++ rest = as'.flatMap f ++ rest') :
    as = as' ∧ rest = rest' := by
  induction as generalizing as' with
  | nil =>
    obtain rfl := List.length_eq_zero_iff.mp hcount.symm
    exact ⟨rfl, heq⟩
  | cons a as ih =>
    cases as' with
    | nil => cases hcount
    | cons a' as' =>
      simp only [List.flatMap_cons, List.append_assoc] at heq
      obtain ⟨hhead, htail⟩ := List.append_inj heq ((hlength a).trans (hlength a').symm)
      obtain ⟨hrest, hend⟩ := ih (Nat.succ.inj hcount) htail
      exact ⟨by rw [hinj a a' hhead, hrest], hend⟩

/-- Two parts that both lack a mark end where it first stands. -/
theorem append_mark_inj {mark : B} {a a' b b' : List B} (hfree : mark ∉ a) (hfree' : mark ∉ a')
    (heq : a ++ mark :: b = a' ++ mark :: b') : a = a' ∧ b = b' := by
  induction a generalizing a' with
  | nil =>
    cases a' with
    | nil => exact ⟨rfl, (List.cons.inj heq).2⟩
    | cons x a' => exact absurd ((List.cons.inj heq).1 ▸ List.mem_cons_self) hfree'
  | cons x a ih =>
    cases a' with
    | nil => exact absurd ((List.cons.inj heq).1 ▸ List.mem_cons_self) hfree
    | cons x' a' =>
      obtain ⟨rfl, hrest⟩ := List.cons.inj heq
      rw [List.mem_cons, not_or] at hfree hfree'
      obtain ⟨rfl, rfl⟩ := ih hfree.2 hfree'.2 hrest
      exact ⟨rfl, rfl⟩

end Feed
