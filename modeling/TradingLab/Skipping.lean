import Mathlib.Data.List.Chain

/-! What stays of a list when some of its entries are passed over: two kept
entries follow each other when nothing between them is kept. -/

namespace Skipping

variable {A : Type*}

/-- `x` and `y` are kept, and `gap` is what is passed over between them. -/
structure Follows (kept : A → Prop) (entries : List A) (x : A) (gap : List A) (y : A) : Prop where
  placed : ∃ front back, entries = front ++ x :: (gap ++ y :: back)
  left : kept x
  right : kept y
  free : ∀ z ∈ gap, ¬ kept z

theorem Follows.cons {kept : A → Prop} {entries gap : List A} {x y : A} (a : A)
    (hfollows : Follows kept entries x gap y) : Follows kept (a :: entries) x gap y := by
  obtain ⟨⟨front, back, hplaced⟩, hleft, hright, hfree⟩ := hfollows
  exact ⟨⟨a :: front, back, by rw [hplaced, List.cons_append]⟩, hleft, hright, hfree⟩

/-- Two kept entries of a longer list either do without its head, or the head
is the first of them. -/
theorem follows_cons_iff {kept : A → Prop} {entries gap : List A} {a x y : A} :
    Follows kept (a :: entries) x gap y ↔ Follows kept entries x gap y ∨
      x = a ∧ kept a ∧ kept y ∧ (∀ z ∈ gap, ¬ kept z) ∧ ∃ back, entries = gap ++ y :: back := by
  constructor
  · rintro ⟨⟨front, back, hplaced⟩, hleft, hright, hfree⟩
    cases front with
    | nil =>
      obtain ⟨rfl, hrest⟩ := List.cons.inj hplaced
      exact Or.inr ⟨rfl, hleft, hright, hfree, back, hrest⟩
    | cons b front =>
      obtain ⟨_, hrest⟩ := List.cons.inj hplaced
      exact Or.inl ⟨⟨front, back, hrest⟩, hleft, hright, hfree⟩
  · rintro (hfollows | ⟨rfl, hleft, hright, hfree, back, hrest⟩)
    · exact hfollows.cons a
    · exact ⟨⟨[], back, by rw [hrest, List.nil_append]⟩, hleft, hright, hfree⟩

/-- The kept entries form a chain exactly when each is related to the next kept
one. The induction is on the list; the head is followed by the first kept
entry of the rest. -/
theorem isChain_filter_iff {kept : A → Prop} [DecidablePred kept] {rel : A → A → Prop}
    (entries : List A) : (entries.filter fun a => decide (kept a)).IsChain rel ↔
      ∀ x gap y, Follows kept entries x gap y → rel x y := by
  induction entries with
  | nil =>
    refine ⟨fun _ x gap y hfollows => ?_, fun _ => List.IsChain.nil⟩
    obtain ⟨front, back, hplaced⟩ := hfollows.placed
    simp at hplaced
  | cons a entries ih =>
    by_cases hkept : kept a
    · rw [List.filter_cons_of_pos (by simpa using hkept), List.isChain_cons, ih, List.head?_filter]
      constructor
      · rintro ⟨hhead, hall⟩ x gap y hfollows
        rcases follows_cons_iff.mp hfollows with hrest | ⟨rfl, _, hright, hfree, back, hrest⟩
        · exact hall x gap y hrest
        · apply hhead
          rw [Option.mem_def, List.find?_eq_some_iff_append]
          exact ⟨by simpa using hright, gap, back, hrest, by simpa using hfree⟩
      · intro hall
        refine ⟨fun y hfirst => ?_, fun x gap y hfollows => hall x gap y (hfollows.cons a)⟩
        obtain ⟨hright, gap, back, hrest, hfree⟩ := List.find?_eq_some_iff_append.mp hfirst
        exact hall a gap y (follows_cons_iff.mpr
          (Or.inr ⟨rfl, hkept, by simpa using hright, by simpa using hfree, back, hrest⟩))
    · rw [List.filter_cons_of_neg (by simpa using hkept), ih]
      constructor
      · intro hall x gap y hfollows
        rcases follows_cons_iff.mp hfollows with hrest | ⟨_, hhead, _⟩
        · exact hall x gap y hrest
        · exact absurd hhead hkept
      · intro hall x gap y hfollows
        exact hall x gap y (hfollows.cons a)

/-- Two entries side by side in the list follow each other with nothing passed
over. -/
theorem mem_zip_tail_iff {entries : List A} {x y : A} :
    (x, y) ∈ entries.zip entries.tail ↔ ∃ front back, entries = front ++ x :: y :: back := by
  induction entries with
  | nil => simp
  | cons a entries ih =>
    cases entries with
    | nil =>
      refine ⟨fun hmem => by simp at hmem, ?_⟩
      rintro ⟨front, back, hplaced⟩
      have hlength := congrArg List.length hplaced
      simp only [List.length_append, List.length_cons, List.length_nil] at hlength
      omega
    | cons b entries =>
      rw [List.tail_cons, List.zip_cons_cons, List.mem_cons]
      constructor
      · rintro (hhead | hrest)
        · obtain ⟨rfl, rfl⟩ := Prod.mk.inj hhead
          exact ⟨[], entries, rfl⟩
        · obtain ⟨front, back, hplaced⟩ := ih.mp hrest
          exact ⟨a :: front, back, by rw [hplaced, List.cons_append]⟩
      · rintro ⟨front, back, hplaced⟩
        cases front with
        | nil =>
          obtain ⟨rfl, htail⟩ := List.cons.inj hplaced
          obtain ⟨rfl, _⟩ := List.cons.inj htail
          exact Or.inl rfl
        | cons c front => exact Or.inr (ih.mpr ⟨front, back, (List.cons.inj hplaced).2⟩)

/-- Side by side, and both kept. -/
theorem follows_nil_iff {kept : A → Prop} {entries : List A} {x y : A} :
    Follows kept entries x [] y ↔ (x, y) ∈ entries.zip entries.tail ∧ kept x ∧ kept y := by
  rw [mem_zip_tail_iff]
  constructor
  · rintro ⟨hplaced, hleft, hright, _⟩
    exact ⟨hplaced, hleft, hright⟩
  · rintro ⟨hplaced, hleft, hright⟩
    exact ⟨hplaced, hleft, hright, fun z hmem => absurd hmem List.not_mem_nil⟩

end Skipping
