import Mathlib.Algebra.BigOperators.Group.List.Basic
import Mathlib.Algebra.Field.Rat
import Mathlib.Algebra.Ring.Rat
import Mathlib.Data.Finset.Max
import Mathlib.Data.List.Sort
import Mathlib.Order.Basic
import Mathlib.Tactic.Linarith
import Mathlib.Tactic.Ring

/-! Sorting by a comparator that stands for a key, and the places it gives. -/

namespace Ranking

variable {A K : Type*}

/-- A list in the order of a comparator that says what comes strictly before. -/
def sort (before : A → A → Bool) (l : List A) : List A :=
  l.mergeSort fun a b => !before b a

theorem sort_perm (before : A → A → Bool) (l : List A) : (sort before l).Perm l :=
  List.mergeSort_perm _ _

@[simp] theorem mem_sort {before : A → A → Bool} {l : List A} {a : A} : a ∈ sort before l ↔ a ∈ l :=
  (sort_perm before l).mem_iff

theorem isEmpty_sort (before : A → A → Bool) (l : List A) : (sort before l).isEmpty = l.isEmpty :=
  (sort_perm before l).isEmpty_eq

variable [LinearOrder K] {key : A → K} {before : A → A → Bool}

theorem pairwise_le_sort (hbefore : ∀ a b, before a b = true ↔ key a < key b) (l : List A) :
    (sort before l).Pairwise fun a b => key a ≤ key b := by
  have hle : ∀ a b, (!before b a) = true ↔ key a ≤ key b := by
    intro a b
    rw [Bool.not_eq_true', ← Bool.not_eq_true, hbefore, not_lt]
  refine (List.pairwise_mergeSort ?_ ?_ l).imp fun hab => (hle _ _).mp hab
  · intro a b c hab hbc
    exact (hle a c).mpr (((hle a b).mp hab).trans ((hle b c).mp hbc))
  · intro a b
    rw [Bool.or_eq_true, hle, hle]
    exact le_total (key a) (key b)

/-- Entries with distinct keys are sorted strictly. -/
theorem pairwise_lt_sort (hbefore : ∀ a b, before a b = true ↔ key a < key b) {l : List A}
    (hkeys : (l.map key).Nodup) : (sort before l).Pairwise fun a b => key a < key b := by
  have hne : (sort before l).Pairwise fun a b => key a ≠ key b :=
    List.pairwise_map.mp (((sort_perm before l).map key).nodup_iff.mpr hkeys)
  exact (hne.and (pairwise_le_sort hbefore l)).imp fun h => lt_of_le_of_ne h.2 h.1

/-- With distinct keys the order of the input does not matter. -/
theorem sort_eq_of_perm (hbefore : ∀ a b, before a b = true ↔ key a < key b) {l l' : List A}
    (hkeys : (l.map key).Nodup) (hperm : l.Perm l') : sort before l = sort before l' := by
  have hkeys' : (l'.map key).Nodup := (hperm.map key).nodup_iff.mp hkeys
  refine List.Perm.eq_of_pairwise (fun a b _ _ hab hba => absurd hab (lt_asymm hba))
    (pairwise_lt_sort hbefore hkeys) (pairwise_lt_sort hbefore hkeys') ?_
  exact (sort_perm before l).trans (hperm.trans (sort_perm before l').symm)

/-- An entry stands where as many entries come before it as have a smaller key. -/
theorem findIdx?_sort (hbefore : ∀ a b, before a b = true ↔ key a < key b) {l : List A}
    (hkeys : (l.map key).Nodup) {a : A} (hmem : a ∈ l) {p : A → Bool} (hp : p a = true)
    (honly : ∀ b ∈ l, p b = true → b = a) :
    (sort before l).findIdx? p = some (l.countP fun b => before b a) := by
  have hsorted := pairwise_lt_sort hbefore hkeys
  have hsortmem : a ∈ sort before l := mem_sort.mpr hmem
  obtain ⟨front, back, hsplit⟩ := List.append_of_mem hsortmem
  rw [← (sort_perm before l).countP_eq]
  rw [hsplit] at hsorted ⊢
  obtain ⟨_, htail, hcross⟩ := List.pairwise_append.mp hsorted
  have hfront : ∀ b ∈ front, key b < key a := fun b hb => hcross b hb a List.mem_cons_self
  have hnone : front.findIdx? p = none := by
    rw [List.findIdx?_eq_none_iff]
    intro b hb
    by_contra hpb
    have hbl : b ∈ l := mem_sort.mp (hsplit ▸ List.mem_append_left _ hb)
    have hba : b = a := honly b hbl (by simpa using hpb)
    exact lt_irrefl _ (hba ▸ hfront b hb)
  have hall : front.countP (fun b => before b a) = front.length :=
    List.countP_eq_length.mpr fun b hb => (hbefore b a).mpr (hfront b hb)
  have hback : back.countP (fun b => before b a) = 0 := by
    rw [List.countP_eq_zero]
    intro b hb hlt
    exact lt_asymm ((hbefore b a).mp hlt) (List.rel_of_pairwise_cons htail hb)
  have hself : ¬ before a a = true := fun hlt => lt_irrefl _ ((hbefore a a).mp hlt)
  rw [List.findIdx?_append, hnone, List.findIdx?_cons, if_pos hp, List.countP_append, List.countP_cons,
    hall, hback, if_neg hself]
  simp

/-- Fewer entries come before the one of two that comes first. -/
theorem countP_before_lt (hbefore : ∀ a b, before a b = true ↔ key a < key b) {l : List A} {a b : A}
    (hmem : a ∈ l) (hab : before a b = true) :
    l.countP (fun c => before c a) < l.countP fun c => before c b := by
  obtain ⟨front, back, rfl⟩ := List.append_of_mem hmem
  have himp : ∀ c, before c a = true → before c b = true := fun c hca =>
    (hbefore c b).mpr (((hbefore c a).mp hca).trans ((hbefore a b).mp hab))
  have hself : ¬ before a a = true := fun hlt => lt_irrefl _ ((hbefore a a).mp hlt)
  have hfront := List.countP_mono_left (l := front) fun c _ => himp c
  have hback := List.countP_mono_left (l := back) fun c _ => himp c
  rw [List.countP_append, List.countP_append, List.countP_cons, List.countP_cons, if_pos hab, if_neg hself]
  omega

/-- What is inserted in order, with a key of its own, keeps the order strict. -/
theorem pairwise_orderedInsert {a : A} {l : List A} (hsorted : l.Pairwise fun b c => key b < key c)
    (hnew : ∀ b ∈ l, key b ≠ key a) :
    (l.orderedInsert (fun b c => key b ≤ key c) a).Pairwise fun b c => key b < key c := by
  induction l with
  | nil => exact List.pairwise_singleton _ _
  | cons b l ih =>
    obtain ⟨hb, hl⟩ := List.pairwise_cons.mp hsorted
    rw [List.orderedInsert_cons]
    split
    · rename_i hle
      have hab : key a < key b := lt_of_le_of_ne hle (hnew b List.mem_cons_self).symm
      exact List.pairwise_cons.mpr ⟨List.forall_mem_cons.mpr ⟨hab, fun c hc => hab.trans (hb c hc)⟩, hsorted⟩
    · rename_i hlt
      refine List.pairwise_cons.mpr ⟨fun c hc => ?_, ih hl fun c hc => hnew c (List.mem_cons_of_mem _ hc)⟩
      obtain rfl | hmem := (List.mem_orderedInsert _).mp hc
      · exact not_le.mp hlt
      · exact hb c hmem

/-- Every rank up to the length of a list is that of one of its values: fewer
than that many are below it, and so many are not above it. -/
theorem exists_nearest_rank {l : List K} {k : ℕ} (hpos : 0 < k) (hle : k ≤ l.length) :
    ∃ x ∈ l, l.countP (· < x) < k ∧ k ≤ l.countP (· ≤ x) := by
  have hne : l.toFinset.Nonempty := by
    rw [List.toFinset_nonempty_iff]
    rintro rfl
    exact absurd hle (Nat.not_le.mpr hpos)
  let reached := l.toFinset.filter fun x => k ≤ l.countP (· ≤ x)
  have hreached : reached.Nonempty := by
    obtain ⟨m, hm, hmax⟩ := l.toFinset.exists_max_image id hne
    have hall : l.countP (· ≤ m) = l.length :=
      List.countP_eq_length.mpr fun y hy => decide_eq_true (hmax y (List.mem_toFinset.mpr hy))
    exact ⟨m, Finset.mem_filter.mpr ⟨hm, hall ▸ hle⟩⟩
  obtain ⟨x, hx, hmin⟩ := reached.exists_min_image id hreached
  obtain ⟨hxl, hkx⟩ := Finset.mem_filter.mp hx
  refine ⟨x, List.mem_toFinset.mp hxl, ?_, hkx⟩
  by_contra hnot
  have hk : k ≤ l.countP (· < x) := Nat.le_of_not_lt hnot
  -- The largest value below `x` would be reached as well.
  have hbelow : (l.toFinset.filter (· < x)).Nonempty := by
    obtain ⟨a, hal, hax⟩ := List.countP_pos_iff.mp (hpos.trans_le hk)
    exact ⟨a, Finset.mem_filter.mpr ⟨List.mem_toFinset.mpr hal, of_decide_eq_true hax⟩⟩
  obtain ⟨y, hy, hlargest⟩ := (l.toFinset.filter (· < x)).exists_max_image id hbelow
  obtain ⟨hyl, hyx⟩ := Finset.mem_filter.mp hy
  have hsame : l.countP (· < x) ≤ l.countP (· ≤ y) := by
    refine List.countP_mono_left fun a hal hax => decide_eq_true ?_
    exact hlargest a (Finset.mem_filter.mpr ⟨List.mem_toFinset.mpr hal, of_decide_eq_true hax⟩)
  exact (hmin y (Finset.mem_filter.mpr ⟨hyl, hk.trans hsame⟩)).not_gt hyx

end Ranking

/-! Sums over the pairs of two lists, and what an average place among others says
about how many of them are beaten. -/

namespace PairCount

variable {A B : Type*}

/-- The sum of a quantity over all pairs. -/
def pairSum (f : A → B → Rat) (l : List A) (l' : List B) : Rat :=
  (l.map fun a => (l'.map (f a)).sum).sum

theorem pairSum_nil_right (f : A → B → Rat) (l : List A) : pairSum f l [] = 0 := by
  induction l with
  | nil => rfl
  | cons a l ih =>
    rw [pairSum, List.map_cons, List.sum_cons, List.map_nil, List.sum_nil, zero_add]
    exact ih

theorem pairSum_cons_left (f : A → B → Rat) (a : A) (l : List A) (l' : List B) :
    pairSum f (a :: l) l' = (l'.map (f a)).sum + pairSum f l l' := by
  rw [pairSum, List.map_cons, List.sum_cons, pairSum]

theorem pairSum_cons_right (f : A → B → Rat) (l : List A) (b : B) (l' : List B) :
    pairSum f l (b :: l') = (l.map fun a => f a b).sum + pairSum f l l' := by
  simp only [pairSum, List.map_cons, List.sum_cons, List.sum_map_add]

theorem pairSum_append_right (f : A → B → Rat) (l : List A) (l' l'' : List B) :
    pairSum f l (l' ++ l'') = pairSum f l l' + pairSum f l l'' := by
  simp only [pairSum, List.map_append, List.sum_append, List.sum_map_add]

/-- A double sum in either order. -/
theorem pairSum_comm (f : A → B → Rat) (l : List A) (l' : List B) :
    pairSum f l l' = pairSum (fun b a => f a b) l' l := by
  induction l with
  | nil => rw [pairSum_nil_right]; rfl
  | cons a l ih => rw [pairSum_cons_left, pairSum_cons_right, ih]

theorem pairSum_add (f g : A → B → Rat) (l : List A) (l' : List B) :
    pairSum (fun a b => f a b + g a b) l l' = pairSum f l l' + pairSum g l l' := by
  simp only [pairSum, List.sum_map_add]

theorem pairSum_one (l : List A) (l' : List B) :
    pairSum (fun _ _ => 1) l l' = (l.length : Rat) * l'.length := by
  induction l with
  | nil => rw [List.length_nil, Nat.cast_zero, zero_mul]; rfl
  | cons a l ih =>
    rw [pairSum_cons_left, ih, List.map_const', List.sum_replicate, nsmul_eq_mul, List.length_cons]
    push_cast
    ring

/-! ### Wins and ties -/

variable [LinearOrder A]

/-- One for a win, a half for a tie. -/
def score (a b : A) : Rat := if b < a then 1 else if b = a then 1 / 2 else 0

/-- Of two, one wins or both tie. -/
theorem score_add_score (a b : A) : score a b + score b a = 1 := by
  unfold score
  obtain hless | hsame | hmore := lt_trichotomy a b
  · rw [if_neg (lt_asymm hless), if_neg (ne_of_gt hless), if_pos hless, zero_add]
  · rw [hsame, if_neg (lt_irrefl b), if_pos rfl]
    norm_num
  · rw [if_pos hmore, if_neg (lt_asymm hmore), if_neg (ne_of_gt hmore), add_zero]

/-- Among themselves, the entries of a list win half of all pairs. -/
theorem pairSum_score_self (l : List A) : pairSum score l l = (l.length : Rat) * l.length / 2 := by
  have htwice : pairSum score l l + pairSum score l l = (l.length : Rat) * l.length := by
    calc pairSum score l l + pairSum score l l
        = pairSum score l l + pairSum (fun a b => score b a) l l := by rw [← pairSum_comm]
      _ = pairSum (fun _ _ => 1) l l := by rw [← pairSum_add]; simp only [score_add_score]
      _ = (l.length : Rat) * l.length := pairSum_one l l
  linarith

/-- What an entry wins is how many are below it, and half of its ties. -/
theorem sum_score (a : A) (l : List A) :
    (l.map (score a)).sum = (l.countP fun b => b < a) + (l.countP fun b => b = a : Rat) / 2 := by
  induction l with
  | nil => simp
  | cons b l ih =>
    rw [List.map_cons, List.sum_cons, ih, List.countP_cons, List.countP_cons]
    unfold score
    obtain hless | hsame | hmore := lt_trichotomy b a
    · simp only [hless, ne_of_lt hless, decide_true, decide_false, if_true, Bool.false_eq_true, if_false]
      push_cast
      ring
    · simp only [hsame, lt_irrefl, if_false, if_true, decide_true, decide_false, Bool.false_eq_true]
      push_cast
      ring
    · simp only [lt_asymm hmore, ne_of_gt hmore, if_false, decide_false, Bool.false_eq_true]
      push_cast
      ring

/-- The pairs of one list and another that the first wins, and half of the ties. -/
theorem pairSum_score (l l' : List A) :
    pairSum score l l' = ((l.product l').countP fun p => p.2 < p.1) +
      ((l.product l').countP fun p => p.2 = p.1 : Rat) / 2 := by
  induction l with
  | nil =>
    have hproduct : ([] : List A).product l' = [] := rfl
    simp [pairSum, hproduct]
  | cons a l ih =>
    have hproduct : (a :: l).product l' = l'.map (fun b => (a, b)) ++ l.product l' := rfl
    rw [pairSum_cons_left, ih, sum_score, hproduct, List.countP_append, List.countP_append, List.countP_map,
      List.countP_map]
    simp only [Function.comp_def]
    push_cast
    ring

/-- The average place of the block of a value in order, from zero on. -/
def place (l : List A) (a : A) : Rat := (l.countP fun b => b < a) + ((l.countP fun b => b = a : Rat) - 1) / 2

theorem place_perm {l l' : List A} (hperm : l.Perm l') (a : A) : place l a = place l' a := by
  rw [place, place, hperm.countP_eq, hperm.countP_eq]

/-- The rank-sum identity: the places of some entries among all, counted from one,
are those they would have alone and the pairs they win of the others. -/
theorem sum_place (l l' : List A) :
    (l.map fun a => place (l ++ l') a + 1).sum = (l.length : Rat) * (l.length + 1) / 2 + pairSum score l l' := by
  have hplace : ∀ a, place (l ++ l') a + 1 = ((l ++ l').map (score a)).sum + 1 / 2 := by
    intro a
    rw [sum_score, place]
    ring
  calc (l.map fun a => place (l ++ l') a + 1).sum
      = pairSum score l (l ++ l') + (l.length : Rat) * (1 / 2) := by
        simp only [hplace, List.sum_map_add, List.map_const', List.sum_replicate, nsmul_eq_mul]
        rfl
    _ = (l.length : Rat) * (l.length + 1) / 2 + pairSum score l l' := by
        rw [pairSum_append_right, pairSum_score_self]
        ring

end PairCount
