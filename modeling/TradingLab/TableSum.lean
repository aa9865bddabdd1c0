import Mathlib.Algebra.BigOperators.Group.List.Basic
import Mathlib.Algebra.Order.BigOperators.Group.List
import Mathlib.Data.List.Nodup
import Mathlib.Data.List.Perm.Subperm
import Mathlib.Tactic.Abel
import Std.Data.TreeMap.Lemmas

open Std

namespace Table

variable {K V A : Type*} [Ord K]

/-- The sum of a quantity over the entries of a table. -/
def sum [AddCommMonoid A] (f : K → V → A) (t : TreeMap K V) : A :=
  (t.toList.map fun e => f e.1 e.2).sum

@[simp] theorem sum_empty [AddCommMonoid A] (f : K → V → A) :
    sum f (∅ : TreeMap K V) = 0 := rfl

/-- A loop that adds one term for each entry computes the sum. -/
theorem foldl_eq_sum [AddCommMonoid A] (f : K → V → A) (t : TreeMap K V) :
    t.foldl (fun total k v => total + f k v) 0 = sum f t := by
  rw [TreeMap.foldl_eq_foldl_toList, sum]
  have hgen : ∀ (l : List (K × V)) (a : A),
      l.foldl (fun total e => total + f e.1 e.2) a = a + (l.map fun e => f e.1 e.2).sum := by
    intro l
    induction l with
    | nil => simp
    | cons e l ih =>
      intro a
      simp only [List.foldl_cons, List.map_cons, List.sum_cons, ih]
      rw [add_assoc]
  simpa using hgen t.toList 0

/-- A loop that passes over some entries sums the others. -/
theorem foldl_skip_eq_sum [AddCommMonoid A] (skip : K → V → Prop) [∀ k v, Decidable (skip k v)]
    (f : K → V → A) (t : TreeMap K V) :
    t.foldl (fun total k v => if skip k v then total else total + f k v) 0 =
      sum (fun k v => if skip k v then 0 else f k v) t := by
  rw [← foldl_eq_sum]
  congr 1
  funext total k v
  split
  · rw [add_zero]
  · rfl

theorem sum_add [AddCommMonoid A] (f g : K → V → A) (t : TreeMap K V) :
    sum (fun k v => f k v + g k v) t = sum f t + sum g t := by
  unfold sum
  induction t.toList with
  | nil => simp
  | cons e l ih =>
    simp only [List.map_cons, List.sum_cons, ih]
    exact add_add_add_comm _ _ _ _

variable [TransOrd K] [LawfulEqOrd K]

theorem mem_insert_iff (t : TreeMap K V) (k a : K) (v : V) : a ∈ t.insert k v ↔ a = k ∨ a ∈ t := by
  rw [TreeMap.mem_insert, LawfulEqCmp.compare_eq_iff_eq, eq_comm]

theorem mem_erase_iff (t : TreeMap K V) (k a : K) : a ∈ t.erase k ↔ a ∈ t ∧ a ≠ k := by
  rw [TreeMap.mem_erase, ne_eq, LawfulEqCmp.compare_eq_iff_eq, and_comm, eq_comm]

theorem getElem?_insert_self (t : TreeMap K V) (k : K) (v : V) : (t.insert k v)[k]? = some v := by
  simp

theorem getElem?_insert_of_ne (t : TreeMap K V) {k a : K} (v : V) (hne : k ≠ a) :
    (t.insert k v)[a]? = t[a]? := by
  rw [TreeMap.getElem?_insert, if_neg (by simpa using hne)]

theorem getElem?_insert_eq_ite [DecidableEq K] (t : TreeMap K V) (k a : K) (v : V) :
    (t.insert k v)[a]? = if k = a then some v else t[a]? := by
  by_cases hka : k = a
  · subst hka
    simp
  · rw [if_neg hka, getElem?_insert_of_ne t v hka]

/-- What is found after a write is what was written, or was there before. -/
theorem getElem?_insert_eq_some {t : TreeMap K V} {k a : K} {v w : V} :
    (t.insert k v)[a]? = some w ↔ (k = a ∧ v = w) ∨ (k ≠ a ∧ t[a]? = some w) := by
  by_cases hka : k = a
  · subst hka
    simp
  · simp [getElem?_insert_of_ne t v hka, hka]

/-- Two quantities that agree on every entry have one sum. -/
theorem sum_congr [AddCommMonoid A] {f g : K → V → A} {t : TreeMap K V}
    (hagree : ∀ k v, t[k]? = some v → f k v = g k v) : sum f t = sum g t := by
  unfold sum
  congr 1
  apply List.map_congr_left
  intro e he
  exact hagree e.1 e.2 (TreeMap.mem_toList_iff_getElem?_eq_some.mp he)

/-- Tables that answer every lookup alike have one sum. -/
theorem sum_eq_of_lookup [AddCommMonoid A] (f : K → V → A) {t t' : TreeMap K V}
    (hsame : ∀ k : K, t[k]? = t'[k]?) : sum f t = sum f t' := by
  have hdistinct : ∀ t : TreeMap K V, t.toList.Nodup := fun t =>
    t.distinct_keys_toList.imp fun hne heq => hne (by rw [heq]; exact Std.ReflCmp.compare_self)
  have hperm : t.toList.Perm t'.toList := by
    refine (List.perm_ext_iff_of_nodup (hdistinct t) (hdistinct t')).mpr fun e => ?_
    rw [TreeMap.mem_toList_iff_getElem?_eq_some, TreeMap.mem_toList_iff_getElem?_eq_some, hsame]
  exact (hperm.map fun e => f e.1 e.2).sum_eq

/-- A loop over a table that writes only at the key of the entry it is at leaves there
what it makes of what was there. -/
theorem getElem?_foldl_toList {S W : Type*} (table : S → TreeMap K W) {step : S → K × V → S}
    {written : K × V → Option W → Option W}
    (hself : ∀ s e, (table (step s e))[e.1]? = written e (table s)[e.1]?)
    (hother : ∀ s e a, e.1 ≠ a → (table (step s e))[a]? = (table s)[a]?) (t : TreeMap K V) (s : S) (k : K) :
    (table (t.toList.foldl step s))[k]? = t[k]?.elim (table s)[k]? fun v => written (k, v) (table s)[k]? := by
  have haway : ∀ (l : List (K × V)) s, (∀ e ∈ l, e.1 ≠ k) → (table (l.foldl step s))[k]? = (table s)[k]? := by
    intro l
    induction l with
    | nil => intro s _; rfl
    | cons e l ih =>
      intro s hne
      rw [List.foldl_cons, ih _ fun e he => hne e (List.mem_cons_of_mem _ he)]
      exact hother s e k (hne e List.mem_cons_self)
  have hentry : ∀ (l : List (K × V)) s v, (l.map Prod.fst).Nodup → (k, v) ∈ l →
      (table (l.foldl step s))[k]? = written (k, v) (table s)[k]? := by
    intro l
    induction l with
    | nil => intro s v _ hmem; exact nomatch hmem
    | cons e l ih =>
      intro s v hnodup hmem
      obtain ⟨hfresh, hnodup⟩ := List.nodup_cons.mp hnodup
      rw [List.foldl_cons]
      rcases List.mem_cons.mp hmem with rfl | hlater
      · rw [haway l _ fun e he heq => hfresh (List.mem_map.mpr ⟨e, he, heq⟩)]
        exact hself s (k, v)
      · have hne : e.1 ≠ k := fun heq => hfresh (List.mem_map.mpr ⟨(k, v), hlater, heq.symm⟩)
        rw [ih _ v hnodup hlater, hother s e k hne]
  cases hfind : t[k]? with
  | none =>
    refine haway t.toList s fun e he heq => ?_
    rw [← heq, TreeMap.mem_toList_iff_getElem?_eq_some.mp he] at hfind
    cases hfind
  | some v =>
    have hnodup : (t.toList.map Prod.fst).Nodup := by
      rw [TreeMap.map_fst_toList_eq_keys]
      exact t.distinct_keys.imp fun hne heq => hne (by rw [heq]; exact Std.ReflCmp.compare_self)
    exact hentry t.toList s v hnodup (TreeMap.mem_toList_iff_getElem?_eq_some.mpr hfind)

/-- The keys of a loop of writes are those written and those that were there. -/
theorem mem_foldl_insert (v : V) (ks : List K) (t : TreeMap K V) (a : K) :
    a ∈ ks.foldl (fun all k => all.insert k v) t ↔ a ∈ ks ∨ a ∈ t := by
  induction ks generalizing t with
  | nil => simp
  | cons k ks ih =>
    rw [List.foldl_cons, ih, mem_insert_iff, List.mem_cons]
    tauto

theorem nodup_keys (t : TreeMap K V) : t.keys.Nodup :=
  t.distinct_keys.imp fun hne heq => hne (by rw [heq]; exact Std.ReflCmp.compare_self)

theorem sum_nonneg [AddCommMonoid A] [PartialOrder A] [IsOrderedAddMonoid A]
    {f : K → V → A} {t : TreeMap K V} (hnonneg : ∀ k v, t[k]? = some v → 0 ≤ f k v) :
    0 ≤ sum f t := by
  apply List.sum_nonneg
  simp only [List.mem_map, forall_exists_index, and_imp, Prod.forall]
  rintro a k v hmem rfl
  exact hnonneg k v (TreeMap.mem_toList_iff_getElem?_eq_some.mp hmem)

section Group

variable [AddCommGroup A] [DecidableEq K]

omit [Ord K] [TransOrd K] [LawfulEqOrd K] in
private theorem sum_filter_ne (f : K → V → A) {l : List (K × V)} {k : K}
    (hdistinct : l.Pairwise fun a b => a.1 ≠ b.1) :
    ((l.filter fun e => ¬ k = e.1).map fun e => f e.1 e.2).sum =
      (l.map fun e => f e.1 e.2).sum - (l.find? fun e => k = e.1).elim 0 fun e => f e.1 e.2 := by
  induction l with
  | nil => simp
  | cons e l ih =>
    obtain ⟨hhead, htail⟩ := List.pairwise_cons.mp hdistinct
    by_cases hke : k = e.1
    · have hrest : l.filter (fun e => ¬ k = e.1) = l := by
        rw [List.filter_eq_self]
        intro x hx
        simpa [hke] using hhead x hx
      rw [List.filter_cons_of_neg (by simpa using hke), List.find?_cons_of_pos (by simpa using hke),
        hrest, List.map_cons, List.sum_cons, Option.elim_some]
      abel
    · rw [List.filter_cons_of_pos (by simpa using hke), List.find?_cons_of_neg (by simpa using hke),
        List.map_cons, List.sum_cons, ih htail, List.map_cons, List.sum_cons]
      abel

private theorem find_toList (f : K → V → A) (t : TreeMap K V) (k : K) :
    (t.toList.find? fun e => k = e.1).elim 0 (fun e => f e.1 e.2) = (t[k]?).elim 0 (f k) := by
  cases hfound : t.toList.find? (fun e => k = e.1) with
  | none =>
    have hnone : t[k]? = none := by
      cases hget : t[k]? with
      | none => rfl
      | some v =>
        have hmem := TreeMap.mem_toList_iff_getElem?_eq_some.mpr hget
        simpa using List.find?_eq_none.mp hfound _ hmem
    simp [hnone]
  | some e =>
    obtain ⟨k', v⟩ := e
    have hkey : k = k' := by simpa using List.find?_some hfound
    subst hkey
    have hget := TreeMap.mem_toList_iff_getElem?_eq_some.mp (List.mem_of_find?_eq_some hfound)
    simp [hget]

/-- Writing one entry changes the sum by the new term less the term it
replaces, if there was one. -/
theorem sum_insert (f : K → V → A) (t : TreeMap K V) (k : K) (v : V) :
    sum f (t.insert k v) = sum f t - (t[k]?).elim 0 (f k) + f k v := by
  have hperm := TreeMap.toList_insert_perm (t := t) (k := k) (v := v)
  have hdistinct : t.toList.Pairwise fun a b => a.1 ≠ b.1 :=
    t.distinct_keys_toList.imp fun hne => by simpa using hne
  have hfilter := sum_filter_ne f (k := k) hdistinct
  unfold sum
  rw [(hperm.map fun e => f e.1 e.2).sum_eq, List.map_cons, List.sum_cons, ← find_toList f t k]
  simp only [beq_iff_eq] at hfilter ⊢
  rw [hfilter]
  abel

theorem sum_insert_new (f : K → V → A) {t : TreeMap K V} {k : K} (v : V) (hnew : t[k]? = none) :
    sum f (t.insert k v) = sum f t + f k v := by
  simp [sum_insert, hnew]

theorem sum_insert_existing (f : K → V → A) {t : TreeMap K V} {k : K} {old : V} (v : V)
    (hold : t[k]? = some old) : sum f (t.insert k v) = sum f t - f k old + f k v := by
  simp [sum_insert, hold]

end Group

end Table

/-! A table with a bound on its entries, which drops its least keys. -/

namespace BoundedTable

variable {K V : Type*} [Ord K]

/-- Drop the least key, round after round, while there are more than `max` entries. -/
def trim (max : ℕ) : ℕ → TreeMap K V → TreeMap K V
  | 0, t => t
  | rounds + 1, t =>
    if t.size > max then
      match t.keys.head? with
      | some least => trim max rounds (t.erase least)
      | none => t
    else t

theorem trim_of_size_le {max : ℕ} (rounds : ℕ) {t : TreeMap K V} (hsize : t.size ≤ max) :
    trim max rounds t = t := by
  cases rounds with
  | zero => rfl
  | succ rounds => rw [trim, if_neg (Nat.not_lt.mpr hsize)]

variable [TransOrd K]

theorem exists_minKey? {t : TreeMap K V} (hsize : 0 < t.size) : ∃ least, t.minKey? = some least := by
  rw [← Option.isSome_iff_exists, TreeMap.isSome_minKey?_iff_isEmpty_eq_false, TreeMap.isEmpty_eq_size_eq_zero]
  exact beq_false_of_ne (Nat.ne_of_gt hsize)

variable [LawfulEqOrd K]

theorem size_erase_minKey? {t : TreeMap K V} {least : K} (hleast : t.minKey? = some least) :
    (t.erase least).size = t.size - 1 := by
  have hmem := (TreeMap.minKey?_eq_some_iff_mem_and_forall.mp hleast).1
  rw [TreeMap.size_erase, if_pos (TreeMap.contains_iff_mem.mpr hmem)]

/-- As many rounds as there are entries are enough. -/
theorem size_trim_le {max : ℕ} (rounds : ℕ) {t : TreeMap K V} (hrounds : t.size ≤ max + rounds) :
    (trim max rounds t).size ≤ max := by
  induction rounds generalizing t with
  | zero => exact hrounds
  | succ rounds ih =>
    by_cases hlarge : t.size > max
    · obtain ⟨least, hleast⟩ := exists_minKey? (t := t) (by omega)
      have hsize := size_erase_minKey? hleast
      rw [trim, if_pos hlarge, ← TreeMap.minKey?_eq_head?_keys, hleast]
      exact ih (by omega)
    · rw [trim_of_size_le _ (Nat.not_lt.mp hlarge)]
      exact Nat.not_lt.mp hlarge

/-- A new entry in a full table drops the least key, the new one's included. -/
theorem trim_insert {max : ℕ} {t : TreeMap K V} {k : K} (v : V) (hnew : k ∉ t) (hfull : t.size = max) :
    ∃ least, (t.insert k v).minKey? = some least ∧
      trim max (t.insert k v).size (t.insert k v) = (t.insert k v).erase least := by
  have hsize : (t.insert k v).size = max + 1 := by
    rw [TreeMap.size_insert, if_neg (by rwa [TreeMap.contains_iff_mem]), hfull]
  obtain ⟨least, hleast⟩ := exists_minKey? (t := t.insert k v) (by omega)
  refine ⟨least, hleast, ?_⟩
  have herase := size_erase_minKey? hleast
  rw [hsize] at herase ⊢
  rw [trim, if_pos (by omega), ← TreeMap.minKey?_eq_head?_keys, hleast]
  exact trim_of_size_le max (by omega)

end BoundedTable
