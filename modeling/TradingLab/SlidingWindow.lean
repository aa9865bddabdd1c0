import Mathlib.Algebra.Order.BigOperators.Group.List
import Mathlib.Algebra.Order.Field.Basic
import Mathlib.Data.List.Sort
import Mathlib.Data.List.TakeWhile
import TradingLab.Moments

/-! A window that slides over a list, with a state that follows it. The state may hold sums
over the window, or its entries in order. -/

namespace SlidingWindow

variable {A B S : Type*}

/-- The entries of the window that ends with the `i`-th. -/
def ending (window i : ℕ) (xs : List A) : List A := (xs.take (i + 1)).drop (i + 1 - window)

theorem length_ending {window i : ℕ} {xs : List A} (hfull : window ≤ i + 1) (hi : i < xs.length) :
    (ending window i xs).length = window := by
  rw [ending, List.length_drop, List.length_take_of_le hi]
  omega

variable (window : ℕ) (join leave : S → A → S) (read : S → Option B)

/-- From the `i`-th entry on: each joins, the one it pushes out leaves, and a full
window is read. -/
def rollFrom (xs : List A) : ℕ → List A → S → List (Option B)
  | _, [], _ => []
  | i, x :: rest, s =>
    let s := join s x
    let s := if window ≤ i then (xs[i - window]?).elim s (leave s) else s
    (if i + 1 < window then none else read s) :: rollFrom xs (i + 1) rest s

def roll (xs : List A) (s : S) : List (Option B) := rollFrom window join leave read xs 0 xs s

/-- A relation between states and windows that joining and leaving keep. -/
structure Follows (T : S → List A → Prop) : Prop where
  joins : ∀ s l x, T s l → T (join s x) (l ++ [x])
  leaves : ∀ s x l, T s (x :: l) → T (leave s x) l

variable {window join leave read} {T : S → List A → Prop}

/-- The window after one more entry. -/
theorem Follows.slides (hfollows : Follows join leave T) {done : List A} (x : A) (rest : List A) {s : S}
    (hwindow : 0 < window) (hs : T s (done.drop (done.length - window))) :
    T (if window ≤ done.length then ((done ++ x :: rest)[done.length - window]?).elim (join s x) (leave (join s x))
        else join s x) (ending window done.length (done ++ x :: rest)) := by
  have hjoined := hfollows.joins s _ x hs
  have htaken : (done ++ x :: rest).take (done.length + 1) = done ++ [x] := by
    rw [List.take_append, List.take_of_length_le (Nat.le_succ _), Nat.add_sub_cancel_left]
    rfl
  rw [ending, htaken]
  by_cases hfull : window ≤ done.length
  · have hbefore : done.length - window < done.length := Nat.sub_lt (hwindow.trans_le hfull) hwindow
    rw [if_pos hfull, List.getElem?_append_left hbefore, List.getElem?_eq_getElem hbefore, Option.elim_some,
      Nat.succ_sub hfull, List.drop_append_of_le_length hbefore]
    rw [List.drop_eq_getElem_cons hbefore] at hjoined
    exact hfollows.leaves _ _ _ hjoined
  · rw [if_neg hfull, Nat.sub_eq_zero_of_le (not_le.mp hfull), List.drop_zero]
    rwa [Nat.sub_eq_zero_of_le (not_le.mp hfull).le, List.drop_zero] at hjoined

variable (window) in
/-- What is read of each full window, in order. -/
def eachWindow (stat : List A → Option B) (xs : List A) : List (Option B) :=
  (List.range xs.length).map fun i => if i + 1 < window then none else stat (ending window i xs)

theorem eachWindow_congr {stat stat' : List A → Option B} {xs : List A}
    (hsame : ∀ l, l.length = window → stat l = stat' l) : eachWindow window stat xs = eachWindow window stat' xs := by
  refine List.map_congr_left fun i hi => ?_
  split
  · rfl
  · rename_i hfull
    exact hsame _ (length_ending (not_lt.mp hfull) (List.mem_range.mp hi))

theorem eachWindow_getElem? {stat : List A → Option B} {xs : List A} {i : ℕ} {b : B}
    (hread : (eachWindow window stat xs)[i]? = some (some b)) :
    i < xs.length ∧ window ≤ i + 1 ∧ stat (ending window i xs) = some b := by
  rw [eachWindow, List.getElem?_map] at hread
  obtain ⟨j, hj, hb⟩ := Option.map_eq_some_iff.mp hread
  obtain ⟨hlt, rfl⟩ := List.getElem?_eq_some_iff.mp hj
  rw [List.getElem_range] at hb
  rw [List.length_range] at hlt
  split at hb
  · cases hb
  · rename_i hfull
    exact ⟨hlt, not_lt.mp hfull, hb⟩

theorem rollFrom_eq (hfollows : Follows join leave T) (hwindow : 0 < window) {stat : List A → Option B}
    (hread : ∀ s l, T s l → l.length = window → read s = stat l) {xs done rest : List A} (hxs : xs = done ++ rest)
    {s : S} (hs : T s (done.drop (done.length - window))) :
    rollFrom window join leave read xs done.length rest s =
      (List.range' done.length rest.length).map fun i =>
        if i + 1 < window then none else stat (ending window i xs) := by
  induction rest generalizing done s with
  | nil => rfl
  | cons x rest ih =>
    have hslides := hfollows.slides x rest hwindow hs
    rw [← hxs] at hslides
    rw [rollFrom, List.length_cons, List.range'_succ, List.map_cons]
    have hlast : ending window done.length xs = (done ++ [x]).drop ((done ++ [x]).length - window) := by
      rw [ending, hxs, List.length_append, List.length_singleton, List.take_append,
        List.take_of_length_le (Nat.le_succ _), Nat.add_sub_cancel_left]
      rfl
    have hshifted : xs = (done ++ [x]) ++ rest := by rw [hxs, List.append_assoc]; rfl
    have hrest := ih hshifted (hlast ▸ hslides)
    rw [List.length_append, List.length_singleton] at hrest
    rw [hrest]
    congr 1
    split
    · rfl
    · rename_i hfull
      refine hread _ _ hslides (length_ending (not_lt.mp hfull) ?_)
      rw [hxs, List.length_append, List.length_cons]
      omega

/-- Where reading the state gives a statistic of the window, rolling gives that
statistic of each window. -/
theorem roll_eq (hfollows : Follows join leave T) (hwindow : 0 < window) {stat : List A → Option B}
    (hread : ∀ s l, T s l → l.length = window → read s = stat l) {s : S} (hs : T s []) (xs : List A) :
    roll window join leave read xs s = eachWindow window stat xs := by
  have hstart : T s (([] : List A).drop (([] : List A).length - window)) := by simpa using hs
  have hall := rollFrom_eq hfollows hwindow hread (List.nil_append xs).symm hstart
  rw [roll, eachWindow, List.range_eq_range']
  exact hall

/-! ### Entries in order -/

section Sorted

variable [LinearOrder A]

/-- Where a sorted list stops being below a value. -/
def lowerBound (l : List A) (x : A) : ℕ := (l.takeWhile (· < x)).length

def insertSorted (l : List A) (x : A) : List A := l.take (lowerBound l x) ++ x :: l.drop (lowerBound l x)

/-- One entry of that value is erased, if there is one. -/
def eraseSorted (l : List A) (x : A) : List A :=
  if l[lowerBound l x]? = some x then l.eraseIdx (lowerBound l x) else l

/-- The entries of a list in order. -/
structure Sorts (s l : List A) : Prop where
  ordered : s.Pairwise (· ≤ ·)
  perm : s.Perm l

variable {s l : List A} {x : A}

/-- A sorted list is cut where it stops being below a value. -/
theorem split_lowerBound (hordered : s.Pairwise (· ≤ ·)) (x : A) :
    ∃ below rest, s = below ++ rest ∧ lowerBound s x = below.length ∧ (∀ y ∈ below, y < x) ∧ ∀ y ∈ rest, x ≤ y := by
  refine ⟨s.takeWhile (· < x), s.dropWhile (· < x), List.takeWhile_append_dropWhile.symm, rfl, ?_, ?_⟩
  · exact fun y hy => by simpa using List.mem_takeWhile_imp hy
  · have hrest := hordered.sublist (List.dropWhile_sublist (· < x))
    have hhead : ∀ y ∈ (s.dropWhile (· < x)).head?, ¬ y < x := fun y hy hless => by
      have hstops := List.head?_dropWhile_not (· < x) s
      rw [Option.mem_def.mp hy] at hstops
      exact absurd hless (by simpa using hstops)
    cases hdrop : s.dropWhile (· < x) with
    | nil => exact fun y hy => absurd hy List.not_mem_nil
    | cons y rest =>
      rw [hdrop] at hrest hhead
      have hfirst := not_lt.mp (hhead y rfl)
      intro z hz
      obtain rfl | hz := List.mem_cons.mp hz
      · exact hfirst
      · exact hfirst.trans ((List.pairwise_cons.mp hrest).1 z hz)

theorem Sorts.insertSorted (hsorts : Sorts s l) (x : A) : Sorts (insertSorted s x) (l ++ [x]) := by
  obtain ⟨below, rest, rfl, hbound, hbelow, habove⟩ := split_lowerBound hsorts.ordered x
  rw [SlidingWindow.insertSorted, hbound, List.take_left, List.drop_left]
  obtain ⟨hfirst, hsecond, hacross⟩ := List.pairwise_append.mp hsorts.ordered
  refine ⟨List.pairwise_append.mpr ⟨hfirst, List.pairwise_cons.mpr ⟨habove, hsecond⟩, ?_⟩, ?_⟩
  · intro y hy z hz
    obtain rfl | hz := List.mem_cons.mp hz
    · exact (hbelow y hy).le
    · exact hacross y hy z hz
  · exact List.perm_middle.trans ((hsorts.perm.cons x).trans (List.perm_append_singleton x l).symm)

theorem Sorts.eraseSorted (hsorts : Sorts s (x :: l)) : Sorts (eraseSorted s x) l := by
  obtain ⟨below, rest, rfl, hbound, hbelow, habove⟩ := split_lowerBound hsorts.ordered x
  obtain ⟨hfirst, hsecond, hacross⟩ := List.pairwise_append.mp hsorts.ordered
  have hmem : x ∈ rest := by
    obtain hin | hin := List.mem_append.mp (hsorts.perm.mem_iff.mpr List.mem_cons_self)
    · exact absurd (hbelow x hin) (lt_irrefl x)
    · exact hin
  cases rest with
  | nil => cases hmem
  | cons y rest =>
    obtain ⟨hleast, hordered⟩ := List.pairwise_cons.mp hsecond
    have hy : y = x := by
      obtain heq | hin := List.mem_cons.mp hmem
      · exact heq.symm
      · exact le_antisymm (hleast x hin) (habove y List.mem_cons_self)
    subst hy
    have hfound : (below ++ y :: rest)[below.length]? = some y := by
      rw [List.getElem?_append_right le_rfl, Nat.sub_self]
      rfl
    have herased : (below ++ y :: rest).eraseIdx below.length = below ++ rest := by
      rw [List.eraseIdx_append_of_length_le le_rfl, Nat.sub_self]
      rfl
    rw [SlidingWindow.eraseSorted, hbound, if_pos hfound, herased]
    have hacross' : ∀ a ∈ below, ∀ b ∈ rest, a ≤ b := fun a ha b hb => hacross a ha b (List.mem_cons_of_mem _ hb)
    refine ⟨List.pairwise_append.mpr ⟨hfirst, hordered, hacross'⟩, ?_⟩
    exact (List.perm_cons y).mp (List.perm_middle.symm.trans hsorts.perm)

theorem follows_sorts : Follows (insertSorted : List A → A → List A) eraseSorted Sorts :=
  ⟨fun _ _ x hsorts => hsorts.insertSorted x, fun _ _ _ hsorts => hsorts.eraseSorted⟩

theorem sorts_nil : Sorts ([] : List A) [] := ⟨.nil, .refl _⟩

theorem sorts_mergeSort (l : List A) : Sorts (l.mergeSort (· ≤ ·)) l := by
  refine ⟨?_, List.mergeSort_perm _ _⟩
  have hordered : (l.mergeSort fun a b => decide (a ≤ b)).Pairwise fun a b => decide (a ≤ b) = true := by
    refine List.pairwise_mergeSort (fun a b c => ?_) (fun a b => ?_) l
    · simpa using le_trans
    · simpa using le_total a b
  exact hordered.imp of_decide_eq_true

/-- There is one way to sort a list. -/
theorem Sorts.unique {s' : List A} (hsorts : Sorts s l) (hsorts' : Sorts s' l) : s = s' :=
  List.Perm.eq_of_pairwise (fun _ _ _ _ hab hba => le_antisymm hab hba) hsorts.ordered hsorts'.ordered
    (hsorts.perm.trans hsorts'.perm.symm)

theorem Sorts.length_eq (hsorts : Sorts s l) : s.length = l.length := hsorts.perm.length_eq

/-- The entry of a rank is the least with that many entries at or below it. -/
theorem Sorts.isLeast_rank (hsorts : Sorts s l) {rank : ℕ} (hrank : 0 < rank) (hle : rank ≤ l.length) :
    ∃ x, s[rank - 1]? = some x ∧ IsLeast {y | y ∈ l ∧ rank ≤ l.countP (· ≤ y)} x := by
  have hindex : rank - 1 < s.length := by
    rw [hsorts.length_eq]
    omega
  have hsplit := (List.take_append_drop (rank - 1) s).symm
  rw [List.drop_eq_getElem_cons hindex] at hsplit
  set x := s[rank - 1]
  have hordered := hsorts.ordered
  rw [hsplit] at hordered
  obtain ⟨-, hlater, hacross⟩ := List.pairwise_append.mp hordered
  refine ⟨x, List.getElem?_eq_getElem hindex, ⟨hsorts.perm.mem_iff.mp (List.getElem_mem hindex), ?_⟩, ?_⟩
  · rw [← hsorts.perm.countP_eq, hsplit, List.countP_append, List.countP_cons_of_pos (by simp),
      List.countP_eq_length.mpr fun y hy => decide_eq_true (hacross y hy x List.mem_cons_self), List.length_take]
    omega
  · rintro y ⟨-, hcount⟩
    by_contra hless
    rw [not_le] at hless
    have hnone : (x :: s.drop (rank - 1 + 1)).countP (· ≤ y) = 0 := by
      refine List.countP_eq_zero.mpr fun z hz => ?_
      have hxz : x ≤ z := by
        obtain rfl | hz := List.mem_cons.mp hz
        · exact le_rfl
        · exact (List.pairwise_cons.mp hlater).1 z hz
      simpa using hless.trans_le hxz
    have hfew : (s.take (rank - 1)).countP (· ≤ y) ≤ rank - 1 :=
      (List.countP_le_length).trans (List.length_take_le _ _)
    rw [← hsorts.perm.countP_eq, hsplit, List.countP_append, hnone] at hcount
    omega

end Sorted

/-- The mean of first entries is at most an entry that none of them comes after. -/
theorem Sorts.mean_take_le {K : Type*} [Field K] [LinearOrder K] [IsStrictOrderedRing K] {s l : List K}
    (hsorts : Sorts s l) {tail index : ℕ} (htail : 0 < tail) (hle : tail ≤ index + 1) {x : K}
    (hx : s[index]? = some x) : Series.mean (s.take tail) ≤ x := by
  obtain ⟨hindex, hget⟩ := List.getElem?_eq_some_iff.mp hx
  have hbelow : ∀ y ∈ s.take tail, y ≤ x := by
    intro y hy
    obtain ⟨k, hk, rfl⟩ := List.mem_take_iff_getElem.mp hy
    have hkindex : k ≤ index := by omega
    obtain heq | hless := Nat.eq_or_lt_of_le hkindex
    · subst heq
      exact hget.le
    · exact hget ▸ List.pairwise_iff_getElem.mp hsorts.ordered k index _ hindex hless
  have hlength : 0 < ((s.take tail).length : K) := by
    rw [Nat.cast_pos, List.length_take]
    omega
  rw [Series.mean, div_le_iff₀ hlength, mul_comm, ← nsmul_eq_mul]
  exact List.sum_le_card_nsmul _ _ hbelow

end SlidingWindow
