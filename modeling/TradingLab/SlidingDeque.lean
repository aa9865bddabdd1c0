import Mathlib.Data.List.DropRight
import TradingLab.Moments

/-! The best entry of a sliding window, kept in a monotonic deque. A relation says which
value outdoes which; an entry stays while no later one outdoes it and it is in the window. -/

namespace SlidingDeque

variable {A : Type*}

/-- Where what is dropped comes first, dropping from the front drops it all. -/
theorem dropWhile_eq_filter {p : A → Bool} {l : List A} (hfirst : l.Pairwise fun a b => p b → p a) :
    l.dropWhile p = l.filter fun a => !p a := by
  induction l with
  | nil => rfl
  | cons a l ih =>
    obtain ⟨hhead, htail⟩ := List.pairwise_cons.mp hfirst
    cases hp : p a with
    | true =>
      rw [List.dropWhile_cons_of_pos hp, List.filter_cons_of_neg (by simp [hp]), ih htail]
    | false =>
      have hnone : ∀ b ∈ l, (!p b) = true := by
        intro b hb
        cases hpb : p b with
        | true =>
          rw [hhead b hb hpb] at hp
          cases hp
        | false => rfl
      rw [List.dropWhile_cons_of_neg (by simp [hp]), List.filter_cons_of_pos (by simp [hp]),
        List.filter_eq_self.mpr hnone]

theorem rdropWhile_eq_filter {p : A → Bool} {l : List A} (hlast : l.Pairwise fun a b => p a → p b) :
    l.rdropWhile p = l.filter fun a => !p a := by
  have hfirst : l.reverse.Pairwise fun a b => p b → p a := List.pairwise_reverse.mpr hlast
  rw [List.rdropWhile, dropWhile_eq_filter hfirst, List.filter_reverse, List.reverse_reverse]

/-- A deque after a value: the values it outdoes are popped from the back, the
entries up to the cutoff are erased from the front. -/
def slide (outdoes : A → A → Bool) (index cutoff : ℕ) (x : A) (q : List (ℕ × A)) : List (ℕ × A) :=
  ((q.rdropWhile fun e => outdoes x e.2) ++ [(index, x)]).dropWhile fun e => decide (e.1 ≤ cutoff)

/-- The deque after these values, the newest first and the oldest numbered one:
entries of the window in order, each one outdoing the later ones, and one of
them for every value of the window. -/
structure Valid (outdoes : A → A → Bool) (window : ℕ) (past : List A) (q : List (ℕ × A)) : Prop where
  entries : ∀ e ∈ q, 0 < e.1 ∧ e.1 ≤ past.length ∧ past.length < e.1 + window ∧
    past[past.length - e.1]? = some e.2
  ordered : q.Pairwise fun a b => a.1 < b.1 ∧ outdoes b.2 a.2 = false
  covers : ∀ k < window, ∀ y, past[k]? = some y → ∃ e ∈ q, past.length - e.1 ≤ k ∧ outdoes e.2 y = true

theorem valid_nil (outdoes : A → A → Bool) (window : ℕ) : Valid outdoes window [] [] :=
  ⟨fun e he => absurd he List.not_mem_nil, List.Pairwise.nil, fun k _ y hy => by simp at hy⟩

variable {outdoes : A → A → Bool} {window : ℕ} {past : List A} {q : List (ℕ × A)}

section Steps

variable (htotal : ∀ x y, outdoes x y = true ∨ outdoes y x = true)
  (htrans : ∀ x y z, outdoes x y = true → outdoes y z = true → outdoes x z = true)

include htotal htrans in
theorem slide_eq_filter (hvalid : Valid outdoes window past q) (cutoff : ℕ) (x : A) :
    slide outdoes (past.length + 1) cutoff x q =
      ((q.filter fun e => !outdoes x e.2) ++ [(past.length + 1, x)]).filter fun e => !decide (e.1 ≤ cutoff) := by
  have hpopped : q.rdropWhile (fun e => outdoes x e.2) = q.filter fun e => !outdoes x e.2 := by
    refine rdropWhile_eq_filter (hvalid.ordered.imp fun {a b} hab hbeats => ?_)
    -- What is outdone outdoes in turn every later entry.
    refine htrans x a.2 b.2 hbeats ?_
    rcases htotal a.2 b.2 with h | h
    · exact h
    · rw [hab.2] at h
      cases h
  rw [slide, hpopped]
  refine dropWhile_eq_filter ?_
  refine List.pairwise_append.mpr ⟨?_, List.pairwise_singleton _ _, ?_⟩
  · refine (hvalid.ordered.filter _).imp fun {a b} hab hlater => ?_
    have := of_decide_eq_true hlater
    exact decide_eq_true (by omega)
  · intro a ha b hb hlater
    have hin := hvalid.entries a (List.mem_filter.mp ha).1
    cases List.mem_singleton.mp hb
    have := of_decide_eq_true hlater
    exact decide_eq_true (by omega)

include htotal htrans in
/-- A value keeps the deque valid, for the window that ends with it. -/
theorem Valid.slide (hvalid : Valid outdoes window past q) (hwindow : 0 < window) (x : A) :
    Valid outdoes window (x :: past) (slide outdoes (past.length + 1) (past.length + 1 - window) x q) := by
  rw [slide_eq_filter htotal htrans hvalid]
  have hmem : ∀ e, e ∈ ((q.filter fun e => !outdoes x e.2) ++ [(past.length + 1, x)]).filter
      (fun e => !decide (e.1 ≤ past.length + 1 - window)) ↔
        ((e ∈ q ∧ outdoes x e.2 = false) ∨ e = (past.length + 1, x)) ∧ past.length + 1 - window < e.1 := by
    intro e
    simp only [List.mem_filter, List.mem_append, List.mem_singleton, Bool.not_eq_true', decide_eq_false_iff_not,
      not_le]
  refine ⟨fun e he => ?_, ?_, fun k hk y hy => ?_⟩
  · obtain ⟨⟨hold, -⟩ | rfl, hlate⟩ := (hmem e).mp he
    · obtain ⟨hpos, hle, -, hvalue⟩ := hvalid.entries e hold
      refine ⟨hpos, ?_, ?_, ?_⟩
      · rw [List.length_cons]
        omega
      · rw [List.length_cons]
        omega
      · rw [List.length_cons, show past.length + 1 - e.1 = past.length - e.1 + 1 by omega, List.getElem?_cons_succ]
        exact hvalue
    · refine ⟨Nat.succ_pos _, ?_, ?_, ?_⟩
      · rw [List.length_cons]
      · rw [List.length_cons]
        exact Nat.lt_add_of_pos_right hwindow
      · rw [List.length_cons, Nat.sub_self]
        rfl
  · refine List.Pairwise.filter _ (List.pairwise_append.mpr
      ⟨hvalid.ordered.filter _, List.pairwise_singleton _ _, fun a ha b hb => ?_⟩)
    obtain ⟨hold, hkept⟩ := List.mem_filter.mp ha
    have hin := (hvalid.entries a hold).2.1
    cases List.mem_singleton.mp hb
    exact ⟨Nat.lt_succ_of_le hin, by simpa using hkept⟩
  · have hnew : (past.length + 1, x) ∈ ((q.filter fun e => !outdoes x e.2) ++ [(past.length + 1, x)]).filter
        (fun e => !decide (e.1 ≤ past.length + 1 - window)) :=
      (hmem _).mpr ⟨.inr rfl, Nat.sub_lt (Nat.succ_pos _) hwindow⟩
    cases k with
    | zero =>
      cases hy
      exact ⟨_, hnew, by rw [List.length_cons, Nat.sub_self], (htotal x x).elim id id⟩
    | succ k =>
      rw [List.getElem?_cons_succ] at hy
      obtain ⟨e, he, hlag, hbeats⟩ := hvalid.covers k (by omega) y hy
      by_cases hout : outdoes x e.2 = true
      · exact ⟨_, hnew, by rw [List.length_cons, Nat.sub_self]; exact Nat.zero_le _,
          htrans x e.2 y hout hbeats⟩
      · have hin := hvalid.entries e he
        refine ⟨e, (hmem e).mpr ⟨.inl ⟨he, by simpa using hout⟩, by omega⟩, ?_, hbeats⟩
        rw [List.length_cons]
        omega

include htotal htrans in
/-- The front of the deque is in the window and outdoes all of it. -/
theorem Valid.front (hvalid : Valid outdoes window past q) (hwindow : 0 < window) (hne : past ≠ []) :
    ∃ e, q.head? = some e ∧ e.2 ∈ past.take window ∧ ∀ y ∈ past.take window, outdoes e.2 y = true := by
  obtain ⟨x, rest, rfl⟩ := List.exists_cons_of_ne_nil hne
  obtain ⟨some_e, hsome, -⟩ := hvalid.covers 0 hwindow x rfl
  cases q with
  | nil => cases hsome
  | cons e es =>
    obtain ⟨hpos, hle, hin, hvalue⟩ := hvalid.entries e List.mem_cons_self
    refine ⟨e, rfl, ?_, fun y hy => ?_⟩
    · rw [List.mem_iff_getElem?]
      refine ⟨(x :: rest).length - e.1, ?_⟩
      rw [List.getElem?_take_of_lt (by omega)]
      exact hvalue
    · obtain ⟨k, hk⟩ := List.mem_iff_getElem?.mp hy
      have hwithin : k < window := by
        by_contra hbeyond
        rw [List.getElem?_take_eq_none (not_lt.mp hbeyond)] at hk
        cases hk
      rw [List.getElem?_take_of_lt hwithin] at hk
      obtain ⟨f, hf, -, hbeats⟩ := hvalid.covers k hwithin y hk
      rcases List.mem_cons.mp hf with rfl | hf
      · exact hbeats
      · refine htrans e.2 f.2 y ?_ hbeats
        have hlater := ((List.pairwise_cons.mp hvalid.ordered).1 f hf).2
        rcases htotal e.2 f.2 with h | h
        · exact h
        · rw [hlater] at h
          cases h

end Steps

end SlidingDeque
