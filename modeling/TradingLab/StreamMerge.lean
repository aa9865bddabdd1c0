import Mathlib.Algebra.Order.BigOperators.Group.List
import Mathlib.Algebra.Order.Group.Nat
import Mathlib.Data.List.Flatten
import Mathlib.Data.List.Perm.Basic

/-! Merging several streams by taking, again and again, the head that comes
first. -/

namespace StreamMerge

variable {α κ τ : Type*}

/-! ### The merge -/

/-- The scan over the heads: the place and the value of the one to take, the
first of them where several come first. -/
def scan (before : α → α → Bool) : Nat → Option (Nat × α) → List (List α) → Option (Nat × α)
  | _, best, [] => best
  | i, best, [] :: streams => scan before (i + 1) best streams
  | i, none, (x :: _) :: streams => scan before (i + 1) (some (i, x)) streams
  | i, some (j, y), (x :: _) :: streams =>
    scan before (i + 1) (if before x y then some (i, x) else some (j, y)) streams

/-- Take a head up to `n` times. -/
def merge (before : α → α → Bool) : Nat → List (List α) → List α
  | 0, _ => []
  | n + 1, streams =>
    match scan before 0 none streams with
    | none => []
    | some (i, x) => x :: merge before n (streams.modify i List.tail)

/-- How many values there are in all the streams. -/
def total (streams : List (List α)) : Nat := streams.flatten.length

/-! ### What is merged -/

/-- All the values of the streams, those of each stream in its order. -/
inductive Interleaves : List (List α) → List α → Prop where
  | done {streams : List (List α)} (hempty : ∀ s ∈ streams, s = []) : Interleaves streams []
  | take {front back : List (List α)} {x : α} {rest out : List α}
      (hrest : Interleaves (front ++ rest :: back) out) : Interleaves (front ++ (x :: rest) :: back) (x :: out)

/-- An interleaving that never takes a head while another has a smaller key. -/
inductive Merges [LE κ] (key : α → κ) : List (List α) → List α → Prop where
  | done {streams : List (List α)} (hempty : ∀ s ∈ streams, s = []) : Merges key streams []
  | take {front back : List (List α)} {x : α} {rest out : List α}
      (hfirst : ∀ s ∈ front ++ back, ∀ y ∈ s.head?, key x ≤ key y)
      (hrest : Merges key (front ++ rest :: back) out) : Merges key (front ++ (x :: rest) :: back) (x :: out)

theorem Merges.interleaves [LE κ] {key : α → κ} {streams : List (List α)} {out : List α}
    (hmerges : Merges key streams out) : Interleaves streams out := by
  induction hmerges with
  | done hempty => exact .done hempty
  | take _ _ ih => exact .take ih

theorem Interleaves.perm {streams : List (List α)} {out : List α} (hinterleaves : Interleaves streams out) :
    out.Perm streams.flatten := by
  induction hinterleaves with
  | done hempty =>
    rw [List.flatten_eq_nil_iff.mpr hempty]
  | @take front back x rest out _ ih =>
    rw [List.flatten_append, List.flatten_cons] at ih ⊢
    exact (ih.cons x).trans List.perm_middle.symm

theorem Interleaves.sublist {streams : List (List α)} {out : List α} (hinterleaves : Interleaves streams out) :
    ∀ s ∈ streams, s.Sublist out := by
  induction hinterleaves with
  | done hempty =>
    intro s hs
    rw [hempty s hs]
  | @take front back x rest out _ ih =>
    intro s hs
    rcases List.mem_append.mp hs with hs | hs
    · exact (ih s (List.mem_append_left _ hs)).cons x
    · rcases List.mem_cons.mp hs with rfl | hs
      · exact (ih rest (List.mem_append_right _ List.mem_cons_self)).cons_cons x
      · exact (ih s (List.mem_append_right _ (List.mem_cons_of_mem _ hs))).cons x

/-! ### The scan -/

section Scan

variable {before : α → α → Bool}

/-- What the scan finds is what it started from, or a head in its place. -/
theorem scan_place {i k : Nat} {x : α} {best : Option (Nat × α)} {streams : List (List α)}
    (hscan : scan before i best streams = some (k, x)) :
    best = some (k, x) ∨
      ∃ front rest back, streams = front ++ (x :: rest) :: back ∧ k = i + front.length := by
  induction streams generalizing i best with
  | nil => exact .inl hscan
  | cons s streams ih =>
    -- What is found among the later streams is found one place later.
    have hlater : (∃ front rest back, streams = front ++ (x :: rest) :: back ∧ k = i + 1 + front.length) →
        ∃ front rest back, s :: streams = front ++ (x :: rest) :: back ∧ k = i + front.length := by
      rintro ⟨front, rest, back, rfl, rfl⟩
      exact ⟨s :: front, rest, back, rfl, by rw [List.length_cons]; omega⟩
    have hhere : ∀ rest, s = x :: rest → k = i →
        ∃ front rest back, s :: streams = front ++ (x :: rest) :: back ∧ k = i + front.length := by
      rintro rest rfl rfl
      exact ⟨[], rest, streams, rfl, rfl⟩
    cases s with
    | nil => exact (ih hscan).imp_right hlater
    | cons y rest =>
      cases best with
      | none =>
        rcases ih hscan with hsame | hwhere
        · cases hsame
          exact .inr (hhere rest rfl rfl)
        · exact .inr (hlater hwhere)
      | some b =>
        rw [scan] at hscan
        rcases ih hscan with hsame | hwhere
        · split at hsame
          · cases hsame
            exact .inr (hhere rest rfl rfl)
          · exact .inl hsame
        · exact .inr (hlater hwhere)

/-- The scan finds nothing where every stream has ended. -/
theorem scan_none {i : Nat} {best : Option (Nat × α)} {streams : List (List α)}
    (hscan : scan before i best streams = none) : best = none ∧ ∀ s ∈ streams, s = [] := by
  induction streams generalizing i best with
  | nil => exact ⟨hscan, fun s hs => absurd hs List.not_mem_nil⟩
  | cons s streams ih =>
    cases s with
    | nil =>
      obtain ⟨hbest, hempty⟩ := ih hscan
      exact ⟨hbest, List.forall_mem_cons.mpr ⟨rfl, hempty⟩⟩
    | cons x rest =>
      cases best with
      | none => exact absurd (ih hscan).1 (Option.some_ne_none _)
      | some b =>
        rw [scan] at hscan
        have hnone := (ih hscan).1
        split at hnone
        · cases hnone
        · cases hnone

end Scan

section Order

variable [LinearOrder κ] {before : α → α → Bool} {key : α → κ}

/-- No head has a smaller key than what the scan finds. -/
theorem scan_least (hbefore : ∀ x y, before x y = true ↔ key x < key y) {i k : Nat} {x : α}
    {best : Option (Nat × α)} {streams : List (List α)} (hscan : scan before i best streams = some (k, x)) :
    (∀ s ∈ streams, ∀ y ∈ s.head?, key x ≤ key y) ∧ ∀ b ∈ best, key x ≤ key b.2 := by
  induction streams generalizing i best with
  | nil =>
    rw [scan] at hscan
    subst hscan
    refine ⟨fun s hs => absurd hs List.not_mem_nil, fun b hb => ?_⟩
    cases hb
    exact le_refl _
  | cons s streams ih =>
    rw [List.forall_mem_cons]
    cases s with
    | nil =>
      obtain ⟨hheads, hbest⟩ := ih hscan
      exact ⟨⟨fun y hy => (by cases hy), hheads⟩, hbest⟩
    | cons y rest =>
      cases best with
      | none =>
        obtain ⟨hheads, hbest⟩ := ih hscan
        refine ⟨⟨fun z hz => ?_, hheads⟩, fun b hb => by cases hb⟩
        cases hz
        exact hbest _ rfl
      | some b =>
        obtain ⟨j, z⟩ := b
        rw [scan] at hscan
        obtain ⟨hheads, hbest⟩ := ih hscan
        have hboth : key x ≤ key y ∧ key x ≤ key z := by
          by_cases htaken : before y z = true
          · rw [if_pos htaken] at hbest
            have hfirst : key x ≤ key y := hbest _ rfl
            exact ⟨hfirst, hfirst.trans ((hbefore y z).mp htaken).le⟩
          · rw [if_neg htaken] at hbest
            have hfirst : key x ≤ key z := hbest _ rfl
            exact ⟨hfirst.trans (not_lt.mp fun hless => htaken ((hbefore y z).mpr hless)), hfirst⟩
        refine ⟨⟨fun w hw => ?_, hheads⟩, fun b hb => ?_⟩
        · cases hw
          exact hboth.1
        · cases hb
          exact hboth.2

/-- A merge that may take as many heads as there are values takes them all, the
smallest first. -/
theorem merges_merge (hbefore : ∀ x y, before x y = true ↔ key x < key y) {n : Nat} {streams : List (List α)}
    (henough : total streams ≤ n) : Merges key streams (merge before n streams) := by
  induction n generalizing streams with
  | zero =>
    refine .done fun s hs => ?_
    have hlength : s.length ≤ total streams := (List.sublist_flatten_of_mem hs).length_le
    exact List.length_eq_zero_iff.mp (by omega)
  | succ n ih =>
    rw [merge]
    split
    · rename_i hscan
      exact .done (scan_none hscan).2
    · rename_i k x hscan
      obtain hsame | ⟨front, rest, back, rfl, rfl⟩ := scan_place hscan
      · cases hsame
      · have hmodified : (front ++ (x :: rest) :: back).modify (0 + front.length) List.tail =
            front ++ rest :: back := by
          rw [Nat.zero_add]
          exact List.modifyTailIdx_add _ 0 front _
        rw [hmodified]
        refine .take (fun s hs => (scan_least hbefore hscan).1 s ?_) (ih ?_)
        · rcases List.mem_append.mp hs with hs | hs
          · exact List.mem_append_left _ hs
          · exact List.mem_append_right _ (List.mem_cons_of_mem _ hs)
        · simp only [total, List.flatten_append, List.flatten_cons, List.length_append,
            List.length_cons] at henough ⊢
          omega

/-! ### Order -/

/-- Streams in order of a rank that the key refines are merged in that order. -/
theorem Merges.sorted [Preorder τ] {rank : α → τ} (hrank : ∀ x y, key x ≤ key y → rank x ≤ rank y)
    {streams : List (List α)} {out : List α} (hmerges : Merges key streams out)
    (hsorted : ∀ s ∈ streams, s.Pairwise fun x y => rank x ≤ rank y) : out.Pairwise fun x y => rank x ≤ rank y := by
  induction hmerges with
  | done _ => exact .nil
  | @take front back x rest out hfirst hrest ih =>
    have hmiddle := List.pairwise_cons.mp (hsorted (x :: rest) (List.mem_append_right _ List.mem_cons_self))
    have hothers : ∀ s ∈ front ++ back, s.Pairwise fun x y => rank x ≤ rank y := fun s hs =>
      hsorted s (List.perm_middle.mem_iff.mpr (List.mem_cons_of_mem _ hs))
    refine .cons (fun y hy => ?_) (ih fun s hs => ?_)
    · obtain ⟨s, hs, hy⟩ := List.mem_flatten.mp (hrest.interleaves.perm.mem_iff.mp hy)
      rcases List.mem_cons.mp (List.perm_middle.mem_iff.mp hs) with rfl | hs
      · exact hmiddle.1 y hy
      · cases s with
        | nil => cases hy
        | cons h t =>
          have hhead := hrank x h (hfirst _ hs h rfl)
          rcases List.mem_cons.mp hy with rfl | hy
          · exact hhead
          · exact hhead.trans ((List.pairwise_cons.mp (hothers _ hs)).1 y hy)
    · rcases List.mem_cons.mp (List.perm_middle.mem_iff.mp hs) with rfl | hs
      · exact hmiddle.2
      · exact hothers s hs

/-- No two of the streams hold values of one key. -/
def Apart (key : α → κ) (streams : List (List α)) : Prop :=
  streams.Pairwise fun s t => ∀ x ∈ s, ∀ y ∈ t, key x ≠ key y

omit [LinearOrder κ] in
theorem Apart.perm {streams streams' : List (List α)} (hperm : streams.Perm streams')
    (hapart : Apart key streams) : Apart key streams' :=
  (hperm.pairwise_iff fun hne x hx y hy => (hne y hy x hx).symm).mp hapart

/-- Of streams that are apart there is one merge, in whatever order they are
given. -/
theorem Merges.unique {streams streams' : List (List α)} {out out' : List α} (hmerges : Merges key streams out)
    (hmerges' : Merges key streams' out') (hperm : streams.Perm streams') (hapart : Apart key streams) :
    out = out' := by
  induction hmerges generalizing streams' out' with
  | done hempty =>
    cases hmerges' with
    | done _ => rfl
    | take _ _ =>
      cases hempty _ (hperm.mem_iff.mpr (List.mem_append_right _ List.mem_cons_self))
  | @take front back x rest out hfirst _ ih =>
    have houtside := List.pairwise_cons.mp (hapart.perm List.perm_middle)
    cases hmerges' with
    | done hempty =>
      cases hempty _ (hperm.mem_iff.mp (List.mem_append_right _ List.mem_cons_self))
    | @take front' back' x' rest' out' hfirst' hrest' =>
      have hperm' : ((x :: rest) :: (front ++ back)).Perm ((x' :: rest') :: (front' ++ back')) :=
        List.perm_middle.symm.trans (hperm.trans List.perm_middle)
      have hsame : x' :: rest' = x :: rest := by
        rcases List.mem_cons.mp (hperm'.mem_iff.mpr List.mem_cons_self) with hsame | hother
        · exact hsame
        · have hne : key x ≠ key x' := houtside.1 _ hother x List.mem_cons_self x' List.mem_cons_self
          rcases List.mem_cons.mp (hperm'.mem_iff.mp List.mem_cons_self) with hsame | hother'
          · exact hsame.symm
          · exact absurd (le_antisymm (hfirst _ hother x' rfl) (hfirst' _ hother' x rfl)) hne
      cases hsame
      have hothers : (front ++ back).Perm (front' ++ back') := hperm'.cons_inv
      have hleft : (front ++ rest :: back).Perm (front' ++ rest :: back') :=
        List.perm_middle.trans ((hothers.cons rest).trans List.perm_middle.symm)
      refine congrArg (x :: ·) (ih hrest' hleft (Apart.perm List.perm_middle.symm ?_))
      exact .cons (fun t ht y hy => houtside.1 t ht y (List.mem_cons_of_mem _ hy)) houtside.2

end Order

end StreamMerge
